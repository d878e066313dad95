import PacemakerCloud.Config.Agreement

/-!
# The ids of the generated configuration

The schema of the configuration asks that no two elements have the same id.  The
stylesheet makes ids of nine kinds, from the names of assemblies, services and parameters;
some of them leave out the assembly, or the service.
-/

namespace PacemakerCloud

open Foundation

/-! ## Ids by element -/

def fixedIds : List CString :=
  crmConfig.attrValues "id" ++ rscDefaults.attrValues "id"

def Primitive.ids (p : Primitive) : List CString :=
  p.id :: ((p.attributes.map fun attributes =>
      attributes.id :: attributes.nvpairs.map NvPair.id).getD []) ++
    (p.operation.map MonitorOp.id).toList

def CibConstraint.id : CibConstraint → CString
  | .rscLocation id _ _ => id
  | .rscOrder id _ _ => id

def Cib.otherIds (cib : Cib) : List CString :=
  fixedIds ++ cib.resources.flatMap Primitive.ids ++ cib.constraints.map CibConstraint.id

theorem NvPair.attrValues_toXml (p : NvPair) : p.toXml.attrValues "id" = [p.id] := by
  rw [NvPair.toXml, Xml.attrValues_elem]
  rfl

theorem InstanceAttributes.attrValues_toXml (attributes : InstanceAttributes) :
    attributes.toXml.attrValues "id" = attributes.id :: attributes.nvpairs.map NvPair.id := by
  rw [InstanceAttributes.toXml, Xml.attrValues_elem, List.flatMap_map]
  simp only [NvPair.attrValues_toXml, ← List.map_eq_flatMap]
  rfl

theorem MonitorOp.attrValues_toXml (op : MonitorOp) : op.toXml.attrValues "id" = [op.id] := by
  rw [MonitorOp.toXml, Xml.attrValues_elem]
  rfl

theorem Primitive.attrValues_toXml (p : Primitive) : p.toXml.attrValues "id" = p.ids := by
  rw [Primitive.toXml, Xml.attrValues_elem, Primitive.ids]
  cases p.attributes <;> cases p.operation <;>
    simp [InstanceAttributes.attrValues_toXml, MonitorOp.attrValues_toXml] <;> rfl

theorem CibNode.attrValues_toXml (n : CibNode) : n.toXml.attrValues "id" = [n.id] := by
  rw [CibNode.toXml, Xml.attrValues_elem]
  rfl

theorem CibConstraint.attrValues_toXml (c : CibConstraint) :
    c.toXml.attrValues "id" = [c.id] := by
  cases c <;> rw [CibConstraint.toXml, Xml.attrValues_elem] <;> rfl

theorem Cib.attrValues_toXml (cib : Cib) :
    cib.toXml.attrValues "id" =
      fixedIds ++ (cib.nodes.map CibNode.id ++ (cib.resources.flatMap Primitive.ids ++
        cib.constraints.map CibConstraint.id)) := by
  simp only [Cib.toXml, Xml.attrValues_elem, List.flatMap_cons, List.flatMap_nil,
    List.flatMap_map, CibNode.attrValues_toXml, Primitive.attrValues_toXml,
    CibConstraint.attrValues_toXml, ← List.map_eq_flatMap, List.append_nil, fixedIds,
    List.append_assoc]
  rfl

theorem Cib.attrValues_toXml_perm (cib : Cib) :
    (cib.toXml.attrValues "id").Perm (cib.nodes.map CibNode.id ++ cib.otherIds) := by
  rw [Cib.attrValues_toXml, Cib.otherIds, List.append_assoc]
  exact List.perm_append_comm_assoc _ _ _

/-! ## Ids by kind -/

def paramId (name : CString) : CString := "param_".toList ++ name

theorem paramId_injective : Function.Injective paramId :=
  fun _ _ hid => List.append_cancel_left hid

def parameterIds (service : Xml) : List CString :=
  (if service.isOcf then service.parameterNames else []) ++
    if service.configured then
      ("url_".toList ++ service.attrText "name") :: service.parameterNames
    else []

/-- The kinds of ids that a service has, by their first four characters. -/
inductive IdKind where
  | rsc | monitor | cfg | attrs | param | loc | depend
  deriving DecidableEq

namespace IdKind

def all : List IdKind := [.rsc, .monitor, .cfg, .attrs, .param, .loc, .depend]

def tag : IdKind → CString
  | .rsc => "rsc_".toList
  | .monitor => "moni".toList
  | .cfg => "cfg_".toList
  | .attrs => "attr".toList
  | .param => "para".toList
  | .loc => "loc_".toList
  | .depend => "depe".toList

def ids (x : CString × Xml) : IdKind → List CString
  | .rsc => [qualified "rsc_" x.1 (x.2.attrText "name")]
  | .monitor => [qualified "monitor_" x.1 (x.2.attrText "name")]
  | .cfg => if x.2.configured then [qualified "cfg_" x.1 (x.2.attrText "name")] else []
  | .attrs =>
      (if x.2.isOcf then ["attrs_".toList ++ x.2.attrText "name"] else []) ++
        if x.2.configured then ["attrs_".toList ++ x.2.attrText "name"] else []
  | .param => (parameterIds x.2).map paramId
  | .loc =>
      qualified "loc_" x.1 (x.2.attrText "name") ::
        if x.2.configured then [qualified "loc_cfg_" x.1 (x.2.attrText "name")] else []
  | .depend => if x.2.configured then [qualified "depend_" x.1 (x.2.attrText "name")] else []

end IdKind

def serviceIds (x : CString × Xml) : List CString :=
  (servicePrimitives initialValue x.1 x.2).flatMap Primitive.ids ++
    (serviceConstraints x.1 x.2).map CibConstraint.id

theorem param_ids_eq (service : Xml) :
    (service.parameters.map (paramNvPair initialValue)).map NvPair.id =
      service.parameterNames.map paramId := by
  simp only [Xml.parameterNames, List.map_map]
  rfl

theorem serviceIds_perm (x : CString × Xml) :
    (serviceIds x).Perm (IdKind.all.flatMap (IdKind.ids x)) := by
  have hurl : ∀ name : CString,
      "param_url_".toList ++ name = paramId ("url_".toList ++ name) :=
    fun _ => rfl
  refine List.perm_iff_count.mpr fun id => ?_
  cases hocf : x.2.isOcf <;> cases hconfigured : x.2.configured <;>
    simp only [serviceIds, servicePrimitives, serviceConstraints, rscPrimitive, cfgPrimitive,
      Primitive.ids, CibConstraint.id, IdKind.all, IdKind.ids, parameterIds, hocf, hconfigured,
      hurl, param_ids_eq, if_true, Bool.false_eq_true, if_false, List.flatMap_cons,
      List.flatMap_nil, List.map_cons, List.map_nil, List.map_append, Option.map_some,
      Option.map_none, Option.getD_some, Option.getD_none, Option.toList_some, Option.toList_none,
      List.count_append, List.count_cons, List.count_nil] <;>
    omega

theorem tag_of_mem_ids {x : CString × Xml} {kind : IdKind} {id : CString}
    (h : id ∈ kind.ids x) : id.take 4 = kind.tag := by
  cases kind <;>
    simp only [IdKind.ids, List.mem_append, List.mem_cons, List.mem_ite_nil_right, List.mem_map,
      List.not_mem_nil, or_false] at h
  case rsc => exact h ▸ rfl
  case monitor => exact h ▸ rfl
  case cfg => exact h.2 ▸ rfl
  case attrs =>
    rcases h with ⟨-, rfl⟩ | ⟨-, rfl⟩
    · rfl
    · rfl
  case param =>
    obtain ⟨name, -, rfl⟩ := h
    rfl
  case loc =>
    rcases h with rfl | ⟨-, rfl⟩
    · rfl
    · rfl
  case depend => exact h.2 ▸ rfl

def dependId (dependency : Xml) : CString := "depend_".toList ++ dependency.attrText "id"

def idFamily (deployable : Xml) (kind : IdKind) : List CString :=
  (deployable.serviceNodes.flatMap fun x => kind.ids x) ++
    if kind = .depend then deployable.dependencies.map dependId else []

theorem otherIds_perm (deployable : Xml) :
    (cf2pe deployable).otherIds.Perm
      (fixedIds ++ IdKind.all.flatMap (idFamily deployable)) := by
  have hservices : (cf2pe deployable).otherIds.Perm (fixedIds ++
      ((deployable.serviceNodes.flatMap serviceIds) ++
        deployable.dependencies.map dependId)) := by
    rw [Cib.otherIds, cf2pe, cf2peWith_resources, cf2peWith_constraints, List.append_assoc,
      List.flatMap_assoc, List.map_append, List.map_flatMap, List.map_map, ← List.append_assoc
        (List.flatMap _ _)]
    exact ((List.flatMap_append_perm _ _ _).append_right _).append_left _
  refine hservices.trans (List.Perm.append_left _ ?_)
  have hparts : (deployable.serviceNodes.flatMap serviceIds).Perm
      (IdKind.all.flatMap fun kind => deployable.serviceNodes.flatMap fun x => kind.ids x) :=
    (List.Perm.flatMap_left _ fun x _ => serviceIds_perm x).trans
      (flatMap_parts_perm _ _ fun kind x => IdKind.ids x kind)
  refine (hparts.append_right _).trans (.of_eq ?_)
  simp [IdKind.all, idFamily]

theorem tag_of_mem_idFamily {deployable : Xml} {kind : IdKind} {id : CString}
    (h : id ∈ idFamily deployable kind) : id.take 4 = kind.tag := by
  rcases List.mem_append.mp h with h | h
  · obtain ⟨x, -, hid⟩ := List.mem_flatMap.mp h
    exact tag_of_mem_ids hid
  · obtain ⟨rfl, hid⟩ := List.mem_ite_nil_right.mp h
    obtain ⟨dependency, -, rfl⟩ := List.mem_map.mp hid
    rfl

theorem IdKind.mem_all (kind : IdKind) : kind ∈ IdKind.all := by
  cases kind <;> decide

theorem mem_otherIds {deployable : Xml} {id : CString} :
    id ∈ (cf2pe deployable).otherIds ↔
      id ∈ fixedIds ∨ ∃ kind, id ∈ idFamily deployable kind := by
  rw [(otherIds_perm deployable).mem_iff, List.mem_append, List.mem_flatMap]
  simp [IdKind.mem_all]

theorem otherIds_nodup_iff (deployable : Xml) :
    (cf2pe deployable).otherIds.Nodup ↔ ∀ kind, (idFamily deployable kind).Nodup := by
  have hfixed : ∀ id ∈ fixedIds, id.take 4 ∉ IdKind.all.map IdKind.tag := by decide
  have hapart : ∀ id ∈ fixedIds, ∀ id' ∈ IdKind.all.flatMap (idFamily deployable), id ≠ id' := by
    rintro id hid id' hid' rfl
    obtain ⟨kind, hkind, hmem⟩ := List.mem_flatMap.mp hid'
    exact hfixed id hid (tag_of_mem_idFamily hmem ▸ List.mem_map_of_mem hkind)
  have hfamilies : (IdKind.all.flatMap (idFamily deployable)).Nodup ↔
      ∀ kind ∈ IdKind.all, (idFamily deployable kind).Nodup :=
    nodup_flatMap_of_tags (by decide) fun kind _ id hid => tag_of_mem_idFamily hid
  rw [(otherIds_perm deployable).nodup_iff, List.nodup_append, hfamilies]
  constructor
  · rintro ⟨-, hall, -⟩ kind
    exact hall kind kind.mem_all
  · intro hall
    exact ⟨by decide, fun kind _ => hall kind, hapart⟩

/-! ## Documents with distinct names -/

structure DistinctNames (deployable : Xml) : Prop where
  assemblies : (deployable.assemblies.map (·.attrText "name")).Nodup
  services : (deployable.serviceNodes.map fun x => x.2.attrText "name").Nodup
  no_underscore : ∀ x ∈ deployable.serviceNodes, '_' ∉ x.2.attrText "name"
  parameters : ∀ x ∈ deployable.serviceNodes, x.2.parameterNames.Nodup
  dependencies : (deployable.dependencies.map (·.attrText "id")).Nodup

def Foundation.Xml.emits (service : Xml) : Bool := service.isOcf || service.configured

theorem mem_parameterIds {service : Xml} {name : CString} :
    name ∈ parameterIds service ↔
      service.emits = true ∧ name ∈ service.parameterNames ∨
        service.configured = true ∧ name = "url_".toList ++ service.attrText "name" := by
  cases hocf : service.isOcf <;> cases hconfigured : service.configured <;>
    simp only [parameterIds, Xml.emits, hocf, hconfigured, Bool.false_eq_true, if_true, if_false,
      Bool.or_false, Bool.or_true, Bool.or_self, List.append_nil, List.nil_append, List.mem_append,
      List.mem_cons, List.not_mem_nil, false_and, true_and, or_false]
  · exact or_comm
  · tauto

/-- What the ids of a document with distinct names still have to be free of. -/
structure IdsApart (deployable : Xml) : Prop where
  uuids_nodup : (deployable.assemblies.map (·.attrText "uuid")).Nodup
  uuids_apart : ∀ assembly ∈ deployable.assemblies,
    assembly.attrText "uuid" ∉ fixedIds ∧
      ∀ kind, assembly.attrText "uuid" ∉ idFamily deployable kind
  attributes_once : ∀ x ∈ deployable.serviceNodes, ¬ (x.2.isOcf = true ∧ x.2.configured = true)
  parameters_apart : ∀ x ∈ deployable.serviceNodes, ∀ y ∈ deployable.serviceNodes, x ≠ y →
    x.2.emits = true → y.2.emits = true → ∀ name ∈ x.2.parameterNames,
      name ∉ y.2.parameterNames
  url_apart : ∀ x ∈ deployable.serviceNodes, ∀ y ∈ deployable.serviceNodes,
    x.2.configured = true → y.2.emits = true →
      "url_".toList ++ x.2.attrText "name" ∉ y.2.parameterNames
  dependencies_apart : ∀ x ∈ deployable.serviceNodes, ∀ dependency ∈ deployable.dependencies,
    x.2.configured = true → dependency.attrText "id" ≠ x.1 ++ '_' :: x.2.attrText "name"

namespace DistinctNames

variable {deployable : Xml} (h : DistinctNames deployable) {x y : CString × Xml}
include h

theorem eq_of_name (hx : x ∈ deployable.serviceNodes) (hy : y ∈ deployable.serviceNodes)
    (hname : x.2.attrText "name" = y.2.attrText "name") : x = y :=
  List.inj_on_of_nodup_map h.services hx hy hname

theorem names_of_joined (hx : x ∈ deployable.serviceNodes) (hy : y ∈ deployable.serviceNodes)
    {a b : CString} (hjoined : a ++ '_' :: x.2.attrText "name" = b ++ '_' :: y.2.attrText "name") :
    a = b ∧ x = y := by
  obtain ⟨ha, hname⟩ := (append_separator_inj (h.no_underscore x hx)
    (h.no_underscore y hy)).mp hjoined
  exact ⟨ha, h.eq_of_name hx hy hname⟩

theorem eq_of_qualified {kind : String} (hx : x ∈ deployable.serviceNodes)
    (hy : y ∈ deployable.serviceNodes)
    (hid : qualified kind x.1 (x.2.attrText "name") = qualified kind y.1 (y.2.attrText "name")) :
    x = y :=
  (h.names_of_joined hx hy (qualified_inj.mp hid)).2

theorem loc_ne_loc_cfg (hx : x ∈ deployable.serviceNodes) (hy : y ∈ deployable.serviceNodes) :
    qualified "loc_" x.1 (x.2.attrText "name") ≠
      qualified "loc_cfg_" y.1 (y.2.attrText "name") := by
  intro hid
  have hcfg : qualified "loc_cfg_" y.1 (y.2.attrText "name") =
      qualified "loc_" ("cfg_".toList ++ y.1) (y.2.attrText "name") := by
    rw [qualified, qualified, ← List.append_assoc]
    rfl
  obtain ⟨hassembly, rfl⟩ := h.names_of_joined hx hy (qualified_inj.mp (hid.trans hcfg))
  have hlength := congrArg List.length hassembly
  rw [List.length_append] at hlength
  have hcfg_length : "cfg_".toList.length = 4 := by decide
  omega

theorem eq_of_shared_id {kind : IdKind} (hkind : kind ≠ .param)
    (hx : x ∈ deployable.serviceNodes) (hy : y ∈ deployable.serviceNodes) {id : CString}
    (hid : id ∈ kind.ids x) (hid' : id ∈ kind.ids y) : x = y := by
  cases kind <;>
    simp only [IdKind.ids, List.mem_append, List.mem_cons, List.mem_ite_nil_right, List.mem_map,
      List.not_mem_nil, or_false] at hid hid'
  case rsc => exact h.eq_of_qualified hx hy (hid.symm.trans hid')
  case monitor => exact h.eq_of_qualified hx hy (hid.symm.trans hid')
  case cfg => exact h.eq_of_qualified hx hy (hid.2.symm.trans hid'.2)
  case attrs =>
    have hname : "attrs_".toList ++ x.2.attrText "name" =
        "attrs_".toList ++ y.2.attrText "name" := by
      rcases hid with ⟨-, rfl⟩ | ⟨-, rfl⟩ <;> rcases hid' with ⟨-, hid'⟩ | ⟨-, hid'⟩ <;>
        exact hid'
    exact h.eq_of_name hx hy (List.append_cancel_left hname)
  case param => exact absurd rfl hkind
  case loc =>
    rcases hid with rfl | ⟨-, rfl⟩ <;> rcases hid' with hid' | ⟨-, hid'⟩
    · exact h.eq_of_qualified hx hy hid'
    · exact absurd hid' (h.loc_ne_loc_cfg hx hy)
    · exact absurd hid'.symm (h.loc_ne_loc_cfg hy hx)
    · exact h.eq_of_qualified hx hy hid'
  case depend => exact h.eq_of_qualified hx hy (hid.2.symm.trans hid'.2)

theorem nodup_ids_iff {kind : IdKind} (hkind : kind ≠ .param) :
    (deployable.serviceNodes.flatMap fun x => kind.ids x).Nodup ↔
      ∀ x ∈ deployable.serviceNodes, (kind.ids x).Nodup := by
  rw [List.nodup_flatMap]
  refine and_iff_left_of_imp fun _ => ?_
  refine (List.pairwise_map.mp h.services).imp_of_mem fun {x y} hx hy hne id hid hid' => ?_
  exact hne (congrArg (fun x => x.2.attrText "name") (h.eq_of_shared_id hkind hx hy hid hid'))

theorem nodup_ids (hx : x ∈ deployable.serviceNodes) {kind : IdKind} (hparam : kind ≠ .param)
    (hattrs : kind ≠ .attrs) : (kind.ids x).Nodup := by
  cases kind <;> cases hconfigured : x.2.configured <;>
    simp [IdKind.ids, hconfigured] at hparam hattrs ⊢
  exact h.loc_ne_loc_cfg hx hx

theorem nodup_attrs_iff :
    (idFamily deployable .attrs).Nodup ↔ ∀ x ∈ deployable.serviceNodes,
      ¬ (x.2.isOcf = true ∧ x.2.configured = true) := by
  have hids : ∀ x : CString × Xml,
      (IdKind.attrs.ids x).Nodup ↔ ¬ (x.2.isOcf = true ∧ x.2.configured = true) := by
    intro x
    cases hocf : x.2.isOcf <;> cases hconfigured : x.2.configured <;>
      simp [IdKind.ids, hocf, hconfigured]
  simp only [idFamily, reduceCtorEq, if_false, List.append_nil]
  rw [h.nodup_ids_iff (by decide)]
  exact forall₂_congr fun x _ => hids x

theorem nodup_depend_iff :
    (idFamily deployable .depend).Nodup ↔ ∀ x ∈ deployable.serviceNodes,
      ∀ dependency ∈ deployable.dependencies, x.2.configured = true →
        dependency.attrText "id" ≠ x.1 ++ '_' :: x.2.attrText "name" := by
  have hown : (deployable.serviceNodes.flatMap fun x => IdKind.depend.ids x).Nodup :=
    (h.nodup_ids_iff (by decide)).mpr fun x hx => h.nodup_ids hx (by decide) (by decide)
  have hdependencies : (deployable.dependencies.map dependId).Nodup := by
    have hinj : Function.Injective fun id : CString => "depend_".toList ++ id :=
      fun _ _ hid => List.append_cancel_left hid
    have hmap := h.dependencies.map hinj
    rwa [List.map_map] at hmap
  have heq : ∀ (x : CString × Xml) (dependency : Xml),
      qualified "depend_" x.1 (x.2.attrText "name") = dependId dependency ↔
        dependency.attrText "id" = x.1 ++ '_' :: x.2.attrText "name" := by
    intro x dependency
    refine Iff.trans ?_ eq_comm
    unfold qualified dependId
    simp only [List.append_assoc, List.append_right_inj]
  rw [idFamily, if_pos rfl, List.nodup_append]
  constructor
  · rintro ⟨-, -, hapart⟩ x hx dependency hdependency hconfigured hid
    have hmem : qualified "depend_" x.1 (x.2.attrText "name") ∈ IdKind.depend.ids x := by
      simp [IdKind.ids, hconfigured]
    exact hapart _ (List.mem_flatMap.mpr ⟨x, hx, hmem⟩) _ (List.mem_map_of_mem hdependency)
      ((heq x dependency).mpr hid)
  · intro hapart
    refine ⟨hown, hdependencies, ?_⟩
    rintro id hid _ hid' rfl
    obtain ⟨x, hx, hid⟩ := List.mem_flatMap.mp hid
    obtain ⟨hconfigured, hid⟩ := List.mem_ite_nil_right.mp hid
    obtain rfl := List.mem_singleton.mp hid
    obtain ⟨dependency, hdependency, hid'⟩ := List.mem_map.mp hid'
    exact hapart x hx dependency hdependency hconfigured ((heq x dependency).mp hid'.symm)

theorem nodup_param_iff (honce : ∀ x ∈ deployable.serviceNodes,
      ¬ (x.2.isOcf = true ∧ x.2.configured = true)) :
    (idFamily deployable .param).Nodup ↔
      (∀ x ∈ deployable.serviceNodes, ∀ y ∈ deployable.serviceNodes, x ≠ y →
        x.2.emits = true → y.2.emits = true → ∀ name ∈ x.2.parameterNames,
          name ∉ y.2.parameterNames) ∧
      ∀ x ∈ deployable.serviceNodes, ∀ y ∈ deployable.serviceNodes,
        x.2.configured = true → y.2.emits = true →
          "url_".toList ++ x.2.attrText "name" ∉ y.2.parameterNames := by
  have hnames : (idFamily deployable .param).Nodup ↔
      (deployable.serviceNodes.flatMap fun x => parameterIds x.2).Nodup := by
    simp only [idFamily, reduceCtorEq, if_false, List.append_nil, IdKind.ids]
    rw [← List.map_flatMap, List.nodup_map_iff paramId_injective]
  rw [hnames]
  constructor
  · intro hnodup
    have hown : ∀ x ∈ deployable.serviceNodes, ∀ y ∈ deployable.serviceNodes, ∀ name,
        name ∈ parameterIds x.2 → name ∈ parameterIds y.2 → x = y := by
      intro x hx y hy name hname hname'
      rw [← List.map_id (List.flatMap _ _)] at hnodup
      exact eq_of_nodup_flatMap hnodup hx hy hname hname' rfl
    constructor
    · intro x hx y hy hne hemits hemits' name hname hname'
      exact hne (hown x hx y hy name (mem_parameterIds.mpr (Or.inl ⟨hemits, hname⟩))
        (mem_parameterIds.mpr (Or.inl ⟨hemits', hname'⟩)))
    · intro x hx y hy hconfigured hemits hname
      obtain rfl := hown x hx y hy _ (mem_parameterIds.mpr (Or.inr ⟨hconfigured, rfl⟩))
        (mem_parameterIds.mpr (Or.inl ⟨hemits, hname⟩))
      -- the parameter and the executable of one service
      have hblock := (List.nodup_flatMap.mp hnodup).1 x hx
      rw [parameterIds, if_pos hconfigured] at hblock
      exact (List.nodup_cons.mp hblock.of_append_right).1 hname
  · rintro ⟨hparameters, hurl⟩
    refine (nodup_flatMap_iff (List.Nodup.of_map _ h.services) ?_).mpr ?_
    · intro x hx
      cases hconfigured : x.2.configured with
      | false =>
          cases hocf : x.2.isOcf <;> simp [parameterIds, hocf, hconfigured, h.parameters x hx]
      | true =>
          have hocf : x.2.isOcf = false :=
            Bool.eq_false_iff.mpr fun hocf => honce x hx ⟨hocf, hconfigured⟩
          have hnew := hurl x hx x hx hconfigured (by simp [Xml.emits, hconfigured])
          rw [parameterIds, hocf, hconfigured]
          exact List.nodup_cons.mpr ⟨hnew, h.parameters x hx⟩
    · intro x hx y hy hne name hname hname'
      rcases mem_parameterIds.mp hname with ⟨hemits, hname⟩ | ⟨hconfigured, rfl⟩ <;>
        rcases mem_parameterIds.mp hname' with ⟨hemits', hname'⟩ | ⟨hconfigured', hname'⟩
      · exact hparameters x hx y hy hne hemits hemits' name hname hname'
      · exact hurl y hy x hx hconfigured' hemits (hname' ▸ hname)
      · exact hurl x hx y hy hconfigured hemits' hname'
      · exact hne (h.eq_of_name hx hy (List.append_cancel_left hname'))

end DistinctNames

/--
The generated ids are distinct exactly if the uuids are, from each other and from all
other ids; no service of the class `ocf` is configured; no parameter of one service has
the name of one of another, or of an executable; and no dependency has the name of a
configured service.
-/
theorem ids_nodup_iff {deployable : Xml} (h : DistinctNames deployable) :
    ((cf2pe deployable).toXml.attrValues "id").Nodup ↔ IdsApart deployable := by
  have hfamilies := otherIds_nodup_iff deployable
  rw [(Cib.attrValues_toXml_perm _).nodup_iff, List.nodup_append, hfamilies]
  have hnodes : (cf2pe deployable).nodes.map CibNode.id =
      deployable.assemblies.map (·.attrText "uuid") := by
    rw [cf2pe, cf2peWith, List.map_map]
    rfl
  rw [hnodes]
  constructor
  · rintro ⟨huuids, hkinds, hapart⟩
    have honce := h.nodup_attrs_iff.mp (hkinds .attrs)
    obtain ⟨hparameters, hurl⟩ := (h.nodup_param_iff honce).mp (hkinds .param)
    refine ⟨huuids, ?_, honce, hparameters, hurl, h.nodup_depend_iff.mp (hkinds .depend)⟩
    intro assembly hassembly
    have hnot : assembly.attrText "uuid" ∉ (cf2pe deployable).otherIds := fun hmem =>
      hapart _ (List.mem_map_of_mem hassembly) _ hmem rfl
    rwa [mem_otherIds, not_or, not_exists] at hnot
  · intro hids
    refine ⟨hids.uuids_nodup, ?_, ?_⟩
    · intro kind
      by_cases hattrs : kind = .attrs
      · exact hattrs ▸ h.nodup_attrs_iff.mpr hids.attributes_once
      by_cases hparam : kind = .param
      · rw [hparam]
        exact (h.nodup_param_iff hids.attributes_once).mpr
          ⟨hids.parameters_apart, hids.url_apart⟩
      by_cases hdepend : kind = .depend
      · exact hdepend ▸ h.nodup_depend_iff.mpr hids.dependencies_apart
      rw [idFamily, if_neg hdepend, List.append_nil]
      exact (h.nodup_ids_iff hparam).mpr fun x hx => h.nodup_ids hx hparam hattrs
    · rintro id hid _ hid' rfl
      obtain ⟨assembly, hassembly, rfl⟩ := List.mem_map.mp hid
      obtain ⟨hfixed, hkinds⟩ := hids.uuids_apart assembly hassembly
      rcases mem_otherIds.mp hid' with hmem | ⟨kind, hmem⟩
      · exact hfixed hmem
      · exact hkinds kind hmem

theorem ids_nodup_iff_test1Conf : IdsApart test1Conf := by
  have hnames : DistinctNames test1Conf :=
    { assemblies := by decide +kernel
      services := by decide +kernel
      no_underscore := by decide +kernel
      parameters := by decide +kernel
      dependencies := by decide +kernel }
  exact (ids_nodup_iff hnames).mp (by decide +kernel)

def addresses : Xml :=
  let service (name : String) : Xml :=
    .elem "service"
      [("name", name.toList), ("provider", "heartbeat".toList), ("class", "ocf".toList),
        ("type", "IPaddr2".toList), ("monitor_interval", "10".toList)]
      [.elem "parameters" [] [scalar "ip" (.elem "value" [] [.text "10.0.0.1".toList])]]
  .elem "deployable" [("name", "foo".toList), ("uuid", "123456".toList)]
    [.elem "assemblies" []
      [testAssembly "web" "7891011" (service "front"),
        testAssembly "db" "7891411" (service "back")]]

/-- Both addresses get the id `param_ip`. -/
theorem ids_shared :
    DistinctNames addresses ∧ ¬ ((cf2pe addresses).toXml.attrValues "id").Nodup :=
  ⟨{ assemblies := by decide +kernel
     services := by decide +kernel
     no_underscore := by decide +kernel
     parameters := by decide +kernel
     dependencies := by decide +kernel }, by decide +kernel⟩

end PacemakerCloud

import PacemakerCloud.Config.Load

/-!
# The two readings of a deployable

The policy engine knows the resources by the primitives that `cf2pe.xsl` generates, the
daemon by the maps that `cape.c` builds from the same document.  In a document within the
limits of the daemon the two agree.
-/

namespace PacemakerCloud

open Foundation

/-! ## The stylesheet by services -/

def Foundation.Xml.serviceNodes (deployable : Xml) : List (CString × Xml) :=
  deployable.assemblies.flatMap fun assembly =>
    assembly.services.map (assembly.attrText "name", ·)

theorem cf2peWith_resources (value : Xml → CString) (deployable : Xml) :
    (cf2peWith value deployable).resources =
      deployable.serviceNodes.flatMap fun x => servicePrimitives value x.1 x.2 := by
  simp [cf2peWith, Xml.serviceNodes, List.flatMap_assoc, List.flatMap_map]

theorem cf2peWith_constraints (value : Xml → CString) (deployable : Xml) :
    (cf2peWith value deployable).constraints =
      (deployable.serviceNodes.flatMap fun x => serviceConstraints x.1 x.2) ++
        deployable.dependencies.map dependencyOrder := by
  simp [cf2peWith, Xml.serviceNodes, List.flatMap_assoc, List.flatMap_map]

theorem mem_servicePrimitives {value : Xml → CString} {assName : CString} {service : Xml}
    {p : Primitive} :
    p ∈ servicePrimitives value assName service ↔
      p = rscPrimitive value assName service ∨
        service.configured = true ∧ p = cfgPrimitive value assName service := by
  cases h : service.configured <;> simp [servicePrimitives, h]

theorem mem_serviceConstraints {assName : CString} {service : Xml} {c : CibConstraint} :
    c ∈ serviceConstraints assName service ↔
      c = .rscLocation (qualified "loc_" assName (service.attrText "name"))
          (qualified "rsc_" assName (service.attrText "name")) assName ∨
        service.configured = true ∧
          (c = .rscOrder (qualified "depend_" assName (service.attrText "name"))
              (qualified "cfg_" assName (service.attrText "name"))
              (qualified "rsc_" assName (service.attrText "name")) ∨
            c = .rscLocation (qualified "loc_cfg_" assName (service.attrText "name"))
              (qualified "cfg_" assName (service.attrText "name")) assName) := by
  cases h : service.configured <;> simp [serviceConstraints, h]

def Cib.located (cib : Cib) (rsc node : CString) : Bool :=
  cib.constraints.any fun
    | .rscLocation _ rsc' node' => rsc' = rsc ∧ node' = node
    | .rscOrder _ _ _ => false

def Cib.primitivesOn (cib : Cib) (node : CString) : List Primitive :=
  cib.resources.filter fun p => cib.located p.id node

def Cib.Ordered (cib : Cib) (first next : CString) : Prop :=
  ∃ id, .rscOrder id first next ∈ cib.constraints

/-! ## Documents within the limits -/

structure Readable (deployable : Xml) : Prop where
  root : deployable.named "deployable" = true
  assembly_elements : ∀ child ∈ (deployable.childrenNamed "assemblies").flatMap Xml.elements,
    child.named "assembly" = true
  service_elements : ∀ assembly ∈ deployable.assemblies,
    ∀ child ∈ (assembly.childrenNamed "services").flatMap Xml.elements,
      child.named "service" = true
  assembly_name : ∀ assembly ∈ deployable.assemblies, (assembly.attr? "name").isSome ∧
    (assembly.attrText "name").length ≤ assemblyNameMax
  service_name : ∀ x ∈ deployable.serviceNodes, (x.2.attr? "name").isSome ∧
    (x.2.attrText "name").length ≤ resourceNameMax
  service_type : ∀ x ∈ deployable.serviceNodes,
    (x.2.attr? "type").isSome ∧ (x.2.attr? "class").isSome
  service_provider : ∀ x ∈ deployable.serviceNodes, x.2.isOcf = true →
    (x.2.attr? "provider").isSome
  assembly_names_nodup : (deployable.assemblies.map (·.attrText "name")).Nodup
  service_names_nodup : ∀ assembly ∈ deployable.assemblies,
    (assembly.services.map (·.attrText "name")).Nodup

structure Agreeable (deployable : Xml) : Prop extends Readable deployable where
  resource_names_nodup : ((cf2pe deployable).resources.map Primitive.id).Nodup

/-- What identifies a resource to both sides; the provider counts for the class `ocf`. -/
structure ResourceKey where
  id : CString
  rclass : CString
  type : CString
  provider : Option CString
  deriving DecidableEq, Repr

def Primitive.key (p : Primitive) : ResourceKey :=
  ⟨p.id, p.rclass, p.type, if p.rclass = "ocf".toList then p.provider else none⟩

def ResourceInfo.key (r : ResourceInfo) : ResourceKey :=
  ⟨r.name, r.rclass, r.type, if r.rclass = "ocf".toList then r.rprovider else none⟩

/-! ## What the walk reads -/

theorem attrText_of_isSome {x : Xml} {name : String} (h : (x.attr? name).isSome) :
    x.attr? name = some (x.attrText name) := by
  obtain ⟨text, htext⟩ := Option.isSome_iff_exists.mp h
  simp [Xml.attrText, htext]

theorem any_elements_named (x : Xml) (name : String) :
    x.elements.any (·.named name) = !(x.childrenNamed name).isEmpty := by
  rw [Bool.eq_iff_iff]
  simp only [List.any_eq_true, Bool.not_eq_true', List.isEmpty_eq_false_iff_exists_mem,
    Xml.elements, Xml.childrenNamed, List.mem_filter]
  constructor
  · rintro ⟨child, ⟨hmem, -⟩, hnamed⟩
    exact ⟨child, hmem, hnamed⟩
  · rintro ⟨child, hmem, hnamed⟩
    exact ⟨child, ⟨hmem, Xml.isElement_of_named hnamed⟩, hnamed⟩

theorem readService_eq {node : Xml} {s : Service} (h : readService node = some s)
    (hname : (node.attr? "name").isSome) :
    s.name = node.attrText "name" ∧ s.type = node.attrText "type" ∧
      s.rclass = node.attrText "class" ∧ s.rprovider = node.attr? "provider" ∧
      s.configureExecutable = node.configured := by
  simp only [readService, Option.bind_eq_bind, Option.bind_eq_some_iff, Option.pure_def,
    Option.some.injEq] at h
  obtain ⟨type, htype, rclass, hclass, rfl⟩ := h
  refine ⟨?_, ?_, ?_, rfl, any_elements_named node _⟩
  · simp [attrText_of_isSome hname]
  · simp [Xml.attrText, htype]
  · simp [Xml.attrText, hclass]

theorem assemblyCreate_eq {node : Xml} {a : AssemblyNode} (h : assemblyCreate node = some a) :
    a.name = node.attrText "name" ∧ a.uuid = node.attrText "uuid" ∧
      List.Forall₂ (fun x s => readService x = some s)
        ((node.childrenNamed "services").flatMap Xml.elements) a.services := by
  simp only [assemblyCreate, Option.bind_eq_bind, Option.bind_eq_some_iff, Option.pure_def,
    Option.some.injEq] at h
  obtain ⟨name, hname, uuid, huuid, services, hservices, rfl⟩ := h
  exact ⟨by simp [Xml.attrText, hname], by simp [Xml.attrText, huuid],
    forall₂_of_mapM hservices⟩

theorem servicePrimitives_perm {value : Xml → CString} {assName : CString} {node : Xml}
    {s : Service} (h : readService node = some s) (hname : (node.attr? "name").isSome)
    (hass : assName.length ≤ assemblyNameMax)
    (hfits : (node.attrText "name").length ≤ resourceNameMax)
    (hprovider : node.isOcf = true → (node.attr? "provider").isSome) :
    ((servicePrimitives value assName node).map Primitive.key).Perm
      ((resourceCreate assName s).map ResourceInfo.key) := by
  obtain ⟨hsname, htype, hclass, hsprovider, hconfigured⟩ := readService_eq h hname
  have hcut : ∀ {p : String}, p.toList.length = 4 →
      resourceName p.toList assName s.name = qualified p assName (node.attrText "name") := by
    intro p hp
    rw [hsname, resourceName_of_fits hp hass hfits, qualified]
  have hrsc : (rscPrimitive value assName node).key =
      ResourceInfo.key
        { name := resourceName "rsc_".toList assName s.name
          type := s.type
          rclass := s.rclass
          rprovider := s.rprovider
          escalationFailures := s.escalationFailures
          escalationPeriod := s.escalationPeriod } := by
    simp only [Primitive.key, rscPrimitive, ResourceInfo.key, hcut (p := "rsc_") (by decide),
      htype, hclass, hsprovider]
    by_cases hocf : node.attrText "class" = "ocf".toList
    · have hisOcf : node.isOcf = true := decide_eq_true hocf
      simp [hocf, hisOcf, attrText_of_isSome (hprovider hisOcf)]
    · simp only [hocf, if_false]
  have hcfg : (cfgPrimitive value assName node).key =
      (configureResourceCreate assName s).key := by
    simp only [Primitive.key, cfgPrimitive, ResourceInfo.key, configureResourceCreate,
      hcut (p := "cfg_") (by decide)]
  rw [servicePrimitives, resourceCreate, hconfigured]
  cases node.configured with
  | false => simpa using hrsc
  | true =>
      simp only [if_true, List.map_cons, List.map_nil, hrsc, hcfg]
      exact .swap _ _ _

theorem mem_serviceNodes {deployable : Xml} {x : CString × Xml} :
    x ∈ deployable.serviceNodes ↔ ∃ assembly ∈ deployable.assemblies,
      assembly.attrText "name" = x.1 ∧ x.2 ∈ assembly.services := by
  obtain ⟨assName, service⟩ := x
  simp only [Xml.serviceNodes, List.mem_flatMap, List.mem_map, Prod.mk.injEq]
  constructor
  · rintro ⟨assembly, hassembly, service', hservice, rfl, rfl⟩
    exact ⟨assembly, hassembly, rfl, hservice⟩
  · rintro ⟨assembly, hassembly, rfl, hservice⟩
    exact ⟨assembly, hassembly, service, hservice, rfl, rfl⟩

theorem serviceConstraints_location {assName id rsc node : CString} {service : Xml}
    (h : .rscLocation id rsc node ∈ serviceConstraints assName service) :
    assName = node ∧ ∃ p ∈ servicePrimitives initialValue assName service, p.id = rsc := by
  simp only [mem_serviceConstraints, CibConstraint.rscLocation.injEq, reduceCtorEq,
    false_or] at h
  rcases h with ⟨-, rfl, rfl⟩ | ⟨hconfigured, -, rfl, rfl⟩
  · exact ⟨rfl, _, mem_servicePrimitives.mpr (Or.inl rfl), rfl⟩
  · exact ⟨rfl, _, mem_servicePrimitives.mpr (Or.inr ⟨hconfigured, rfl⟩), rfl⟩

theorem location_of_servicePrimitives {assName : CString} {service : Xml} {p : Primitive}
    (h : p ∈ servicePrimitives initialValue assName service) :
    ∃ id, .rscLocation id p.id assName ∈ serviceConstraints assName service := by
  rcases mem_servicePrimitives.mp h with rfl | ⟨hconfigured, rfl⟩
  · exact ⟨_, mem_serviceConstraints.mpr (Or.inl rfl)⟩
  · exact ⟨_, mem_serviceConstraints.mpr (Or.inr ⟨hconfigured, Or.inr rfl⟩)⟩

namespace Readable

variable {deployable : Xml} (h : Readable deployable) {d : Deployable}

include h

theorem assemblies_eq :
    (deployable.childrenNamed "assemblies").flatMap Xml.elements = deployable.assemblies := by
  rw [Xml.assemblies, Xml.select_pair]
  refine List.flatMap_congr fun x hx => (Xml.childrenNamed_eq_elements fun child hchild => ?_).symm
  exact h.assembly_elements child (List.mem_flatMap.mpr ⟨x, hx, hchild⟩)

theorem services_eq {assembly : Xml} (hassembly : assembly ∈ deployable.assemblies) :
    (assembly.childrenNamed "services").flatMap Xml.elements = assembly.services := by
  rw [Xml.services, Xml.select_pair]
  refine List.flatMap_congr fun x hx => (Xml.childrenNamed_eq_elements fun child hchild => ?_).symm
  exact h.service_elements assembly hassembly child (List.mem_flatMap.mpr ⟨x, hx, hchild⟩)

theorem resourceName_eq {x : CString × Xml} (hx : x ∈ deployable.serviceNodes) {p : String}
    (hp : p.toList.length = 4) :
    resourceName p.toList x.1 (x.2.attrText "name") =
      qualified p x.1 (x.2.attrText "name") := by
  obtain ⟨assembly, hassembly, hname, -⟩ := mem_serviceNodes.mp hx
  exact resourceName_of_fits hp (hname ▸ (h.assembly_name assembly hassembly).2)
    (h.service_name x hx).2

theorem forall₂_assemblies (hload : parseAndLoad deployable = some d) :
    List.Forall₂ (fun assembly a => assemblyCreate assembly = some a) deployable.assemblies
      d.assemblies := by
  simp only [parseAndLoad, Option.bind_eq_bind, Option.bind_eq_some_iff, Option.pure_def,
    Option.some.injEq, h.assemblies_eq] at hload
  obtain ⟨name, -, uuid, -, nodes, hnodes, rfl⟩ := hload
  have hall := forall₂_of_mapM hnodes
  have hnames : deployable.assemblies.map (·.attrText "name") =
      nodes.map AssemblyNode.name :=
    map_eq_of_forall₂ hall fun _ _ _ ha => (assemblyCreate_eq ha).1.symm
  have hkept : (assemblyMap nodes).assemblies = nodes := by
    refine foldl_mapPut_of_nodup ?_
    rw [List.nil_append, ← hnames]
    exact h.assembly_names_nodup
  rwa [hkept]

theorem parseAndLoad_isSome :
    (parseAndLoad deployable).isSome ↔
      (deployable.attr? "name").isSome ∧ (deployable.attr? "uuid").isSome ∧
        ∀ assembly ∈ deployable.assemblies, (assembly.attr? "uuid").isSome := by
  have hcreate : ∀ assembly ∈ deployable.assemblies,
      (assemblyCreate assembly).isSome ↔ (assembly.attr? "uuid").isSome := by
    intro assembly hassembly
    have hname := attrText_of_isSome (h.assembly_name assembly hassembly).1
    have hservices : (assembly.services.mapM readService).isSome := by
      refine mapM_isSome.mpr fun service hservice => ?_
      have hnode : (assembly.attrText "name", service) ∈ deployable.serviceNodes :=
        mem_serviceNodes.mpr ⟨assembly, hassembly, rfl, hservice⟩
      obtain ⟨htype, hclass⟩ := h.service_type _ hnode
      simp [readService, attrText_of_isSome htype, attrText_of_isSome hclass]
    obtain ⟨services, hservices⟩ := Option.isSome_iff_exists.mp hservices
    cases huuid : assembly.attr? "uuid" <;>
      simp [assemblyCreate, hname, huuid, h.services_eq hassembly, hservices]
  have hnodes : (deployable.assemblies.mapM assemblyCreate).isSome ↔
      ∀ assembly ∈ deployable.assemblies, (assembly.attr? "uuid").isSome := by
    rw [mapM_isSome]
    exact forall₂_congr hcreate
  rw [← hnodes]
  simp only [parseAndLoad, h.assemblies_eq]
  cases deployable.attr? "name" <;> cases deployable.attr? "uuid" <;>
    cases deployable.assemblies.mapM assemblyCreate <;> simp

theorem forall₂_services {assembly : Xml} {a : AssemblyNode}
    (hassembly : assembly ∈ deployable.assemblies)
    (ha : assemblyCreate assembly = some a) :
    List.Forall₂ (fun service s => readService service = some s) assembly.services
      a.services := by
  have hall := (assemblyCreate_eq ha).2.2
  rwa [h.services_eq hassembly] at hall

theorem primitives_eq (hload : parseAndLoad deployable = some d) :
    (cf2pe deployable).resources.map Primitive.id =
      d.assemblies.flatMap AssemblyNode.primitives := by
  have hblocks : deployable.assemblies.map (fun assembly => (assembly.services.flatMap
        (servicePrimitives initialValue (assembly.attrText "name"))).map Primitive.id) =
      d.assemblies.map AssemblyNode.primitives := by
    refine map_eq_of_forall₂ (h.forall₂_assemblies hload) fun assembly hassembly a ha => ?_
    rw [AssemblyNode.primitives, List.map_flatMap, List.flatMap_def, List.flatMap_def]
    refine congrArg List.flatten
      (map_eq_of_forall₂ (h.forall₂_services hassembly ha) fun service hservice s hs => ?_)
    have hnode : (assembly.attrText "name", service) ∈ deployable.serviceNodes :=
      mem_serviceNodes.mpr ⟨assembly, hassembly, rfl, hservice⟩
    obtain ⟨hsname, -, -, -, hconfigured⟩ := readService_eq hs (h.service_name _ hnode).1
    rw [(assemblyCreate_eq ha).1, hsname, hconfigured, servicePrimitives]
    cases service.configured <;> rfl
  rw [cf2pe, cf2peWith, List.map_flatMap, List.flatMap_def, List.flatMap_def, hblocks]

end Readable

namespace Agreeable

variable {deployable : Xml} (h : Agreeable deployable)

include h

theorem eq_of_id {x y : CString × Xml} (hx : x ∈ deployable.serviceNodes)
    (hy : y ∈ deployable.serviceNodes) {p q : Primitive}
    (hp : p ∈ servicePrimitives initialValue x.1 x.2)
    (hq : q ∈ servicePrimitives initialValue y.1 y.2) (hid : p.id = q.id) : x = y := by
  have hnodup := h.resource_names_nodup
  rw [cf2pe, cf2peWith_resources] at hnodup
  exact eq_of_nodup_flatMap hnodup hx hy hp hq hid

theorem located_iff {x : CString × Xml} (hx : x ∈ deployable.serviceNodes) {p : Primitive}
    (hp : p ∈ servicePrimitives initialValue x.1 x.2) (node : CString) :
    (cf2pe deployable).located p.id node = true ↔ x.1 = node := by
  rw [Cib.located, List.any_eq_true]
  constructor
  · rintro ⟨constraint, hmem, hlocation⟩
    rw [cf2pe, cf2peWith_constraints, List.mem_append, List.mem_flatMap] at hmem
    cases constraint with
    | rscOrder => cases hlocation
    | rscLocation id rsc node' =>
        obtain ⟨rfl, rfl⟩ := of_decide_eq_true hlocation
        rcases hmem with ⟨y, hy, hmem⟩ | hmem
        · obtain ⟨rfl, q, hq, hid⟩ := serviceConstraints_location hmem
          rw [h.eq_of_id hx hy hp hq hid.symm]
        · simp [dependencyOrder] at hmem
  · rintro rfl
    obtain ⟨id, hmem⟩ := location_of_servicePrimitives hp
    refine ⟨.rscLocation id p.id x.1, ?_, by simp⟩
    rw [cf2pe, cf2peWith_constraints, List.mem_append, List.mem_flatMap]
    exact Or.inl ⟨x, hx, hmem⟩

theorem primitivesOn_eq {assembly : Xml} (hassembly : assembly ∈ deployable.assemblies) :
    (cf2pe deployable).primitivesOn (assembly.attrText "name") =
      assembly.services.flatMap
        (servicePrimitives initialValue (assembly.attrText "name")) := by
  have hfilter : (cf2pe deployable).primitivesOn (assembly.attrText "name") =
      (deployable.serviceNodes.filter fun x => x.1 = assembly.attrText "name").flatMap
        fun x => servicePrimitives initialValue x.1 x.2 := by
    rw [Cib.primitivesOn]
    nth_rewrite 2 [cf2pe]
    rw [cf2peWith_resources]
    refine filter_flatMap_of_forall fun x hx p hp => ?_
    rw [Bool.eq_iff_iff, h.located_iff hx hp]
    simp
  have hnodes : (deployable.serviceNodes.filter fun x => x.1 = assembly.attrText "name") =
      assembly.services.map (assembly.attrText "name", ·) := by
    rw [Xml.serviceNodes, filter_flatMap_of_forall
      (q := fun assembly' => assembly'.attrText "name" = assembly.attrText "name"),
      filter_key_eq h.assembly_names_nodup hassembly]
    · simp
    · intro assembly' _ x hx
      obtain ⟨service, -, rfl⟩ := List.mem_map.mp hx
      rfl
  rw [hfilter, hnodes, List.flatMap_map]

variable {assembly : Xml} {a : AssemblyNode}

theorem resources_perm (hassembly : assembly ∈ deployable.assemblies)
    (ha : assemblyCreate assembly = some a) :
    (((cf2pe deployable).primitivesOn a.name).map Primitive.key).Perm
      ((resourceMap a).map ResourceInfo.key) := by
  have hname := (assemblyCreate_eq ha).1
  have hperm : (((cf2pe deployable).primitivesOn a.name).map Primitive.key).Perm
      ((a.services.flatMap (resourceCreate a.name)).map ResourceInfo.key) := by
    rw [hname, h.primitivesOn_eq hassembly, List.map_flatMap, List.map_flatMap]
    refine perm_flatMap_of_forall₂ (h.forall₂_services hassembly ha)
      fun service hservice s hs => ?_
    have hnode : (assembly.attrText "name", service) ∈ deployable.serviceNodes :=
      mem_serviceNodes.mpr ⟨assembly, hassembly, rfl, hservice⟩
    obtain ⟨hsome, hfits⟩ := h.service_name _ hnode
    exact servicePrimitives_perm hs hsome (h.assembly_name assembly hassembly).2 hfits
      (h.service_provider _ hnode)
  -- no two resources have the same name, so the map keeps all of them
  have hnodup : ((a.services.flatMap (resourceCreate a.name)).map ResourceInfo.name).Nodup := by
    have hids : (((cf2pe deployable).primitivesOn a.name).map Primitive.id).Nodup :=
      h.resource_names_nodup.sublist (List.filter_sublist.map _)
    have hnames := hperm.map ResourceKey.id
    rw [List.map_map, List.map_map] at hnames
    exact hnames.nodup_iff.mp hids
  have hkept : resourceMap a = a.services.flatMap (resourceCreate a.name) :=
    foldl_mapPut_of_nodup hnodup
  rw [hkept]
  exact hperm

theorem cfg_iff {x : CString × Xml} (hx : x ∈ deployable.serviceNodes) :
    (∃ p ∈ (cf2pe deployable).resources,
      p.id = qualified "cfg_" x.1 (x.2.attrText "name")) ↔ x.2.configured = true := by
  rw [cf2pe, cf2peWith_resources]
  constructor
  · rintro ⟨p, hp, hid⟩
    obtain ⟨y, hy, hp⟩ := List.mem_flatMap.mp hp
    rcases mem_servicePrimitives.mp hp with rfl | ⟨hconfigured, rfl⟩
    · have hkind := ((qualified_eq_iff (by decide)).mp hid).1
      exact absurd hkind (by decide)
    · -- the same name under the other prefix is that of the same service
      have hrsc : (rscPrimitive initialValue x.1 x.2).id =
          (rscPrimitive initialValue y.1 y.2).id :=
        qualified_inj.mpr (qualified_inj.mp hid).symm
      rwa [h.eq_of_id hx hy (mem_servicePrimitives.mpr (Or.inl rfl))
        (mem_servicePrimitives.mpr (Or.inl rfl)) hrsc]
  · intro hconfigured
    have hmem : cfgPrimitive initialValue x.1 x.2 ∈ servicePrimitives initialValue x.1 x.2 :=
      mem_servicePrimitives.mpr (Or.inr ⟨hconfigured, rfl⟩)
    exact ⟨_, List.mem_flatMap.mpr ⟨x, hx, hmem⟩, rfl⟩

end Agreeable

/-! ## Agreement -/

structure ConfiguresAlike (cib : Cib) (a : AssemblyNode) (service : Xml) : Prop where
  primitive : (∃ p ∈ cib.resources,
    p.id = qualified "cfg_" a.name (service.attrText "name")) ↔ service.configured = true
  ordered : (∃ p ∈ cib.resources, p.id = qualified "cfg_" a.name (service.attrText "name") ∧
    cib.Ordered p.id (qualified "rsc_" a.name (service.attrText "name"))) ↔
      service.configured = true
  resource : (∃ r ∈ resourceMap a,
    r.name = qualified "cfg_" a.name (service.attrText "name")) ↔ service.configured = true

theorem Agreeable.configuresAlike {deployable assembly service : Xml} {a : AssemblyNode}
    (h : Agreeable deployable) (hassembly : assembly ∈ deployable.assemblies)
    (ha : assemblyCreate assembly = some a) (hservice : service ∈ assembly.services) :
    ConfiguresAlike (cf2pe deployable) a service := by
  have hname := (assemblyCreate_eq ha).1
  have hnode : (a.name, service) ∈ deployable.serviceNodes :=
    mem_serviceNodes.mpr ⟨assembly, hassembly, hname.symm, hservice⟩
  have hcfg := h.cfg_iff hnode
  refine ⟨hcfg, ⟨?_, ?_⟩, ?_⟩
  · rintro ⟨p, hp, hid, -⟩
    exact hcfg.mp ⟨p, hp, hid⟩
  · intro hconfigured
    obtain ⟨p, hp, hid⟩ := hcfg.mpr hconfigured
    refine ⟨p, hp, hid, qualified "depend_" a.name (service.attrText "name"), ?_⟩
    rw [hid, cf2pe, cf2peWith_constraints]
    refine List.mem_append_left _ (List.mem_flatMap.mpr ⟨_, hnode, ?_⟩)
    exact mem_serviceConstraints.mpr (Or.inr ⟨hconfigured, Or.inl rfl⟩)
  · have hperm := (h.resources_perm hassembly ha).map ResourceKey.id
    rw [List.map_map, List.map_map] at hperm
    constructor
    · rintro ⟨r, hr, hid⟩
      obtain ⟨p, hp, hkey⟩ := List.mem_map.mp (hperm.mem_iff.mpr (List.mem_map_of_mem hr))
      exact hcfg.mp ⟨p, List.mem_of_mem_filter hp, hkey.trans hid⟩
    · intro hconfigured
      have hmem : cfgPrimitive initialValue a.name service ∈
          (cf2pe deployable).primitivesOn a.name := by
        rw [hname, h.primitivesOn_eq hassembly]
        exact List.mem_flatMap.mpr
          ⟨service, hservice, mem_servicePrimitives.mpr (Or.inr ⟨hconfigured, rfl⟩)⟩
      obtain ⟨r, hr, hkey⟩ := List.mem_map.mp (hperm.mem_iff.mp (List.mem_map_of_mem hmem))
      exact ⟨r, hr, hkey⟩

/--
The document is loaded unless an identity is missing.  The nodes of the generated
configuration are then the assemblies of the daemon; the primitives located on a node are
the entries of the `resource_map` of its assembly; and a service is configured, before it
is started, on both sides or on neither.
-/
theorem readings_agree {deployable : Xml} (h : Agreeable deployable) :
    ((parseAndLoad deployable).isSome ↔
      (deployable.attr? "name").isSome ∧ (deployable.attr? "uuid").isSome ∧
        ∀ assembly ∈ deployable.assemblies, (assembly.attr? "uuid").isSome) ∧
    ∀ d, parseAndLoad deployable = some d →
      (cf2pe deployable).nodes = d.assemblies.map (fun a => ⟨a.uuid, a.name⟩) ∧
      ∀ assembly ∈ deployable.assemblies, ∃ a,
        d.assembly? (assembly.attrText "name") = some a ∧
        (((cf2pe deployable).primitivesOn a.name).map Primitive.key).Perm
          ((resourceMap a).map ResourceInfo.key) ∧
        ∀ service ∈ assembly.services, ConfiguresAlike (cf2pe deployable) a service := by
  refine ⟨h.parseAndLoad_isSome, fun d hload => ?_⟩
  have hall := h.forall₂_assemblies hload
  refine ⟨map_eq_of_forall₂ hall fun assembly _ a ha => ?_, fun assembly hassembly => ?_⟩
  · rw [(assemblyCreate_eq ha).1, (assemblyCreate_eq ha).2.1]
  · obtain ⟨a, hmem, ha⟩ := exists_of_forall₂ hall hassembly
    refine ⟨a, ?_, h.resources_perm hassembly ha,
      fun service hservice => h.configuresAlike hassembly ha hservice⟩
    rw [← (assemblyCreate_eq ha).1, Deployable.assembly?, ← List.head?_filter,
      filter_key_eq d.names_nodup hmem, List.head?_cons]

/-! The document of the reconfiguration test. -/

def blank : Xml := .text "\n  ".toList

def scalar (name : String) (child : Xml) : Xml :=
  .elem "parameter" [("name", name.toList), ("type", "scalar".toList)] [child]

def wordpress : Xml := .elem "value" [] [.text "wordpress".toList]

def victimReference (parameter : String) : Xml :=
  .elem "reference" [("assembly", "victim".toList), ("parameter", parameter.toList)] []

def lsbService (name type : String) (children : List Xml) : Xml :=
  .elem "service"
    [("name", name.toList), ("provider", "me".toList), ("class", "lsb".toList),
      ("type", type.toList), ("monitor_interval", "1".toList),
      ("escalation_period", "-1".toList), ("escalation_failures", "-1".toList)] children

def testAssembly (name uuid : String) (service : Xml) : Xml :=
  .elem "assembly"
    [("name", name.toList), ("uuid", uuid.toList), ("escalation_failures", "3".toList),
      ("escalation_period", "10".toList)]
    [blank, .elem "services" [] [blank, service, blank], blank]

def test1Conf : Xml :=
  .elem "deployable"
    [("name", "foo".toList), ("uuid", "123456".toList), ("monitor", "tester".toList),
      ("username", "me".toList)]
    [blank,
      .elem "assemblies" []
        [blank,
          testAssembly "bar" "7891011"
            (lsbService "angus" "httpd"
              [blank,
                .elem "configure_executable"
                  [("url", "http://random.com/bla/wordpress/wordpress-http.sh".toList)] [],
                .elem "parameters" []
                  [scalar "wp_name" wordpress, scalar "wp_user" wordpress,
                    scalar "wp_pw" wordpress, scalar "mysql_ip" (victimReference "ipaddress"),
                    scalar "mysql_hostname" (victimReference "hostname")]]),
          blank, testAssembly "victim" "7891411" (lsbService "andy" "mysql" [blank])],
      .elem "constraints" []
        [.elem "service_dependancy"
          [("id", "1".toList), ("first", "rsc_victim_andy".toList),
            ("then", "rsc_bar_angus".toList)] []]]

theorem test1Conf_agreeable : Agreeable test1Conf :=
  { root := by decide +kernel
    assembly_elements := by decide +kernel
    service_elements := by decide +kernel
    assembly_name := by decide +kernel
    service_name := by decide +kernel
    service_type := by decide +kernel
    service_provider := by decide +kernel
    assembly_names_nodup := by decide +kernel
    service_names_nodup := by decide +kernel
    resource_names_nodup := by decide +kernel }

/-- Of the two services only `angus` is configured. -/
theorem readings_agree_test1Conf :
    ∃ d, parseAndLoad test1Conf = some d ∧
      (cf2pe test1Conf).nodes = d.assemblies.map (fun a => ⟨a.uuid, a.name⟩) ∧
      ∃ a, d.assembly? "bar".toList = some a ∧
        ((cf2pe test1Conf).primitivesOn a.name).map Primitive.id =
          ["rsc_bar_angus".toList, "cfg_bar_angus".toList] ∧
        (((cf2pe test1Conf).primitivesOn a.name).map Primitive.key).Perm
          ((resourceMap a).map ResourceInfo.key) := by
  obtain ⟨hsome, hagree⟩ := readings_agree test1Conf_agreeable
  obtain ⟨d, hload⟩ := Option.isSome_iff_exists.mp (hsome.mpr (by decide +kernel))
  obtain ⟨hnodes, hassemblies⟩ := hagree d hload
  obtain ⟨assembly, hassembly, hname⟩ :
      ∃ assembly ∈ test1Conf.assemblies, assembly.attrText "name" = "bar".toList := by
    decide +kernel
  obtain ⟨a, ha, hperm, -⟩ := hassemblies assembly hassembly
  rw [hname] at ha
  have haname : a.name = "bar".toList := by simpa using List.find?_some ha
  refine ⟨d, hload, hnodes, a, ha, ?_, hperm⟩
  rw [haname]
  decide +kernel

end PacemakerCloud

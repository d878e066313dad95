import Mathlib.Data.List.Flatten
import Mathlib.Data.List.TakeWhile
import PacemakerCloud.Config.Agreement
import PacemakerCloud.Config.Pointers
import PacemakerCloud.Recover

/-!
# Parameters that refer to an assembly

A parameter may refer to the name or the address of an assembly, which is known only when
the assembly runs.  While it loads a document the daemon remembers for every resource the
nodes of such parameters in the generated configuration; when an assembly starts to run it
sets their values.
-/

namespace PacemakerCloud

open Foundation

/-! ## Loading -/

structure ReferenceParam where
  name : Option CString
  assembly : Option CString
  parameter : Option CString
  xmlnode : List Nat

def Foundation.Xml.references (params : Xml) : List (Xml × Xml) :=
  (params.childrenNamed "parameter").flatMap fun parameter =>
    (parameter.childrenNamed "reference").map (parameter, ·)

/-- `qb_map_put`; a null key cannot be compared with another key. -/
def refParamsPut (map : List ReferenceParam) (p : ReferenceParam) :
    Option (List ReferenceParam) :=
  match p.name with
  | none => if map.isEmpty then some [p] else none
  | some _ =>
      if map.any (·.name.isNone) then none else some (mapPut ReferenceParam.name map p)

/-- One reference; the search must succeed. -/
def addRefParam (pe : Xml) (rname : CString) (map : List ReferenceParam)
    (x : Xml × Xml) : Option (List ReferenceParam) := do
  let name := x.1.attr? "name"
  let xmlnode ← findPeParameter pe rname name
  refParamsPut map ⟨name, x.2.attr? "assembly", x.2.attr? "parameter", xmlnode⟩

def resourceAddRefParams (pe : Xml) (paramsNode : Option Xml) (rname : CString) :
    Option (List ReferenceParam) :=
  match paramsNode with
  | none => some []
  | some params => params.references.foldlM (addRefParam pe rname) []

structure ResourceRefs where
  name : CString
  refParams : List ReferenceParam

def configureResourceRefs (pe : Xml) (paramsNode : Option Xml) (assembly name : CString) :
    Option ResourceRefs := do
  let rname := resourceName "cfg_".toList assembly name
  return ⟨rname, ← resourceAddRefParams pe paramsNode rname⟩

def resourceRefs (pe : Xml) (assembly : CString) (node : Xml) :
    Option (List ResourceRefs) := do
  let paramsNode := node.elements.find? (·.named "parameters")
  let name := (node.attr? "name").getD "(null)".toList
  let cfg ←
    if node.elements.any (·.named "configure_executable") then
      (configureResourceRefs pe paramsNode assembly name).map ([·])
    else some []
  let rname := resourceName "rsc_".toList assembly name
  let rclass ← node.attr? "class"
  let refParams ←
    if rclass = "ocf".toList then resourceAddRefParams pe paramsNode rname else some []
  return cfg ++ [⟨rname, refParams⟩]

structure AssemblyRefs where
  name : CString
  resources : List ResourceRefs

def assemblyRefs (pe node : Xml) : Option AssemblyRefs := do
  let name ← node.attr? "name"
  let resources ←
    ((node.childrenNamed "services").flatMap Xml.elements).mapM (resourceRefs pe name)
  return ⟨name, resources.flatten.foldl (mapPut ResourceRefs.name) []⟩

/-- `parse_and_load`, for the references; it fails where an assertion does. -/
def loadRefs (deployable : Xml) : Option (List AssemblyRefs) := do
  let nodes ← ((deployable.childrenNamed "assemblies").flatMap Xml.elements).mapM
    (assemblyRefs (cf2pe deployable).toXml)
  return nodes.foldl (mapPut AssemblyRefs.name) []

/-! ## Changes of the state of an assembly -/

structure NodeChange where
  name : CString
  next : RecoverState
  address : Option CString

/-- The value of a parameter of the assembly; a missing address clears the value. -/
def NodeChange.value (changed : NodeChange) (parameter : CString) : CString :=
  if parameter = "hostname".toList then changed.name else changed.address.getD []

/-- One pass of the innermost loop; a missing name cannot be compared. -/
def refParamUpdate (changed : NodeChange) (pe : Xml) (p : ReferenceParam) : Option Xml := do
  let assembly ← p.assembly
  if assembly = changed.name then
    let parameter ← p.parameter
    return pe.setProp "value" (changed.value parameter) p.xmlnode
  else
    return pe

/-- The entries of a map up to a null key, which ends the loop. -/
def ResourceRefs.iterated (r : ResourceRefs) : List ReferenceParam :=
  r.refParams.takeWhile (·.name.isSome)

def nodeUpdateAddrInfo (map : List AssemblyRefs) (changed : NodeChange) (pe : Xml) :
    Option Xml :=
  map.foldlM (fun pe a =>
    a.resources.foldlM (fun pe r => r.iterated.foldlM (refParamUpdate changed) pe) pe) pe

/-- `node_state_change_event`, for the configuration. -/
def nodeStateChangeEvent (map : List AssemblyRefs) (pe : Xml) (changed : NodeChange) :
    Option Xml :=
  if changed.next = .running then nodeUpdateAddrInfo map changed pe else some pe

/-! ## What the values should be -/

def lastRun (changes : List NodeChange) (assembly : CString) : Option NodeChange :=
  (changes.filter fun changed => changed.next = .running ∧ changed.name = assembly).getLast?

def referredValue (changes : List NodeChange) (reference : Xml) : Option CString :=
  (lastRun changes (reference.attrText "assembly")).map
    (·.value (reference.attrText "parameter"))

def currentValue (changes : List NodeChange) (parameter : Xml) : CString :=
  ((parameter.childrenNamed "reference").head?.bind (referredValue changes)).getD
    (initialValue parameter)

structure OneReference (deployable : Xml) : Prop extends Agreeable deployable where
  parameters_once : ∀ x ∈ deployable.serviceNodes,
    (x.2.childrenNamed "parameters").length ≤ 1
  parameter_names_nodup : ∀ x ∈ deployable.serviceNodes, x.2.parameterNames.Nodup
  not_executable_url : ∀ x ∈ deployable.serviceNodes,
    "executable_url".toList ∉ x.2.parameterNames
  references_once : ∀ x ∈ deployable.serviceNodes, ∀ parameter ∈ x.2.parameters,
    (parameter.childrenNamed "reference").length ≤ 1

structure Referenceable (deployable : Xml) : Prop extends OneReference deployable where
  references_complete : ∀ x ∈ deployable.serviceNodes, ∀ parameter ∈ x.2.parameters,
    ∀ reference ∈ parameter.childrenNamed "reference", (parameter.attr? "name").isSome ∧
      (reference.attr? "assembly").isSome ∧ (reference.attr? "parameter").isSome

/-! ## Targets -/

def serviceReferences (service : Xml) : List (Xml × Xml) :=
  service.parameters.flatMap fun parameter =>
    (parameter.childrenNamed "reference").map (parameter, ·)

theorem mem_serviceReferences {service : Xml} {y : Xml × Xml} :
    y ∈ serviceReferences service ↔
      y.1 ∈ service.parameters ∧ y.2 ∈ y.1.childrenNamed "reference" := by
  obtain ⟨parameter, reference⟩ := y
  simp only [serviceReferences, List.mem_flatMap, List.mem_map, Prod.mk.injEq]
  constructor
  · rintro ⟨parameter', hmem, reference', href, rfl, rfl⟩
    exact ⟨hmem, href⟩
  · rintro ⟨hmem, href⟩
    exact ⟨parameter, hmem, reference, href, rfl, rfl⟩

def parameterHolders (x : CString × Xml) : List CString :=
  (if x.2.configured then [qualified "cfg_" x.1 (x.2.attrText "name")] else []) ++
    if x.2.isOcf then [qualified "rsc_" x.1 (x.2.attrText "name")] else []

theorem cfg_mem_holders {x : CString × Xml} (h : x.2.configured = true) :
    qualified "cfg_" x.1 (x.2.attrText "name") ∈ parameterHolders x := by
  rw [parameterHolders, if_pos h]
  exact List.mem_append_left _ (List.mem_singleton_self _)

theorem rsc_mem_holders {x : CString × Xml} (h : x.2.isOcf = true) :
    qualified "rsc_" x.1 (x.2.attrText "name") ∈ parameterHolders x := by
  rw [parameterHolders, if_pos h]
  exact List.mem_append_right _ (List.mem_singleton_self _)

theorem primitive_of_holder {x : CString × Xml} {rname : CString}
    (h : rname ∈ parameterHolders x) :
    ∃ p ∈ servicePrimitives initialValue x.1 x.2, p.id = rname := by
  simp only [parameterHolders, List.mem_append, List.mem_ite_nil_right, List.mem_singleton] at h
  rcases h with ⟨hconfigured, rfl⟩ | ⟨-, rfl⟩
  · exact ⟨_, mem_servicePrimitives.mpr (Or.inr ⟨hconfigured, rfl⟩), rfl⟩
  · exact ⟨_, mem_servicePrimitives.mpr (Or.inl rfl), rfl⟩

def refParam (pe : Xml) (rname : CString) (y : Xml × Xml) : ReferenceParam :=
  ⟨y.1.attr? "name", y.2.attr? "assembly", y.2.attr? "parameter",
    (findPeParameter pe rname (y.1.attr? "name")).getD []⟩

def serviceRefs (pe : Xml) (x : CString × Xml) : List ResourceRefs :=
  (if x.2.configured then
      [⟨qualified "cfg_" x.1 (x.2.attrText "name"), (serviceReferences x.2).map
        (refParam pe (qualified "cfg_" x.1 (x.2.attrText "name")))⟩]
    else []) ++
    [⟨qualified "rsc_" x.1 (x.2.attrText "name"),
      if x.2.isOcf then (serviceReferences x.2).map
        (refParam pe (qualified "rsc_" x.1 (x.2.attrText "name")))
      else []⟩]

abbrev Target := CString × Xml × Xml

def serviceTargets (x : CString × Xml) : List Target :=
  (parameterHolders x).flatMap fun rname => (serviceReferences x.2).map (rname, ·)

def Foundation.Xml.targets (deployable : Xml) : List Target :=
  deployable.serviceNodes.flatMap serviceTargets

theorem mem_targets {deployable : Xml} {t : Target} :
    t ∈ deployable.targets ↔ ∃ x ∈ deployable.serviceNodes, t.1 ∈ parameterHolders x ∧
      t.2.1 ∈ x.2.parameters ∧ t.2.2 ∈ t.2.1.childrenNamed "reference" := by
  obtain ⟨rname, y⟩ := t
  simp only [Xml.targets, serviceTargets, List.mem_flatMap, List.mem_map, Prod.mk.injEq,
    ← mem_serviceReferences]
  constructor
  · rintro ⟨x, hx, rname', hrname, y', hy, rfl, rfl⟩
    exact ⟨x, hx, hrname, hy⟩
  · rintro ⟨x, hx, hrname, hy⟩
    exact ⟨x, hx, rname, hrname, y, hy, rfl, rfl⟩

theorem serviceRefs_refParams (pe : Xml) (x : CString × Xml) :
    (serviceRefs pe x).flatMap ResourceRefs.refParams =
      (serviceTargets x).map fun t => refParam pe t.1 t.2 := by
  cases hconfigured : x.2.configured <;> cases hocf : x.2.isOcf <;>
    simp [serviceRefs, serviceTargets, parameterHolders, hconfigured, hocf, Function.comp_def]

theorem serviceRefs_names_perm (pe : Xml) (x : CString × Xml) :
    ((servicePrimitives initialValue x.1 x.2).map Primitive.id).Perm
      ((serviceRefs pe x).map ResourceRefs.name) := by
  cases hconfigured : x.2.configured with
  | false =>
      rw [servicePrimitives, serviceRefs, hconfigured]
      exact .refl _
  | true =>
      rw [servicePrimitives, serviceRefs, hconfigured]
      exact .swap _ _ _

theorem resourceAddRefParams_eq {pe service : Xml} {rname : CString}
    (honce : (service.childrenNamed "parameters").length ≤ 1) :
    resourceAddRefParams pe (service.elements.find? (·.named "parameters")) rname =
      (serviceReferences service).foldlM (addRefParam pe rname) [] := by
  have hfind : service.elements.find? (·.named "parameters") =
      (service.childrenNamed "parameters").head? := by
    rw [Xml.elements, Xml.childrenNamed, List.find?_filter, List.head?_filter]
    congr 1
    funext child
    cases hnamed : child.named "parameters" with
    | false => simp
    | true => simp [Xml.isElement_of_named hnamed]
  rw [hfind, serviceReferences, Xml.parameters, Xml.select_pair]
  cases hparams : service.childrenNamed "parameters" with
  | nil => rfl
  | cons params rest =>
      obtain rfl : rest = [] := by simpa [hparams] using honce
      simp [resourceAddRefParams, Xml.references]

namespace Referenceable

variable {deployable : Xml} (h : Referenceable deployable) {x : CString × Xml}
include h

theorem addressed : (cf2pe deployable).Addressed := by
  refine ⟨h.resource_names_nodup, fun p hp attributes ha => ?_⟩
  rw [cf2pe, cf2peWith_resources] at hp
  obtain ⟨x, hx, hp⟩ := List.mem_flatMap.mp hp
  have hnames : (x.2.parameters.map (paramNvPair initialValue)).map NvPair.name =
      x.2.parameterNames := by
    rw [List.map_map]
    rfl
  rcases mem_servicePrimitives.mp hp with rfl | ⟨-, rfl⟩
  · simp only [rscPrimitive] at ha
    split at ha
    · obtain rfl := Option.some.inj ha
      exact hnames ▸ h.parameter_names_nodup x hx
    · cases ha
  · obtain rfl := Option.some.inj ha
    rw [List.map_cons, hnames]
    exact List.nodup_cons.mpr ⟨h.not_executable_url x hx, h.parameter_names_nodup x hx⟩

theorem findPeParameter_eq (hx : x ∈ deployable.serviceNodes) {rname : CString}
    (hrname : rname ∈ parameterHolders x) {parameter : Xml}
    (hparameter : parameter ∈ x.2.parameters) :
    ∃ path, findPeParameter (cf2pe deployable).toXml rname (some (parameter.attrText "name")) =
        some path ∧
      ∀ f value, Xml.setProp "value" value path ((cf2pe deployable).assign f).toXml =
        ((cf2pe deployable).assign
          (f.override rname (parameter.attrText "name") value)).toXml := by
  have hresource : ∀ p ∈ servicePrimitives initialValue x.1 x.2,
      p ∈ (cf2pe deployable).resources := by
    intro p hp
    rw [cf2pe, cf2peWith_resources]
    exact List.mem_flatMap.mpr ⟨x, hx, hp⟩
  have hnv : paramNvPair initialValue parameter ∈
      x.2.parameters.map (paramNvPair initialValue) :=
    List.mem_map_of_mem hparameter
  simp only [parameterHolders, List.mem_append, List.mem_ite_nil_right, List.mem_singleton]
    at hrname
  rcases hrname with ⟨hconfigured, rfl⟩ | ⟨hocf, rfl⟩
  · exact findPeParameter_spec h.addressed
      (hresource _ (mem_servicePrimitives.mpr (Or.inr ⟨hconfigured, rfl⟩))) rfl rfl
      (List.mem_cons_of_mem _ hnv) rfl
  · have hattributes : (rscPrimitive initialValue x.1 x.2).attributes =
        some ⟨"attrs_".toList ++ x.2.attrText "name",
          x.2.parameters.map (paramNvPair initialValue)⟩ := by
      simp only [rscPrimitive, hocf, if_true]
    exact findPeParameter_spec h.addressed
      (hresource _ (mem_servicePrimitives.mpr (Or.inl rfl))) rfl hattributes hnv rfl

theorem names_nodup_serviceReferences (hx : x ∈ deployable.serviceNodes) :
    ((serviceReferences x.2).map fun y => y.1.attrText "name").Nodup := by
  refine (h.parameter_names_nodup x hx).sublist ?_
  rw [serviceReferences, List.map_flatMap, Xml.parameterNames, List.map_eq_flatMap]
  refine List.Sublist.flatMap_right _ fun parameter hparameter => ?_
  match hrefs : parameter.childrenNamed "reference",
      h.references_once x hx parameter hparameter with
  | [], _ => simp
  | [reference], _ => simp

theorem name_of_reference (hx : x ∈ deployable.serviceNodes) {y : Xml × Xml}
    (hy : y ∈ serviceReferences x.2) : y.1.attr? "name" = some (y.1.attrText "name") := by
  obtain ⟨hparameter, hreference⟩ := mem_serviceReferences.mp hy
  exact attrText_of_isSome (h.references_complete x hx y.1 hparameter y.2 hreference).1

theorem addRefParams_eq (hx : x ∈ deployable.serviceNodes) {rname : CString}
    (hrname : rname ∈ parameterHolders x) :
    resourceAddRefParams (cf2pe deployable).toXml
        (x.2.elements.find? (·.named "parameters")) rname =
      some ((serviceReferences x.2).map (refParam (cf2pe deployable).toXml rname)) := by
  have hnamed := fun y hy => h.name_of_reference hx (y := y) hy
  have hadd : ∀ map : List ReferenceParam, (∀ p ∈ map, p.name.isSome = true) →
      ∀ y ∈ serviceReferences x.2, addRefParam (cf2pe deployable).toXml rname map y =
        some (mapPut ReferenceParam.name map (refParam (cf2pe deployable).toXml rname y)) := by
    intro map hmap y hy
    obtain ⟨path, hfind, -⟩ :=
      h.findPeParameter_eq hx hrname (mem_serviceReferences.mp hy).1
    have hany : map.any (·.name.isNone) = false := by
      simpa [List.any_eq_false, Option.isSome_iff_ne_none] using hmap
    simp [addRefParam, refParam, refParamsPut, hnamed y hy, hfind, hany]
  rw [resourceAddRefParams_eq (h.parameters_once x hx)]
  refine foldlM_mapPut_of_nodup (P := fun p => p.name.isSome = true) (fun y hy => ?_) hadd ?_
  · simp [refParam, hnamed y hy]
  · have hkeys : (serviceReferences x.2).map
          (ReferenceParam.name ∘ refParam (cf2pe deployable).toXml rname) =
        ((serviceReferences x.2).map fun y => y.1.attrText "name").map some := by
      rw [List.map_map]
      exact List.map_congr_left hnamed
    rw [List.map_map, hkeys]
    exact (h.names_nodup_serviceReferences hx).map fun _ _ => Option.some.inj

theorem resourceRefs_eq (hx : x ∈ deployable.serviceNodes) :
    resourceRefs (cf2pe deployable).toXml x.1 x.2 =
      some (serviceRefs (cf2pe deployable).toXml x) := by
  have hname := attrText_of_isSome (h.service_name x hx).1
  have hclass := attrText_of_isSome (h.service_type x hx).2
  have hcfg := h.resourceName_eq hx (p := "cfg_") (by decide)
  have hrsc := h.resourceName_eq hx (p := "rsc_") (by decide)
  have hconfigured : x.2.elements.any (·.named "configure_executable") = x.2.configured :=
    any_elements_named x.2 _
  have hocf : (x.2.attrText "class" = "ocf".toList) = (x.2.isOcf = true) := by
    simp only [Xml.isOcf, decide_eq_true_eq]
  have hcfgRefs := fun hc => h.addRefParams_eq hx (cfg_mem_holders hc)
  have hrscRefs := fun ho => h.addRefParams_eq hx (rsc_mem_holders ho)
  simp only [resourceRefs, configureResourceRefs, hname, hclass, hconfigured, Option.getD_some,
    hcfg, hrsc, hocf, serviceRefs, Option.bind_eq_bind, Option.bind_some]
  cases hc : x.2.configured <;> cases ho : x.2.isOcf <;>
    simp only [hc, ho, if_true, Bool.false_eq_true, if_false, hcfgRefs, hrscRefs,
      Option.bind_some, Option.map_some, Option.pure_def]

theorem assemblyRefs_eq {assembly : Xml} (hassembly : assembly ∈ deployable.assemblies) :
    assemblyRefs (cf2pe deployable).toXml assembly =
      some ⟨assembly.attrText "name", assembly.services.flatMap fun service =>
        serviceRefs (cf2pe deployable).toXml (assembly.attrText "name", service)⟩ := by
  have hname := attrText_of_isSome (h.assembly_name assembly hassembly).1
  have hservices : assembly.services.mapM
        (resourceRefs (cf2pe deployable).toXml (assembly.attrText "name")) =
      some (assembly.services.map fun service =>
        serviceRefs (cf2pe deployable).toXml (assembly.attrText "name", service)) := by
    refine mapM_of_forall fun service hservice => ?_
    have hnode : (assembly.attrText "name", service) ∈ deployable.serviceNodes :=
      mem_serviceNodes.mpr ⟨assembly, hassembly, rfl, hservice⟩
    exact h.resourceRefs_eq hnode
  have hnames : ((assembly.services.flatMap fun service => serviceRefs (cf2pe deployable).toXml
      (assembly.attrText "name", service)).map ResourceRefs.name).Nodup := by
    have hids := h.resource_names_nodup
    rw [cf2pe, cf2peWith, List.map_flatMap] at hids
    have hblock := (List.nodup_flatMap.mp hids).1 assembly hassembly
    rw [List.map_flatMap] at hblock ⊢
    refine (List.Perm.nodup_iff (List.Perm.flatMap_left _ fun service _ => ?_)).mp hblock
    exact serviceRefs_names_perm _ (assembly.attrText "name", service)
  simp only [assemblyRefs, hname, h.services_eq hassembly, hservices, Option.bind_eq_bind,
    Option.bind_some, Option.pure_def, ← List.flatMap_def]
  rw [foldl_mapPut_of_nodup (by simpa using hnames), List.nil_append]

theorem loadRefs_eq :
    loadRefs deployable = some (deployable.assemblies.map fun assembly =>
      ⟨assembly.attrText "name", assembly.services.flatMap fun service =>
        serviceRefs (cf2pe deployable).toXml (assembly.attrText "name", service)⟩) := by
  simp only [loadRefs, h.assemblies_eq, mapM_of_forall fun _ => h.assemblyRefs_eq,
    Option.bind_eq_bind, Option.bind_some, Option.pure_def]
  rw [foldl_mapPut_of_nodup, List.nil_append]
  simpa [Function.comp_def] using h.assembly_names_nodup

theorem serviceRefs_iterated (hx : x ∈ deployable.serviceNodes) (pe : Xml) :
    (serviceRefs pe x).flatMap ResourceRefs.iterated =
      (serviceTargets x).map fun t => refParam pe t.1 t.2 := by
  have hall : ∀ p ∈ (serviceTargets x).map fun t => refParam pe t.1 t.2,
      p.name.isSome = true := by
    intro p hp
    obtain ⟨t, ht, rfl⟩ := List.mem_map.mp hp
    obtain ⟨rname, -, ht⟩ := List.mem_flatMap.mp ht
    obtain ⟨y, hy, rfl⟩ := List.mem_map.mp ht
    rw [refParam, h.name_of_reference hx hy]
    rfl
  rw [← serviceRefs_refParams] at hall ⊢
  refine List.flatMap_congr fun r hr => List.takeWhile_eq_self_iff.mpr fun p hp => ?_
  exact hall p (List.mem_flatMap.mpr ⟨r, hr, hp⟩)

theorem nodeUpdateAddrInfo_eq {map : List AssemblyRefs} (hload : loadRefs deployable = some map)
    (changed : NodeChange) (pe : Xml) :
    nodeUpdateAddrInfo map changed pe =
      (deployable.targets.map fun t => refParam (cf2pe deployable).toXml t.1 t.2).foldlM
        (refParamUpdate changed) pe := by
  have hmap := Option.some.inj (h.loadRefs_eq.symm.trans hload)
  have hservices : (deployable.targets.map fun t => refParam (cf2pe deployable).toXml t.1 t.2) =
      deployable.serviceNodes.flatMap fun x =>
        (serviceRefs (cf2pe deployable).toXml x).flatMap ResourceRefs.iterated := by
    rw [Xml.targets, List.map_flatMap]
    exact List.flatMap_congr fun x hx => (h.serviceRefs_iterated hx _).symm
  have hrefs : (deployable.targets.map fun t => refParam (cf2pe deployable).toXml t.1 t.2) =
      map.flatMap fun a => a.resources.flatMap ResourceRefs.iterated := by
    simp only [hservices, ← hmap, Xml.serviceNodes, List.flatMap_map, List.flatMap_assoc]
  rw [hrefs, foldlM_flatMap]
  simp only [foldlM_flatMap]
  rfl

end Referenceable

/-! ## One update -/

def Target.update (changed : NodeChange) (f : Assignment) (t : Target) : Assignment :=
  if t.2.2.attrText "assembly" = changed.name then
    f.override t.1 (t.2.1.attrText "name") (changed.value (t.2.2.attrText "parameter"))
  else f

namespace Target

variable {changed : NodeChange} {f : Assignment} {t : Target} {id name old : CString}

theorem update_self :
    t.update changed f t.1 (t.2.1.attrText "name") old =
      if t.2.2.attrText "assembly" = changed.name then
        changed.value (t.2.2.attrText "parameter")
      else f t.1 (t.2.1.attrText "name") old := by
  unfold update
  split
  · exact if_pos ⟨rfl, rfl⟩
  · rfl

theorem update_other (h : ¬ (t.1 = id ∧ t.2.1.attrText "name" = name)) :
    t.update changed f id name old = f id name old := by
  unfold update
  split
  · exact if_neg fun heq => h ⟨heq.1.symm, heq.2.symm⟩
  · rfl

theorem foldl_update_other {ts : List Target}
    (h : ∀ t ∈ ts, ¬ (t.1 = id ∧ t.2.1.attrText "name" = name)) :
    ts.foldl (update changed) f id name old = f id name old := by
  induction ts generalizing f with
  | nil => rfl
  | cons t ts ih =>
      rw [List.foldl_cons, ih fun t' ht' => h t' (.tail _ ht'), update_other (h t (.head _))]

theorem foldl_update_self {ts : List Target} (ht : t ∈ ts)
    (hunique : ∀ t' ∈ ts, t'.1 = t.1 ∧ t'.2.1.attrText "name" = t.2.1.attrText "name" → t' = t) :
    ts.foldl (update changed) f t.1 (t.2.1.attrText "name") old =
      if t.2.2.attrText "assembly" = changed.name then
        changed.value (t.2.2.attrText "parameter")
      else f t.1 (t.2.1.attrText "name") old := by
  induction ts generalizing f with
  | nil => cases ht
  | cons first ts ih =>
      rw [List.foldl_cons]
      by_cases hrest : t ∈ ts
      · rw [ih hrest fun t' ht' => hunique t' (.tail _ ht')]
        by_cases hsame : first = t
        · rw [hsame, update_self]
          split <;> rfl
        · rw [update_other (mt (hunique first (.head _)) hsame)]
      · obtain rfl := (List.mem_cons.mp ht).resolve_right hrest
        rw [foldl_update_other, update_self]
        exact fun t' ht' hkey => hrest (hunique t' (.tail _ ht') hkey ▸ ht')

end Target

/-! ## Runs -/

def assignmentOf (ts : List Target) (changes : List NodeChange) : Assignment :=
  changes.foldl
    (fun f changed =>
      if changed.next = .running then ts.foldl (Target.update changed) f else f)
    fun _ _ old => old

theorem lastRun_append (changes : List NodeChange) (changed : NodeChange) (assembly : CString) :
    lastRun (changes ++ [changed]) assembly =
      if changed.next = .running ∧ changed.name = assembly then some changed
      else lastRun changes assembly := by
  rw [lastRun, List.filter_append]
  split
  case isTrue heq => simp [heq]
  case isFalse hne =>
    rw [List.filter_cons_of_neg (by simpa using hne)]
    simp [lastRun]

theorem assignmentOf_append (ts : List Target) (changes : List NodeChange)
    (changed : NodeChange) :
    assignmentOf ts (changes ++ [changed]) =
      if changed.next = .running then
        ts.foldl (Target.update changed) (assignmentOf ts changes)
      else assignmentOf ts changes := by
  simp [assignmentOf]

theorem assignmentOf_other {ts : List Target} {changes : List NodeChange}
    {id name old : CString} (h : ∀ t ∈ ts, ¬ (t.1 = id ∧ t.2.1.attrText "name" = name)) :
    assignmentOf ts changes id name old = old := by
  induction changes using List.reverseRecOn with
  | nil => rfl
  | append_singleton changes changed ih =>
      rw [assignmentOf_append]
      split
      · rw [Target.foldl_update_other h, ih]
      · exact ih

theorem assignmentOf_self {ts : List Target} {changes : List NodeChange} {t : Target}
    {old : CString} (ht : t ∈ ts)
    (hunique : ∀ t' ∈ ts, t'.1 = t.1 ∧ t'.2.1.attrText "name" = t.2.1.attrText "name" → t' = t) :
    assignmentOf ts changes t.1 (t.2.1.attrText "name") old =
      (referredValue changes t.2.2).getD old := by
  induction changes using List.reverseRecOn with
  | nil => rfl
  | append_singleton changes changed ih =>
      rw [assignmentOf_append, referredValue, lastRun_append]
      by_cases hrunning : changed.next = .running
      · rw [if_pos hrunning, Target.foldl_update_self ht hunique, ih, referredValue]
        by_cases hname : t.2.2.attrText "assembly" = changed.name
        · simp [hrunning, hname]
        · simp [hname, Ne.symm hname]
      · simp only [hrunning, false_and, if_false]
        exact ih

namespace Referenceable

variable {deployable : Xml} (h : Referenceable deployable) {x : CString × Xml}
include h

theorem eq_of_holder {y : CString × Xml} (hx : x ∈ deployable.serviceNodes)
    (hy : y ∈ deployable.serviceNodes) {rname : CString} (hrname : rname ∈ parameterHolders x)
    (hrname' : rname ∈ parameterHolders y) : x = y := by
  obtain ⟨p, hp, rfl⟩ := primitive_of_holder hrname
  obtain ⟨q, hq, hid⟩ := primitive_of_holder hrname'
  exact h.eq_of_id hx hy hp hq hid.symm

theorem nodeUpdateAddrInfo_assign {map : List AssemblyRefs}
    (hload : loadRefs deployable = some map) (changed : NodeChange) (f : Assignment) :
    nodeUpdateAddrInfo map changed ((cf2pe deployable).assign f).toXml =
      some ((cf2pe deployable).assign
        (deployable.targets.foldl (Target.update changed) f)).toXml := by
  rw [h.nodeUpdateAddrInfo_eq hload]
  have hstep : ∀ t ∈ deployable.targets, ∀ f,
      refParamUpdate changed ((cf2pe deployable).assign f).toXml
          (refParam (cf2pe deployable).toXml t.1 t.2) =
        some ((cf2pe deployable).assign (t.update changed f)).toXml := by
    intro t ht f
    obtain ⟨x, hx, hholder, hparameter, hreference⟩ := mem_targets.mp ht
    obtain ⟨hparameterName, hassembly, hname⟩ :=
      h.references_complete x hx _ hparameter _ hreference
    obtain ⟨path, hfind, hset⟩ := h.findPeParameter_eq hx hholder hparameter
    simp only [refParamUpdate, refParam, attrText_of_isSome hparameterName,
      attrText_of_isSome hassembly, attrText_of_isSome hname, hfind, Option.getD_some,
      Option.bind_eq_bind, Option.bind_some, Option.pure_def, Target.update]
    split
    · rw [hset]
    · rfl
  clear hload
  generalize deployable.targets = ts at hstep
  induction ts generalizing f with
  | nil => rfl
  | cons t ts ih =>
      rw [List.map_cons, List.foldlM_cons, hstep t (.head _), List.foldl_cons]
      exact ih (t.update changed f) fun t' ht' => hstep t' (.tail _ ht')

theorem run_assign {map : List AssemblyRefs} (hload : loadRefs deployable = some map)
    (changes : List NodeChange) :
    changes.foldlM (nodeStateChangeEvent map) (cf2pe deployable).toXml =
      some ((cf2pe deployable).assign (assignmentOf deployable.targets changes)).toXml := by
  induction changes using List.reverseRecOn with
  | nil => exact congrArg some (congrArg Cib.toXml (Cib.assign_id _).symm)
  | append_singleton changes changed ih =>
      rw [List.foldlM_append, ih, assignmentOf_append]
      simp only [List.foldlM_cons, List.foldlM_nil, nodeStateChangeEvent, Option.bind_eq_bind,
        Option.bind_some, Option.pure_def]
      split
      · rw [h.nodeUpdateAddrInfo_assign hload changed]
        rfl
      · rfl

theorem eq_of_target {t t' : Target} (ht : t ∈ deployable.targets) (ht' : t' ∈ deployable.targets)
    (hkey : t'.1 = t.1 ∧ t'.2.1.attrText "name" = t.2.1.attrText "name") : t' = t := by
  obtain ⟨x, hx, hholder, hparameter, hreference⟩ := mem_targets.mp ht
  obtain ⟨x', hx', hholder', hparameter', hreference'⟩ := mem_targets.mp ht'
  obtain rfl := h.eq_of_holder hx' hx hholder' (hkey.1 ▸ hholder)
  obtain ⟨rname, parameter, reference⟩ := t
  obtain ⟨rname', parameter', reference'⟩ := t'
  obtain ⟨rfl, hname⟩ := hkey
  obtain rfl : parameter' = parameter :=
    List.inj_on_of_nodup_map (h.parameter_names_nodup x' hx) hparameter' hparameter hname
  have honce := h.references_once x' hx parameter' hparameter
  obtain rfl := Option.some.inj ((head?_of_length_le_one honce hreference').symm.trans
    (head?_of_length_le_one honce hreference))
  rfl

theorem assignmentOf_parameter (changes : List NodeChange) (hx : x ∈ deployable.serviceNodes)
    {rname : CString} (hrname : rname ∈ parameterHolders x) {parameter : Xml}
    (hparameter : parameter ∈ x.2.parameters) :
    assignmentOf deployable.targets changes rname (parameter.attrText "name")
        (initialValue parameter) = currentValue changes parameter := by
  cases hreferences : parameter.childrenNamed "reference" with
  | nil =>
      rw [assignmentOf_other, currentValue, hreferences]
      · rfl
      · rintro t ht ⟨hid, hname⟩
        obtain ⟨y, hy, hholder, hparameter', hreference⟩ := mem_targets.mp ht
        obtain rfl := h.eq_of_holder hx hy hrname (hid ▸ hholder)
        have hsame : t.2.1 = parameter := List.inj_on_of_nodup_map
          (h.parameter_names_nodup x hx) hparameter' hparameter hname
        rw [hsame, hreferences] at hreference
        cases hreference
  | cons reference rest =>
      have hmem : reference ∈ parameter.childrenNamed "reference" := by simp [hreferences]
      have ht : (rname, parameter, reference) ∈ deployable.targets :=
        mem_targets.mpr ⟨x, hx, hrname, hparameter, hmem⟩
      rw [assignmentOf_self ht fun t' ht' => h.eq_of_target ht ht', currentValue, hreferences]
      rfl

theorem assignmentOf_url (changes : List NodeChange) (hx : x ∈ deployable.serviceNodes)
    {rname : CString} (hrname : rname ∈ parameterHolders x) (old : CString) :
    assignmentOf deployable.targets changes rname "executable_url".toList old = old := by
  refine assignmentOf_other ?_
  rintro t ht ⟨hid, hname⟩
  obtain ⟨y, hy, hholder, hparameter, -⟩ := mem_targets.mp ht
  obtain rfl := h.eq_of_holder hx hy hrname (hid ▸ hholder)
  exact h.not_executable_url x hx (hname ▸ List.mem_map_of_mem hparameter)

theorem servicePrimitives_assign (changes : List NodeChange)
    (hx : x ∈ deployable.serviceNodes) :
    (servicePrimitives initialValue x.1 x.2).map
        (Primitive.assign (assignmentOf deployable.targets changes)) =
      servicePrimitives (currentValue changes) x.1 x.2 := by
  have hpairs : ∀ rname ∈ parameterHolders x,
      (x.2.parameters.map (paramNvPair initialValue)).map
          (NvPair.assign (assignmentOf deployable.targets changes) rname) =
        x.2.parameters.map (paramNvPair (currentValue changes)) := by
    intro rname hrname
    rw [List.map_map]
    refine List.map_congr_left fun parameter hparameter => ?_
    exact congrArg (NvPair.mk _ _) (h.assignmentOf_parameter changes hx hrname hparameter)
  have hrsc : (rscPrimitive initialValue x.1 x.2).assign
        (assignmentOf deployable.targets changes) =
      rscPrimitive (currentValue changes) x.1 x.2 := by
    cases hocf : x.2.isOcf with
    | false => simp [Primitive.assign, rscPrimitive, hocf]
    | true =>
        simp only [Primitive.assign, rscPrimitive, hocf, if_true, Option.map_some,
          hpairs _ (rsc_mem_holders hocf)]
  cases hconfigured : x.2.configured with
  | false => simp [servicePrimitives, hconfigured, hrsc]
  | true =>
      have hholder := cfg_mem_holders hconfigured
      have hcfg : (cfgPrimitive initialValue x.1 x.2).assign
            (assignmentOf deployable.targets changes) =
          cfgPrimitive (currentValue changes) x.1 x.2 := by
        simp only [Primitive.assign, cfgPrimitive, Option.map_some, List.map_cons,
          hpairs _ hholder, NvPair.assign, h.assignmentOf_url changes hx hholder]
      simp [servicePrimitives, hconfigured, hrsc, hcfg]

theorem cf2pe_assign (changes : List NodeChange) :
    (cf2pe deployable).assign (assignmentOf deployable.targets changes) =
      cf2peWith (currentValue changes) deployable := by
  have hresources : (cf2pe deployable).resources.map
        (Primitive.assign (assignmentOf deployable.targets changes)) =
      (cf2peWith (currentValue changes) deployable).resources := by
    rw [cf2pe, cf2peWith_resources, cf2peWith_resources, List.map_flatMap]
    exact List.flatMap_congr fun x hx => h.servicePrimitives_assign changes hx
  rw [Cib.assign, hresources]
  rfl

end Referenceable

/-- The one reference of a configured service names an assembly and no parameter of it. -/
def incompleteConf : Xml :=
  .elem "deployable" [("name", "foo".toList)]
    [.elem "assemblies" []
      [testAssembly "bar" "7891011"
          (lsbService "angus" "httpd"
            [.elem "configure_executable" [("url", "http://random.com/bla".toList)] [],
              .elem "parameters" []
                [scalar "mysql_ip" (.elem "reference" [("assembly", "victim".toList)] [])]]),
        testAssembly "victim" "7891411" (lsbService "andy" "mysql" [blank])]]

end PacemakerCloud

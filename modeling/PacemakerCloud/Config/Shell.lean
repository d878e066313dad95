import PacemakerCloud.Config.Agreement

/-!
# The document that the shell writes

`pcloudsh` keeps assemblies and their resources in a database of XML files.  To start a
deployable it loads its resources and writes the document that `cf2pe.xsl` and the daemon
read.  The blanks that indent the file are left out, as no reader selects them.
-/

namespace PacemakerCloud

open Foundation

/-! ## Loading a resource -/

/--
A node of a file and all nodes after it in document order, that is a suffix of its
`preorder`.  A loop over a node visits these: the iterator of the XML library goes down
first, and up from the last child.
-/
abbrev Position := List Xml

/-- The attribute `children`: the position after the node, where there are children. -/
def childrenOf : Position → Option Position
  | [] => none
  | node :: rest => if node.children.isEmpty then none else some rest

abbrev Params := List (Option CString × Option CString)

def loadParameters (params : Params) (nodes : Position) : Params :=
  nodes.foldl
    (fun params p =>
      if p.named "parameter" then mapPut Prod.fst params (p.attr? "name", p.attr? "value")
      else params)
    params

/-- The outer loop of `load_from_xml`; a loop over no children raises an exception. -/
def loadParams (params : Params) : Position → Option Params
  | [] => some params
  | ps :: rest =>
      if ps.named "parameters" then
        match childrenOf (ps :: rest) with
        | none => none
        | some nodes => loadParams (loadParameters params nodes) rest
      else loadParams params rest

structure ShellResource where
  name : Option CString
  monitorInterval : Option CString
  type : Option CString
  klass : Option CString
  provider : Option CString
  escalationFailures : CString
  escalationPeriod : CString
  params : Params

def loadFromXml : Position → Option ShellResource
  | [] => none
  | xml :: rest => do
      let params ←
        match childrenOf (xml :: rest) with
        | none => some []
        | some nodes => loadParams [] nodes
      return {
        name := xml.attr? "name"
        monitorInterval := xml.attr? "monitor_interval"
        type := xml.attr? "type"
        klass := xml.attr? "class"
        provider := xml.attr? "provider"
        escalationFailures := (xml.attr? "escalation_failures").getD "INFINITY".toList
        escalationPeriod := (xml.attr? "escalation_period").getD "INFINITY".toList
        params := params }

/-! ## Writing the document -/

/-- `Assembly`, with the positions of the resources that its factory found. -/
structure ShellAssembly where
  name : Option CString
  uuid : Option CString
  escalationFailures : Option CString
  escalationPeriod : Option CString
  resources : List Position

structure ShellDeployable where
  name : Option CString
  monitor : Option CString
  username : Option CString
  assemblies : List ShellAssembly

def prop (name : String) (value : Option CString) : String × CString := (name, value.getD [])

def paramElement (param : Option CString × Option CString) : Xml :=
  .elem "paramater" [prop "name" param.1, prop "value" param.2] []

def serviceElement (r : ShellResource) : Xml :=
  .elem "service"
    [prop "name" r.name, prop "provider" r.provider, prop "class" r.klass, prop "type" r.type,
      prop "monitor_interval" r.monitorInterval,
      ("escalation_period", r.escalationPeriod), ("escalation_failures", r.escalationFailures)]
    (if r.params.isEmpty then []
      else [.elem "paramaters" [] (r.params.map paramElement)])

def assemblyElement (a : ShellAssembly) (resources : List ShellResource) : Xml :=
  .elem "assembly"
    [prop "name" a.name, prop "uuid" a.uuid, prop "escalation_failures" a.escalationFailures,
      prop "escalation_period" a.escalationPeriod]
    [.elem "services" [] (resources.map serviceElement)]

def ShellDeployable.load (d : ShellDeployable) :
    Option (List (ShellAssembly × List ShellResource)) :=
  d.assemblies.mapM fun a => (a.resources.mapM loadFromXml).map (a, ·)

def ShellDeployable.document (d : ShellDeployable)
    (loaded : List (ShellAssembly × List ShellResource)) : Xml :=
  .elem "deployable"
    [prop "name" d.name, prop "uuid" d.name, prop "monitor" d.monitor,
      prop "username" d.username]
    [.elem "assemblies" [] (loaded.map fun x => assemblyElement x.1 x.2),
      .elem "constraints" [] []]

def generateConfig (d : ShellDeployable) : Option Xml := d.load.map d.document

/-! ## What reaches the policy engine -/

def Params.entries (params : Params) : List (CString × CString) :=
  params.map fun param => (param.1.getD [], param.2.getD [])

structure Survives (cib : Cib) (assembly : CString) (r : ShellResource) : Prop where
  primitive : ∃ p ∈ cib.resources, p.id = qualified "rsc_" assembly (r.name.getD []) ∧
    p.attributes.isSome
  nvpairs : ∀ p ∈ cib.resources, p.id = qualified "rsc_" assembly (r.name.getD []) →
    ∀ attributes, p.attributes = some attributes →
      (attributes.nvpairs.map fun nv => (nv.name, nv.value)).Perm r.params.entries

theorem childrenNamed_map {α : Type*} {tag name : String} {attrs : List (String × CString)}
    {l : List α} {F : α → Xml} (h : ∀ y, (F y).named name = true) :
    (Xml.elem tag attrs (l.map F)).childrenNamed name = l.map F := by
  refine List.filter_eq_self.mpr fun child hchild => ?_
  obtain ⟨y, -, rfl⟩ := List.mem_map.mp hchild
  exact h y

theorem assemblies_document (d : ShellDeployable)
    (loaded : List (ShellAssembly × List ShellResource)) :
    (d.document loaded).assemblies = loaded.map fun x => assemblyElement x.1 x.2 := by
  have hassemblies : (d.document loaded).childrenNamed "assemblies" =
      [.elem "assemblies" [] (loaded.map fun x => assemblyElement x.1 x.2)] := rfl
  rw [Xml.assemblies, Xml.select_pair, hassemblies, List.flatMap_singleton]
  exact childrenNamed_map fun _ => rfl

theorem services_assemblyElement (a : ShellAssembly) (resources : List ShellResource) :
    (assemblyElement a resources).services = resources.map serviceElement := by
  have hservices : (assemblyElement a resources).childrenNamed "services" =
      [.elem "services" [] (resources.map serviceElement)] := rfl
  rw [Xml.services, Xml.select_pair, hservices, List.flatMap_singleton]
  exact childrenNamed_map fun _ => rfl

theorem mem_serviceNodes_document {d : ShellDeployable}
    {loaded : List (ShellAssembly × List ShellResource)} {y : CString × Xml} :
    y ∈ (d.document loaded).serviceNodes ↔
      ∃ x ∈ loaded, ∃ r ∈ x.2, y = (x.1.name.getD [], serviceElement r) := by
  rw [Xml.serviceNodes, assemblies_document, List.flatMap_map]
  simp only [services_assemblyElement, List.mem_flatMap, List.mem_map]
  constructor
  · rintro ⟨x, hx, _, ⟨r, hr, rfl⟩, rfl⟩
    exact ⟨x, hx, r, hr, rfl⟩
  · rintro ⟨x, hx, r, hr, rfl⟩
    exact ⟨x, hx, _, ⟨r, hr, rfl⟩, rfl⟩

theorem parameters_serviceElement (r : ShellResource) : (serviceElement r).parameters = [] := by
  have hnone : (serviceElement r).childrenNamed "parameters" = [] := by
    rw [serviceElement]
    split <;> rfl
  rw [Xml.parameters, Xml.select_pair, hnone]
  rfl

theorem configured_serviceElement (r : ShellResource) :
    (serviceElement r).configured = false := by
  have hnone : (serviceElement r).childrenNamed "configure_executable" = [] := by
    rw [serviceElement]
    split <;> rfl
  rw [Xml.configured, hnone]
  rfl

theorem servicePrimitives_serviceElement (assembly : CString) (r : ShellResource) :
    servicePrimitives initialValue assembly (serviceElement r) =
      [rscPrimitive initialValue assembly (serviceElement r)] := by
  rw [servicePrimitives, configured_serviceElement]
  rfl

theorem nvpairs_document {d : ShellDeployable}
    {loaded : List (ShellAssembly × List ShellResource)} {p : Primitive}
    (hp : p ∈ (cf2pe (d.document loaded)).resources) {attributes : InstanceAttributes}
    (ha : p.attributes = some attributes) : attributes.nvpairs = [] := by
  rw [cf2pe, cf2peWith_resources] at hp
  obtain ⟨y, hy, hp⟩ := List.mem_flatMap.mp hp
  obtain ⟨x, hx, r, hr, rfl⟩ := mem_serviceNodes_document.mp hy
  rw [servicePrimitives_serviceElement] at hp
  obtain rfl := List.mem_singleton.mp hp
  simp only [rscPrimitive, parameters_serviceElement] at ha
  split at ha
  · obtain rfl := Option.some.inj ha
    rfl
  · cases ha

theorem survives_iff {d : ShellDeployable} {loaded : List (ShellAssembly × List ShellResource)}
    {x : ShellAssembly × List ShellResource} (hx : x ∈ loaded) {r : ShellResource}
    (hr : r ∈ x.2) (hocf : r.klass = some "ocf".toList) :
    Survives (cf2pe (d.document loaded)) (x.1.name.getD []) r ↔ r.params = [] := by
  constructor
  · intro h
    obtain ⟨p, hp, hid, hsome⟩ := h.primitive
    obtain ⟨attributes, ha⟩ := Option.isSome_iff_exists.mp hsome
    have hperm := h.nvpairs p hp hid attributes ha
    rw [nvpairs_document hp ha] at hperm
    exact List.map_eq_nil_iff.mp hperm.nil_eq.symm
  · intro hnone
    constructor
    · refine ⟨rscPrimitive initialValue (x.1.name.getD []) (serviceElement r), ?_, ?_, ?_⟩
      · rw [cf2pe, cf2peWith_resources]
        refine List.mem_flatMap.mpr ⟨_, mem_serviceNodes_document.mpr ⟨x, hx, r, hr, rfl⟩, ?_⟩
        exact mem_servicePrimitives.mpr (Or.inl rfl)
      · rfl
      · have hisOcf : (serviceElement r).isOcf = true := by
          have hclass : (serviceElement r).attrText "class" = r.klass.getD [] := rfl
          rw [Xml.isOcf, hclass, hocf]
          exact decide_eq_true rfl
        rw [rscPrimitive, hisOcf]
        rfl
    · intro p hp _ attributes ha
      rw [nvpairs_document hp ha, hnone]
      exact .refl _

/--
Parameters survive exactly if no resource of the class `ocf` has any: the shell writes them
in elements, and with an attribute, that the stylesheet does not read.
-/
theorem parameters_survive_iff {d : ShellDeployable}
    {loaded : List (ShellAssembly × List ShellResource)} (h : d.load = some loaded) :
    (∃ document, generateConfig d = some document ∧ ∀ x ∈ loaded, ∀ r ∈ x.2,
        r.klass = some "ocf".toList →
          Survives (cf2pe document) (x.1.name.getD []) r) ↔
      ∀ x ∈ loaded, ∀ r ∈ x.2, r.klass = some "ocf".toList → r.params = [] := by
  have hdocument : generateConfig d = some (d.document loaded) := by
    rw [generateConfig, h]
    rfl
  constructor
  · rintro ⟨document, hgenerate, hsurvive⟩ x hx r hr hocf
    obtain rfl := Option.some.inj (hdocument.symm.trans hgenerate)
    exact (survives_iff hx hr hocf).mp (hsurvive x hx r hr hocf)
  · intro hnone
    refine ⟨_, hdocument, fun x hx r hr hocf => ?_⟩
    exact (survives_iff hx hr hocf).mpr (hnone x hx r hr hocf)

def shellSample (resource : Xml) : ShellDeployable :=
  { name := some "foo".toList
    monitor := some "active".toList
    username := some "root".toList
    assemblies :=
      [{ name := some "web".toList
         uuid := some "7891011".toList
         escalationFailures := some "INFINITY".toList
         escalationPeriod := some "INFINITY".toList
         resources := [resource.preorder] }] }

def ocfResource (children : List Xml) : Xml :=
  .elem "resource"
    [("name", "vip".toList), ("class", "ocf".toList), ("type", "IPaddr2".toList),
      ("provider", "heartbeat".toList), ("monitor_interval", "10s".toList)] children

theorem parameters_survive_iff_bare :
    ∃ loaded document, (shellSample (ocfResource [])).load = some loaded ∧
      generateConfig (shellSample (ocfResource [])) = some document ∧
      ∀ x ∈ loaded, ∀ r ∈ x.2, r.klass = some "ocf".toList →
        Survives (cf2pe document) (x.1.name.getD []) r := by
  obtain ⟨loaded, hload, hnone⟩ : ∃ loaded,
      (shellSample (ocfResource [])).load = some loaded ∧
        ∀ x ∈ loaded, ∀ r ∈ x.2, r.params = [] :=
    ⟨_, rfl, by decide⟩
  obtain ⟨document, hgenerate, hsurvive⟩ :=
    (parameters_survive_iff hload).mpr fun x hx r hr _ => hnone x hx r hr
  exact ⟨loaded, document, hload, hgenerate, hsurvive⟩

def addressResource : Xml :=
  ocfResource
    [.elem "parameters" []
      [.elem "parameter" [("name", "ip".toList), ("value", "10.0.0.1".toList)] []]]

/-- The address is lost. -/
theorem parameters_lost :
    ∃ loaded document, (shellSample addressResource).load = some loaded ∧
      generateConfig (shellSample addressResource) = some document ∧
      ∃ x ∈ loaded, ∃ r ∈ x.2, r.klass = some "ocf".toList ∧
        r.params = [(some "ip".toList, some "10.0.0.1".toList)] ∧
        ¬ Survives (cf2pe document) (x.1.name.getD []) r := by
  obtain ⟨loaded, hload, x, hx, r, hr, hocf, hparams⟩ : ∃ loaded,
      (shellSample addressResource).load = some loaded ∧ ∃ x ∈ loaded, ∃ r ∈ x.2,
        r.klass = some "ocf".toList ∧
          r.params = [(some "ip".toList, some "10.0.0.1".toList)] :=
    ⟨_, rfl, _, List.mem_singleton_self _, _, List.mem_singleton_self _, rfl, rfl⟩
  refine ⟨loaded, _, hload, congrArg (Option.map _) hload, x, hx, r, hr, hocf, hparams, ?_⟩
  intro h
  have hnone := (survives_iff hx hr hocf).mp h
  rw [hparams] at hnone
  cases hnone

end PacemakerCloud

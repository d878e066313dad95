import PacemakerCloud.Config.Shell
import PacemakerCloud.Daemon.Completion

/-!
# A deployable from the shell to the daemon

The shell writes a document from its database, the stylesheet makes a configuration for the
policy engine of it, and the daemon its maps and its recovery records.  Where the names fit
the daemon's buffers and the ids are distinct, both have exactly the resources that the shell
has loaded.
-/

namespace PacemakerCloud

open Foundation

/-! ## What the shell says -/

def ShellAssembly.text (a : ShellAssembly) : CString := a.name.getD []

def ShellResource.text (r : ShellResource) : CString := r.name.getD []

def ShellResource.isOcf (r : ShellResource) : Bool := r.klass.getD [] = "ocf".toList

def ShellResource.service (r : ShellResource) : Service where
  name := r.text
  type := r.type.getD []
  rclass := r.klass.getD []
  rprovider := some (r.provider.getD [])
  escalationFailures := some r.escalationFailures
  escalationPeriod := some r.escalationPeriod
  configureExecutable := false

def shellNode (x : ShellAssembly × List ShellResource) : AssemblyNode where
  name := x.1.text
  uuid := x.1.uuid.getD []
  escalationFailures := some (x.1.escalationFailures.getD [])
  escalationPeriod := some (x.1.escalationPeriod.getD [])
  services := x.2.map ShellResource.service

def ShellResource.info (assembly : CString) (r : ShellResource) : ResourceInfo where
  name := qualified "rsc_" assembly r.text
  type := r.type.getD []
  rclass := r.klass.getD []
  rprovider := some (r.provider.getD [])
  escalationFailures := some r.escalationFailures
  escalationPeriod := some r.escalationPeriod

def ShellResource.primitive (assembly : CString) (r : ShellResource) : Primitive where
  id := qualified "rsc_" assembly r.text
  rclass := r.klass.getD []
  type := r.type.getD []
  provider := if r.isOcf then some (r.provider.getD []) else none
  attributes := if r.isOcf then some ⟨"attrs_".toList ++ r.text, []⟩ else none
  operation := some
    { id := qualified "monitor_" assembly r.text
      interval := r.monitorInterval.getD [] }

structure Fits (loaded : List (ShellAssembly × List ShellResource)) : Prop where
  assembly_name : ∀ x ∈ loaded, x.1.text.length ≤ assemblyNameMax
  resource_name : ∀ x ∈ loaded, ∀ r ∈ x.2, r.text.length ≤ resourceNameMax
  names_nodup : (loaded.map fun x => x.1.text).Nodup
  ids_nodup : (loaded.flatMap fun x => x.2.map fun r => qualified "rsc_" x.1.text r.text).Nodup

/-! ## The document -/

theorem readService_serviceElement (r : ShellResource) :
    readService (serviceElement r) = some r.service := by
  have hconfigured : (serviceElement r).elements.any (·.named "configure_executable") = false := by
    rw [any_elements_named]
    exact configured_serviceElement r
  rw [readService, hconfigured]
  rfl

theorem rscPrimitive_serviceElement (assembly : CString) (r : ShellResource) :
    rscPrimitive initialValue assembly (serviceElement r) = r.primitive assembly := by
  rw [rscPrimitive, parameters_serviceElement]
  rfl

theorem elements_map {α : Type*} {tag : String} {attrs : List (String × CString)} {l : List α}
    {F : α → Xml} (h : ∀ y, (F y).isElement = true) :
    (Xml.elem tag attrs (l.map F)).elements = l.map F := by
  refine List.filter_eq_self.mpr fun child hchild => ?_
  obtain ⟨y, -, rfl⟩ := List.mem_map.mp hchild
  exact h y

theorem serviceElements_assemblyElement (a : ShellAssembly) (resources : List ShellResource) :
    ((assemblyElement a resources).childrenNamed "services").flatMap Xml.elements =
      resources.map serviceElement := by
  have hservices : (assemblyElement a resources).childrenNamed "services" =
      [.elem "services" [] (resources.map serviceElement)] := rfl
  rw [hservices, List.flatMap_singleton]
  exact elements_map fun _ => rfl

theorem assemblyCreate_assemblyElement (a : ShellAssembly) (resources : List ShellResource) :
    assemblyCreate (assemblyElement a resources) = some (shellNode (a, resources)) := by
  have hread : (resources.map serviceElement).mapM readService =
      some (resources.map ShellResource.service) := by
    rw [List.mapM_map]
    exact mapM_of_forall fun r _ => readService_serviceElement r
  rw [assemblyCreate, serviceElements_assemblyElement, hread]
  rfl

theorem flatMap_services (x : ShellAssembly × List ShellResource) :
    (assemblyElement x.1 x.2).services.flatMap (servicePrimitives initialValue x.1.text) =
      x.2.map (ShellResource.primitive x.1.text) := by
  rw [services_assemblyElement, List.flatMap_map, ← List.flatMap_pure_eq_map]
  refine List.flatMap_congr fun r _ => ?_
  rw [servicePrimitives_serviceElement, rscPrimitive_serviceElement]
  rfl

section

variable (d : ShellDeployable) {loaded : List (ShellAssembly × List ShellResource)}

theorem assemblyElements_document :
    ((d.document loaded).childrenNamed "assemblies").flatMap Xml.elements =
      loaded.map fun x => assemblyElement x.1 x.2 := by
  have hassemblies : (d.document loaded).childrenNamed "assemblies" =
      [.elem "assemblies" [] (loaded.map fun x => assemblyElement x.1 x.2)] := rfl
  rw [hassemblies, List.flatMap_singleton]
  exact elements_map fun _ => rfl

theorem resources_document :
    (cf2pe (d.document loaded)).resources =
      loaded.flatMap fun x => x.2.map (ShellResource.primitive x.1.text) := by
  rw [cf2pe, cf2peWith]
  simp only [assemblies_document, List.flatMap_map]
  exact List.flatMap_congr fun x _ => flatMap_services x

theorem nodes_document :
    (cf2pe (d.document loaded)).nodes =
      loaded.map fun x => ⟨x.1.uuid.getD [], x.1.text⟩ := by
  rw [cf2pe, cf2peWith]
  simp only [assemblies_document, List.map_map]
  rfl

variable {d}

theorem Fits.agreeable (h : Fits loaded) : Agreeable (d.document loaded) where
  root := rfl
  assembly_elements := by
    rw [assemblyElements_document]
    intro child hchild
    obtain ⟨x, -, rfl⟩ := List.mem_map.mp hchild
    rfl
  service_elements := by
    rw [assemblies_document]
    intro assembly hassembly
    obtain ⟨x, -, rfl⟩ := List.mem_map.mp hassembly
    rw [serviceElements_assemblyElement]
    intro child hchild
    obtain ⟨r, -, rfl⟩ := List.mem_map.mp hchild
    rfl
  assembly_name := by
    rw [assemblies_document]
    intro assembly hassembly
    obtain ⟨x, hx, rfl⟩ := List.mem_map.mp hassembly
    exact ⟨rfl, h.assembly_name x hx⟩
  service_name := by
    intro y hy
    obtain ⟨x, hx, r, hr, rfl⟩ := mem_serviceNodes_document.mp hy
    exact ⟨rfl, h.resource_name x hx r hr⟩
  service_type := by
    intro y hy
    obtain ⟨x, hx, r, hr, rfl⟩ := mem_serviceNodes_document.mp hy
    exact ⟨rfl, rfl⟩
  service_provider := by
    intro y hy _
    obtain ⟨x, hx, r, hr, rfl⟩ := mem_serviceNodes_document.mp hy
    rfl
  assembly_names_nodup := by
    rw [assemblies_document, List.map_map]
    exact h.names_nodup
  service_names_nodup := by
    rw [assemblies_document]
    intro assembly hassembly
    obtain ⟨x, hx, rfl⟩ := List.mem_map.mp hassembly
    rw [services_assemblyElement, List.map_map]
    -- services of one name have one id
    have hids := (List.nodup_flatMap.mp h.ids_nodup).1 x hx
    refine List.Nodup.of_map (fun name => qualified "rsc_" x.1.text name) ?_
    rw [List.map_map]
    exact hids
  resource_names_nodup := by
    rw [resources_document, List.map_flatMap]
    simp only [List.map_map]
    exact h.ids_nodup

theorem Fits.parseAndLoad_document (h : Fits loaded) :
    ∃ dep, parseAndLoad (d.document loaded) = some dep ∧
      dep.assemblies = loaded.map shellNode := by
  have hread : (loaded.map fun x => assemblyElement x.1 x.2).mapM assemblyCreate =
      some (loaded.map shellNode) := by
    rw [List.mapM_map]
    exact mapM_of_forall fun x _ => assemblyCreate_assemblyElement x.1 x.2
  refine ⟨assemblyMap (loaded.map shellNode), ?_, ?_⟩
  · rw [parseAndLoad, assemblyElements_document, hread]
    rfl
  · refine foldl_mapPut_of_nodup ?_
    rw [List.nil_append, List.map_map]
    exact h.names_nodup

theorem Fits.primitivesOn_document (h : Fits loaded) {x : ShellAssembly × List ShellResource}
    (hx : x ∈ loaded) :
    (cf2pe (d.document loaded)).primitivesOn x.1.text =
      x.2.map (ShellResource.primitive x.1.text) := by
  have hmem : assemblyElement x.1 x.2 ∈ (d.document loaded).assemblies := by
    rw [assemblies_document]
    exact List.mem_map_of_mem hx
  refine (h.agreeable.primitivesOn_eq hmem).trans ?_
  exact flatMap_services x

theorem resourceCreate_service {assembly : CString} {r : ShellResource}
    (ha : assembly.length ≤ assemblyNameMax) (hr : r.text.length ≤ resourceNameMax) :
    resourceCreate assembly r.service = [r.info assembly] := by
  have hname : resourceName "rsc_".toList assembly r.service.name =
      qualified "rsc_" assembly r.text := resourceName_of_fits (by decide) ha hr
  rw [resourceCreate, hname]
  rfl

theorem Fits.resourceMap_shellNode (h : Fits loaded) {x : ShellAssembly × List ShellResource}
    (hx : x ∈ loaded) : resourceMap (shellNode x) = x.2.map (ShellResource.info x.1.text) := by
  have hcreate : (shellNode x).services.flatMap (resourceCreate (shellNode x).name) =
      x.2.map (ShellResource.info x.1.text) := by
    rw [← List.flatMap_pure_eq_map]
    refine (List.flatMap_map ShellResource.service _ _).trans (List.flatMap_congr fun r hr => ?_)
    exact resourceCreate_service (h.assembly_name x hx) (h.resource_name x hx r hr)
  rw [resourceMap, hcreate]
  refine foldl_mapPut_of_nodup ?_
  rw [List.nil_append, List.map_map]
  exact (List.nodup_flatMap.mp h.ids_nodup).1 x hx

theorem assembly?_shellNode {dep : Deployable} (hdep : dep.assemblies = loaded.map shellNode)
    {x : ShellAssembly × List ShellResource} (hx : x ∈ loaded) :
    dep.assembly? x.1.text = some (shellNode x) := by
  have hmem : shellNode x ∈ dep.assemblies := hdep ▸ List.mem_map_of_mem hx
  rw [Deployable.assembly?, ← List.head?_filter]
  exact congrArg List.head? (filter_key_eq dep.names_nodup hmem)

end

/-! ## The daemon -/

namespace World

variable {σ : Type} [Stopwatch σ]

theorem recover_of_shellNode {loaded : List (ShellAssembly × List ShellResource)}
    (h : Fits loaded) {dep : Deployable} (hdep : dep.assemblies = loaded.map shellNode)
    {x : ShellAssembly × List ShellResource} (hx : x ∈ loaded) {r : ShellResource}
    (hr : r ∈ x.2) (errno : ResourceId → Int) (answers : CString → Env) :
    let rid : ResourceId := ⟨x.1.text, qualified "rsc_" x.1.text r.text⟩
    ((load dep errno answers : World σ).cape.resources rid).recover =
      recoverInit (errno rid) (some r.escalationFailures) (some r.escalationPeriod) := by
  intro rid
  have hassembly : dep.assembly? rid.assembly = some (shellNode x) := assembly?_shellNode hdep hx
  have hresource : (shellNode x).resource? rid.name = some (r.info x.1.text) := by
    have hids : ((resourceMap (shellNode x)).map ResourceInfo.name).Nodup := by
      rw [h.resourceMap_shellNode hx, List.map_map]
      exact (List.nodup_flatMap.mp h.ids_nodup).1 x hx
    have hmem : r.info x.1.text ∈ resourceMap (shellNode x) := by
      rw [h.resourceMap_shellNode hx]
      exact List.mem_map_of_mem hr
    rw [AssemblyNode.resource?, ← List.head?_filter]
    exact congrArg List.head? (filter_key_eq hids hmem)
  have hthresholds : resourceThresholds dep rid =
      (some r.escalationFailures, some r.escalationPeriod) := by
    rw [resourceThresholds, hassembly, Option.bind_some, hresource]
    rfl
  obtain ⟨cloud, hcape⟩ := load_cape (σ := σ) dep errno answers
  rw [hcape]
  simp only [empty, hthresholds]

theorem assembly_recover_of_shellNode {loaded : List (ShellAssembly × List ShellResource)}
    {dep : Deployable} (hdep : dep.assemblies = loaded.map shellNode)
    {x : ShellAssembly × List ShellResource} (hx : x ∈ loaded) (errno : ResourceId → Int)
    (answers : CString → Env) :
    ((load dep errno answers : World σ).assemblies x.1.text).recover =
      recoverInit (errno ⟨x.1.text, []⟩) (some (x.1.escalationFailures.getD []))
        (some (x.1.escalationPeriod.getD [])) := by
  have hmem : x.1.text ∈ dep.assemblies.map AssemblyNode.name := by
    rw [hdep, List.map_map]
    exact List.mem_map_of_mem hx
  rw [load_assemblies, if_pos hmem, assembly?_shellNode hdep hx]
  rfl

/--
The document that the shell writes is loaded.  The daemon has the assemblies, the resources
and the thresholds that the shell has, and the policy engine the same nodes with the same
resources, but none of their parameters.
-/
theorem shell_deployed {d : ShellDeployable}
    {loaded : List (ShellAssembly × List ShellResource)} (hload : d.load = some loaded)
    (h : Fits loaded) :
    ∃ document dep, generateConfig d = some document ∧ parseAndLoad document = some dep ∧
      dep.assemblies = loaded.map shellNode ∧
      (cf2pe document).nodes = loaded.map (fun x => ⟨x.1.uuid.getD [], x.1.text⟩) ∧
      ∀ x ∈ loaded,
        (cf2pe document).primitivesOn x.1.text = x.2.map (ShellResource.primitive x.1.text) ∧
        resourceMap (shellNode x) = x.2.map (ShellResource.info x.1.text) ∧
        ∀ errno answers,
          ((load dep errno answers : World σ).assemblies x.1.text).recover =
            recoverInit (errno ⟨x.1.text, []⟩) (some (x.1.escalationFailures.getD []))
              (some (x.1.escalationPeriod.getD [])) ∧
          ∀ r ∈ x.2,
            let rid : ResourceId := ⟨x.1.text, qualified "rsc_" x.1.text r.text⟩
            ((load dep errno answers : World σ).cape.resources rid).recover =
              recoverInit (errno rid) (some r.escalationFailures) (some r.escalationPeriod) := by
  obtain ⟨dep, hparse, hdep⟩ := h.parseAndLoad_document (d := d)
  refine ⟨d.document loaded, dep, ?_, hparse, hdep, nodes_document d, fun x hx => ?_⟩
  · rw [generateConfig, hload]
    rfl
  · refine ⟨h.primitivesOn_document hx, h.resourceMap_shellNode hx, fun errno answers => ?_⟩
    exact ⟨assembly_recover_of_shellNode hdep hx errno answers,
      fun r hr => recover_of_shellNode h hdep hx hr errno answers⟩

/-- The resource is on both sides, and its escalation was never set. -/
theorem shell_deployed_sample :
    ∃ document dep, generateConfig (shellSample (ocfResource [])) = some document ∧
      parseAndLoad document = some dep ∧
      ((cf2pe document).primitivesOn "web".toList).map Primitive.id = ["rsc_web_vip".toList] ∧
      let w : World Ring := load dep (fun _ => 0) fun _ => workingEnv
      (w.assemblies "web".toList).recover.numFailures = -1 ∧
        (w.cape.resources ⟨"web".toList, "rsc_web_vip".toList⟩).recover.numFailures = -1 := by
  obtain ⟨x, r, hload, hr, hname, hfailures, hrname, hrfailures⟩ : ∃ x r,
      (shellSample (ocfResource [])).load = some [x] ∧ x.2 = [r] ∧ x.1.text = "web".toList ∧
        x.1.escalationFailures.getD [] = "INFINITY".toList ∧
        r.text = "vip".toList ∧ r.escalationFailures = "INFINITY".toList :=
    ⟨_, _, rfl, rfl, rfl, rfl, rfl, rfl⟩
  have hinfinity : (parseThreshold 0 (some "INFINITY".toList)).1 = -1 := by decide +kernel
  have hfits : Fits [x] := by
    constructor <;> simp [hr, hname, hrname] <;> decide
  obtain ⟨document, dep, hdocument, hparse, -, -, hall⟩ :=
    shell_deployed (σ := Ring) hload hfits
  obtain ⟨hprimitives, -, hrecover⟩ := hall x (List.mem_singleton_self x)
  obtain ⟨hassembly, hresource⟩ := hrecover (fun _ => 0) fun _ => workingEnv
  refine ⟨document, dep, hdocument, hparse, ?_, ?_, ?_⟩
  · rw [hname, hr] at hprimitives
    rw [hprimitives]
    simp only [List.map_singleton, ShellResource.primitive, hrname]
    rfl
  · rw [hname, hfailures] at hassembly
    exact (congrArg Recover.numFailures hassembly).trans hinfinity
  · have hrecord := hresource r (hr ▸ List.mem_singleton_self r)
    rw [hname, hrname, hrfailures] at hrecord
    exact (congrArg Recover.numFailures hrecord).trans hinfinity

end World

end PacemakerCloud

import PacemakerCloud.Foundation.CString
import PacemakerCloud.Foundation.Lists

/-!
# Deployables

The part of a deployable document the daemon keeps after loading it: the
assemblies, and for each assembly the resources that `resource_create` and
`configure_resource_create` put into its `resource_map`.  The maps of the event
library are lists without a repeated key, in insertion order; `qb_skiplist` walks
through them in the order of the keys, and no result depends on that order.
-/

namespace PacemakerCloud

open Foundation

def assemblyNameMax : Nat := 1024

def resourceNameMax : Nat := 1024

structure Service where
  name : CString
  type : CString
  rclass : CString
  rprovider : Option CString
  escalationFailures : Option CString
  escalationPeriod : Option CString
  /-- Whether the element has a `configure_executable` child. -/
  configureExecutable : Bool
  deriving DecidableEq, Repr

structure AssemblyNode where
  name : CString
  uuid : CString
  escalationFailures : Option CString
  escalationPeriod : Option CString
  services : List Service
  deriving DecidableEq, Repr

structure Deployable where
  assemblies : List AssemblyNode
  names_nodup : (assemblies.map AssemblyNode.name).Nodup

structure ResourceInfo where
  name : CString
  type : CString
  rclass : CString
  rprovider : Option CString
  escalationFailures : Option CString
  escalationPeriod : Option CString
  deriving DecidableEq, Repr

/-- A resource: its assembly and its key in that assembly's `resource_map`. -/
structure ResourceId where
  assembly : CString
  name : CString
  deriving DecidableEq, Repr

/-- The name under a fixed prefix, cut to the buffer of the two functions below. -/
def resourceName (prefixText assembly service : CString) : CString :=
  snprintf (assemblyNameMax + resourceNameMax + 6)
    (prefixText ++ assembly ++ '_' :: service)

def configureResourceCreate (assembly : CString) (s : Service) : ResourceInfo :=
  { name := resourceName "cfg_".toList assembly s.name
    type := "script_runner".toList
    rclass := "ocf".toList
    rprovider := some "pacemaker-cloud".toList
    escalationFailures := some "-1".toList
    escalationPeriod := some "-1".toList }

/-- `resource_create`: the resources of one service, in the order they are put. -/
def resourceCreate (assembly : CString) (s : Service) : List ResourceInfo :=
  let rsc : ResourceInfo :=
    { name := resourceName "rsc_".toList assembly s.name
      type := s.type
      rclass := s.rclass
      rprovider := s.rprovider
      escalationFailures := s.escalationFailures
      escalationPeriod := s.escalationPeriod }
  if s.configureExecutable then [configureResourceCreate assembly s, rsc]
  else [rsc]

def resourceMapPut : List ResourceInfo → ResourceInfo → List ResourceInfo :=
  mapPut ResourceInfo.name

def resourceMap (a : AssemblyNode) : List ResourceInfo :=
  (a.services.flatMap (resourceCreate a.name)).foldl resourceMapPut []

/-- `qb_map_get (assembly_map, name)`. -/
def Deployable.assembly? (d : Deployable) (name : CString) : Option AssemblyNode :=
  d.assemblies.find? (·.name = name)

/-- `qb_map_get (a->resource_map, rname)`. -/
def AssemblyNode.resource? (a : AssemblyNode) (rname : CString) :
    Option ResourceInfo :=
  (resourceMap a).find? (·.name = rname)

def Deployable.resource? (d : Deployable) (hostname rname : CString) :
    Option ResourceId :=
  match d.assembly? hostname with
  | none => none
  | some a => (a.resource? rname).map fun _ => ⟨hostname, rname⟩

theorem Deployable.resource?_eq_some {d : Deployable} {hostname rname : CString}
    {r : ResourceId} (h : d.resource? hostname rname = some r) :
    r = ⟨hostname, rname⟩ := by
  unfold Deployable.resource? at h
  cases hassembly : d.assembly? hostname with
  | none => simp [hassembly] at h
  | some a =>
      simp only [hassembly, Option.map_eq_some_iff] at h
      obtain ⟨_, -, rfl⟩ := h
      rfl

/-! ## The names of a resource map -/

theorem mem_resourceMap {a : AssemblyNode} {x : ResourceInfo}
    (h : x ∈ resourceMap a) :
    ∃ s ∈ a.services, x ∈ resourceCreate a.name s := by
  rcases mem_foldl_mapPut h with h | h
  · simp at h
  · exact List.mem_flatMap.mp h

theorem resourceName_of_fits {p assembly service : CString}
    (hp : p.length = 4) (ha : assembly.length ≤ assemblyNameMax)
    (hs : service.length ≤ resourceNameMax) :
    resourceName p assembly service = p ++ assembly ++ '_' :: service := by
  refine snprintf_of_fits ?_
  simp only [List.length_append, List.length_cons, hp]
  omega

theorem length_resourceName {p assembly service : CString} (hp : p.length = 4)
    (ha : assembly.length ≤ assemblyNameMax)
    (hs : service.length ≤ resourceNameMax) :
    (resourceName p assembly service).length =
      assembly.length + service.length + 5 := by
  rw [resourceName_of_fits hp ha hs]
  simp only [List.length_append, List.length_cons, hp]
  omega

theorem length_name_of_resourceCreate {assembly : CString} {s : Service}
    {info : ResourceInfo} (hinfo : info ∈ resourceCreate assembly s)
    (ha : assembly.length ≤ assemblyNameMax) (hs : s.name.length ≤ resourceNameMax) :
    info.name.length = assembly.length + s.name.length + 5 := by
  have hrsc := length_resourceName (p := "rsc_".toList) (by decide +kernel) ha hs
  have hcfg := length_resourceName (p := "cfg_".toList) (by decide +kernel) ha hs
  unfold resourceCreate at hinfo
  split at hinfo
  · rcases List.mem_pair.mp hinfo with rfl | rfl
    · exact hcfg
    · exact hrsc
  · rw [List.mem_singleton.mp hinfo]
    exact hrsc

theorem strstr_resourceName {p assembly service : CString}
    (hp : p.length = 4) (ha : assembly.length ≤ assemblyNameMax)
    (hs : service.length ≤ resourceNameMax) :
    strstr (resourceName p assembly service) assembly = true := by
  rw [resourceName_of_fits hp ha hs, strstr_eq_true]
  exact ⟨p, '_' :: service, rfl⟩

theorem strstr_of_mem_resourceMap {a : AssemblyNode} {x : ResourceInfo}
    (ha : a.name.length ≤ assemblyNameMax)
    (hs : ∀ s ∈ a.services, s.name.length ≤ resourceNameMax)
    (h : x ∈ resourceMap a) : strstr x.name a.name = true := by
  obtain ⟨s, hmem, hx⟩ := mem_resourceMap h
  have hrsc := strstr_resourceName (p := "rsc_".toList) (by decide) ha
    (hs s hmem)
  have hcfg := strstr_resourceName (p := "cfg_".toList) (by decide) ha
    (hs s hmem)
  unfold resourceCreate at hx
  split at hx
  · rcases List.mem_cons.mp hx with rfl | hx
    · exact hcfg
    · rw [List.mem_singleton.mp hx]
      exact hrsc
  · rw [List.mem_singleton.mp hx]
    exact hrsc

/-! ## The primitives of the configuration -/

/-- The primitives that `cf2pe.xsl` generates for an assembly; no name is cut. -/
def AssemblyNode.primitives (a : AssemblyNode) : List CString :=
  a.services.flatMap fun s =>
    ("rsc_".toList ++ a.name ++ '_' :: s.name) ::
      if s.configureExecutable then ["cfg_".toList ++ a.name ++ '_' :: s.name] else []

def Deployable.Configures (d : Deployable) (hostname rname : CString) : Prop :=
  (∃ a ∈ d.assemblies, a.name = hostname) ∧ ∃ a ∈ d.assemblies, rname ∈ a.primitives

instance (d : Deployable) (hostname rname : CString) :
    Decidable (d.Configures hostname rname) :=
  inferInstanceAs (Decidable ((∃ a ∈ _, _) ∧ ∃ a ∈ _, _))

theorem AssemblyNode.resource?_of_primitive {a : AssemblyNode} {p : CString}
    (ha : a.name.length ≤ assemblyNameMax)
    (hs : ∀ s ∈ a.services, s.name.length ≤ resourceNameMax) (hp : p ∈ a.primitives) :
    (a.resource? p).isSome := by
  obtain ⟨s, hmem, hp⟩ := List.mem_flatMap.mp hp
  have hname : p ∈ (resourceCreate a.name s).map ResourceInfo.name := by
    have hrsc := resourceName_of_fits (p := "rsc_".toList) (by decide) ha (hs s hmem)
    have hcfg := resourceName_of_fits (p := "cfg_".toList) (by decide) ha (hs s hmem)
    simp only [resourceCreate, configureResourceCreate, hrsc, hcfg]
    cases hconfigure : s.configureExecutable with
    | false => simpa [hconfigure] using hp
    | true => simpa [hconfigure, or_comm] using hp
  have hmap : p ∈ (resourceMap a).map ResourceInfo.name := by
    refine mem_keys_foldl_mapPut (Or.inl ?_)
    rw [List.map_flatMap]
    exact List.mem_flatMap.mpr ⟨s, hmem, hname⟩
  obtain ⟨x, hx, rfl⟩ := List.mem_map.mp hmap
  exact List.find?_isSome.mpr ⟨x, hx, by simp⟩

end PacemakerCloud

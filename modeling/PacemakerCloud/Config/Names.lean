import Mathlib.Data.List.Perm.Basic
import PacemakerCloud.Cape.Keys
import PacemakerCloud.Config.Agreement

/-!
# What the name of a resource identifies

A resource is named after its assembly and its service, with an underscore between them
that may occur in either.  Its name is the id of its primitive, and part of the keys of its
entries in the operation history.
-/

namespace PacemakerCloud

open Foundation

def Deployable.services (d : Deployable) : List (CString × Service) :=
  d.assemblies.flatMap fun a => a.services.map (a.name, ·)

/-- Names are not empty, within the limits, and distinct inside an assembly. -/
structure Deployable.Within (d : Deployable) : Prop where
  assembly_name : ∀ a ∈ d.assemblies, a.name ≠ [] ∧ a.name.length ≤ assemblyNameMax
  service_name : ∀ a ∈ d.assemblies, ∀ s ∈ a.services,
    s.name ≠ [] ∧ s.name.length ≤ resourceNameMax
  service_names_nodup : ∀ a ∈ d.assemblies, (a.services.map Service.name).Nodup

/-! ## Identification -/

def operationOn (rname : CString) (method : Method) (interval : Nat) : PeOperation where
  hostname := []
  method := method
  rname := rname
  rclass := []
  rprovider := none
  rtype := []
  params := []
  opDigest := 0
  timesExecuted := 0
  interval := interval
  targetOutcome := 0
  graph := 0
  resource := none
  graphId := 0
  actionId := 0
  refcount := 1
  executions := 0
  unrefAtZero := false

/-- No operations on resources of two services share an entry of the history. -/
def Deployable.EntriesApart (d : Deployable) : Prop :=
  ∀ x ∈ d.services, ∀ y ∈ d.services, x ≠ y →
    ∀ r ∈ resourceCreate x.1 x.2, ∀ r' ∈ resourceCreate y.1 y.2,
    ∀ op op' : PeOperation, op.method.Logged → op'.method.Logged →
      op.rname = r.name → op'.rname = r'.name →
      Cape.opHistoryKey op ≠ Cape.opHistoryKey op'

/--
Two services never share a name, the id of a primitive in the configuration of a document that
is loaded, or an entry of the history.
-/
structure Deployable.Identifies (d : Deployable) : Prop where
  resources : ((d.services.flatMap fun x => resourceCreate x.1 x.2).map
    ResourceInfo.name).Nodup
  primitives : ∀ deployable, Readable deployable → parseAndLoad deployable = some d →
    ((cf2pe deployable).resources.map Primitive.id).Nodup
  entries : d.EntriesApart

/-- The end of the second assembly's name can be read as the start of the first service's. -/
def Splits (x y : CString × Service) : Prop :=
  ∃ u, y.1 = x.1 ++ '_' :: u ∧ x.2.name = u ++ '_' :: y.2.name

def joined (x : CString × Service) : CString := x.1 ++ '_' :: x.2.name

theorem joined_eq_iff {x y : CString × Service} (hne : x.1 ≠ y.1) :
    joined x = joined y ↔ Splits x y ∨ Splits y x := by
  rw [joined, joined, List.append_eq_append_iff]
  refine or_congr ⟨?_, ?_⟩ ⟨?_, ?_⟩
  · rintro ⟨z, hz, hrest⟩
    cases z with
    | nil => exact absurd (by simpa using hz.symm) hne
    | cons first u =>
        obtain ⟨rfl, hname⟩ := List.cons.inj hrest
        exact ⟨u, hz, hname⟩
  · rintro ⟨u, hu, hname⟩
    exact ⟨'_' :: u, hu, by rw [hname]; rfl⟩
  · rintro ⟨z, hz, hrest⟩
    cases z with
    | nil => exact absurd (by simpa using hz) hne
    | cons first u =>
        obtain ⟨rfl, hname⟩ := List.cons.inj hrest
        exact ⟨u, hz, hname⟩
  · rintro ⟨u, hu, hname⟩
    exact ⟨'_' :: u, hu, by rw [hname]; rfl⟩

theorem Splits.ne {x y : CString × Service} (h : Splits x y) : x.1 ≠ y.1 := by
  obtain ⟨u, hu, -⟩ := h
  intro heq
  have hlength := congrArg List.length (heq.trans hu)
  simp only [List.length_append, List.length_cons] at hlength
  omega

namespace Deployable

variable {d : Deployable}

theorem mem_services {x : CString × Service} :
    x ∈ d.services ↔ ∃ a ∈ d.assemblies, a.name = x.1 ∧ x.2 ∈ a.services := by
  obtain ⟨name, s⟩ := x
  simp only [services, List.mem_flatMap, List.mem_map, Prod.mk.injEq]
  constructor
  · rintro ⟨a, ha, s', hs, rfl, rfl⟩
    exact ⟨a, ha, rfl, hs⟩
  · rintro ⟨a, ha, rfl, hs⟩
    exact ⟨a, ha, s, hs, rfl, rfl⟩

theorem Within.eq_of_names (h : d.Within) {x y : CString × Service} (hx : x ∈ d.services)
    (hy : y ∈ d.services) (hassembly : x.1 = y.1) (hname : x.2.name = y.2.name) : x = y := by
  obtain ⟨a, ha, hax, hsx⟩ := mem_services.mp hx
  obtain ⟨b, hb, hby, hsy⟩ := mem_services.mp hy
  obtain rfl : a = b :=
    List.inj_on_of_nodup_map d.names_nodup ha hb (hax.trans (hassembly.trans hby.symm))
  exact Prod.ext hassembly
    (List.inj_on_of_nodup_map (h.service_names_nodup a ha) hsx hsy hname)

theorem Within.services_nodup (h : d.Within) : d.services.Nodup := by
  have hblocks : ∀ a ∈ d.assemblies,
      (a.services.map fun s => ((a.name, s) : CString × Service)).Nodup := by
    intro a ha
    refine (List.nodup_map_iff_inj_on ?_).mpr fun s _ t _ hst => (Prod.mk.inj hst).2
    exact List.Nodup.of_map _ (h.service_names_nodup a ha)
  refine (nodup_flatMap_iff (List.Nodup.of_map _ d.names_nodup) hblocks).mpr ?_
  intro a ha b hb hne x hx hx'
  obtain ⟨s, -, rfl⟩ := List.mem_map.mp hx
  obtain ⟨t, -, heq⟩ := List.mem_map.mp hx'
  exact hne (List.inj_on_of_nodup_map d.names_nodup ha hb (Prod.mk.inj heq).1.symm)

theorem Within.fits (h : d.Within) {x : CString × Service} (hx : x ∈ d.services) :
    x.1.length ≤ assemblyNameMax ∧ x.2.name.length ≤ resourceNameMax := by
  obtain ⟨a, ha, hname, hs⟩ := mem_services.mp hx
  rw [← hname]
  exact ⟨(h.assembly_name a ha).2, (h.service_name a ha x.2 hs).2⟩

end Deployable

def resourceNames (x : CString × Service) : List CString :=
  qualified "rsc_" x.1 x.2.name ::
    if x.2.configureExecutable then [qualified "cfg_" x.1 x.2.name] else []

theorem mem_resourceNames {x : CString × Service} {name : CString} :
    name ∈ resourceNames x ↔ name = qualified "rsc_" x.1 x.2.name ∨
      x.2.configureExecutable = true ∧ name = qualified "cfg_" x.1 x.2.name := by
  cases h : x.2.configureExecutable <;> simp [resourceNames, h]

theorem rsc_ne_cfg (x y : CString × Service) :
    qualified "rsc_" x.1 x.2.name ≠ qualified "cfg_" y.1 y.2.name := by
  intro h
  exact absurd ((qualified_eq_iff (by decide)).mp h).1 (by decide)

theorem resourceNames_nodup (x : CString × Service) : (resourceNames x).Nodup := by
  unfold resourceNames
  split
  · simpa using rsc_ne_cfg x x
  · simp

theorem resourceNames_shared_iff {x y : CString × Service} :
    (∃ name ∈ resourceNames x, name ∈ resourceNames y) ↔ joined x = joined y := by
  simp only [mem_resourceNames]
  constructor
  · rintro ⟨name, rfl | ⟨-, rfl⟩, h | ⟨-, h⟩⟩
    · exact qualified_inj.mp h
    · exact absurd h (rsc_ne_cfg x y)
    · exact absurd h.symm (rsc_ne_cfg y x)
    · exact qualified_inj.mp h
  · intro h
    exact ⟨_, Or.inl rfl, Or.inl (qualified_inj.mpr h)⟩

namespace Deployable

variable {d : Deployable}

theorem Within.names_nodup_iff (h : d.Within) :
    (d.services.flatMap resourceNames).Nodup ↔
      ∀ x ∈ d.services, ∀ y ∈ d.services, ¬ Splits x y := by
  rw [nodup_flatMap_iff h.services_nodup fun x _ => resourceNames_nodup x]
  constructor
  · intro hshared x hx y hy hsplits
    have hne : x ≠ y := fun heq => hsplits.ne (congrArg Prod.fst heq)
    have hjoined := (joined_eq_iff hsplits.ne).mpr (Or.inl hsplits)
    obtain ⟨name, hname, hname'⟩ := resourceNames_shared_iff.mpr hjoined
    exact hshared x hx y hy hne name hname hname'
  · intro hsplits x hx y hy hne name hname hname'
    have hjoined := resourceNames_shared_iff.mp ⟨name, hname, hname'⟩
    by_cases hassembly : x.1 = y.1
    · rw [joined, joined, hassembly] at hjoined
      have hsame := (List.cons.inj (List.append_cancel_left hjoined)).2
      exact hne (h.eq_of_names hx hy hassembly hsame)
    · exact ((joined_eq_iff hassembly).mp hjoined).elim (hsplits x hx y hy)
        (hsplits y hy x hx)

theorem Within.resourceCreate_perm (h : d.Within) {x : CString × Service}
    (hx : x ∈ d.services) :
    ((resourceCreate x.1 x.2).map ResourceInfo.name).Perm (resourceNames x) := by
  obtain ⟨hass, hfits⟩ := h.fits hx
  have hcut : ∀ {p : String}, p.toList.length = 4 →
      resourceName p.toList x.1 x.2.name = qualified p x.1 x.2.name :=
    fun hp => resourceName_of_fits hp hass hfits
  simp only [resourceCreate, configureResourceCreate, resourceNames,
    hcut (p := "rsc_") (by decide), hcut (p := "cfg_") (by decide)]
  cases x.2.configureExecutable with
  | false => exact .refl _
  | true => exact .swap _ _ _

theorem Within.resources_perm (h : d.Within) :
    ((d.services.flatMap fun x => resourceCreate x.1 x.2).map ResourceInfo.name).Perm
      (d.services.flatMap resourceNames) := by
  rw [List.map_flatMap]
  exact List.Perm.flatMap_left _ fun x hx => h.resourceCreate_perm hx

theorem primitives_eq_services (d : Deployable) :
    d.assemblies.flatMap AssemblyNode.primitives = d.services.flatMap resourceNames := by
  rw [services, List.flatMap_assoc]
  refine List.flatMap_congr fun a _ => ?_
  rw [AssemblyNode.primitives, List.flatMap_map]
  rfl

theorem Within.entries_iff (h : d.Within) (hnodup : (d.services.flatMap resourceNames).Nodup) :
    d.EntriesApart ↔ ∀ x ∈ d.services, ∀ y ∈ d.services, x ≠ y →
      ∀ name ∈ resourceNames x, ∀ name' ∈ resourceNames y, ¬ Overruns name name' := by
  have hnames : ∀ x ∈ d.services, ∀ name, name ∈ resourceNames x ↔
      ∃ r ∈ resourceCreate x.1 x.2, r.name = name := fun x hx name =>
    (h.resourceCreate_perm hx).mem_iff.symm.trans List.mem_map
  rw [nodup_flatMap_iff h.services_nodup fun x _ => resourceNames_nodup x] at hnodup
  constructor
  · intro hentries x hx y hy hne name hname name' hname' hoverruns
    have hdiffers : name ≠ name' := fun heq => hnodup x hx y hy hne name hname (heq ▸ hname')
    obtain ⟨method, method', interval, interval', hlogged, hlogged', hkey⟩ :=
      (keys_agree_iff hdiffers).mpr (Or.inl hoverruns)
    obtain ⟨r, hr, rfl⟩ := (hnames x hx name).mp hname
    obtain ⟨r', hr', rfl⟩ := (hnames y hy name').mp hname'
    exact hentries x hx y hy hne r hr r' hr' (operationOn r.name method interval)
      (operationOn r'.name method' interval') hlogged hlogged' rfl rfl hkey
  · intro hoverruns x hx y hy hne r hr r' hr' op op' hlogged hlogged' hop hop' hkey
    have hname := (hnames x hx r.name).mpr ⟨r, hr, rfl⟩
    have hname' := (hnames y hy r'.name).mpr ⟨r', hr', rfl⟩
    have hdiffers : r.name ≠ r'.name := fun heq =>
      hnodup x hx y hy hne r.name hname (heq ▸ hname')
    rw [opHistoryKey_eq, opHistoryKey_eq, hop, hop'] at hkey
    rcases (keys_agree_iff hdiffers).mp ⟨_, _, _, _, hlogged, hlogged', hkey⟩ with hover | hover
    · exact hoverruns x hx y hy hne _ hname _ hname' hover
    · exact hoverruns y hy x hx hne.symm _ hname' _ hname hover

/--
Names identify resources exactly if no name can be split in two ways into an assembly and
a service, and none is so long that its keys run into those of another service.
-/
theorem names_identify_iff (d : Deployable) (h : d.Within) :
    d.Identifies ↔
      (∀ x ∈ d.services, ∀ y ∈ d.services, ¬ Splits x y) ∧
      ∀ x ∈ d.services, ∀ y ∈ d.services, x ≠ y →
        ∀ name ∈ resourceNames x, ∀ name' ∈ resourceNames y, ¬ Overruns name name' := by
  rw [← h.names_nodup_iff]
  constructor
  · intro hidentifies
    have hnodup := h.resources_perm.nodup_iff.mp hidentifies.resources
    exact ⟨hnodup, (h.entries_iff hnodup).mp hidentifies.entries⟩
  · rintro ⟨hnodup, hoverruns⟩
    refine ⟨h.resources_perm.nodup_iff.mpr hnodup, fun deployable hreadable hload => ?_,
      (h.entries_iff hnodup).mpr hoverruns⟩
    rwa [hreadable.primitives_eq hload, primitives_eq_services]

def pair (a s b t : String) (hne : a.toList ≠ b.toList) : Deployable where
  assemblies :=
    [⟨a.toList, "uuid-1".toList, none, none,
        [⟨s.toList, "httpd".toList, "lsb".toList, none, none, none, false⟩]⟩,
      ⟨b.toList, "uuid-2".toList, none, none,
        [⟨t.toList, "httpd".toList, "lsb".toList, none, none, none, true⟩]⟩]
  names_nodup := by simpa using hne

theorem names_identify_iff_short :
    (pair "web_1" "rsc" "db" "rsc" (by decide)).Identifies := by
  refine (names_identify_iff _ ⟨by decide, by decide, by decide⟩).mpr ⟨?_, ?_⟩
  · rintro x hx y hy ⟨u, hu, -⟩
    have hapart : ∀ x ∈ (pair "web_1" "rsc" "db" "rsc" (by decide)).services,
        ∀ y ∈ (pair "web_1" "rsc" "db" "rsc" (by decide)).services,
          ¬ x.1 ++ ['_'] <+: y.1 := by decide
    exact hapart x hx y hy ⟨u, by simp [hu]⟩
  · intro x hx y hy _ name hname name' _ hoverruns
    have hshort : ∀ x ∈ (pair "web_1" "rsc" "db" "rsc" (by decide)).services,
        ∀ name ∈ resourceNames x, name.length + 1 < keyMax := by decide
    exact Nat.not_le.mpr (hshort x hx name hname) hoverruns.1

/-- Service `c` of assembly `a_b` and service `b_c` of assembly `a` share a name. -/
theorem names_shared :
    (pair "a_b" "c" "a" "b_c" (by decide)).Within ∧
      ¬ (pair "a_b" "c" "a" "b_c" (by decide)).Identifies := by
  refine ⟨⟨by decide, by decide, by decide⟩, ?_⟩
  intro h
  exact absurd h.resources (by decide)

end Deployable

end PacemakerCloud

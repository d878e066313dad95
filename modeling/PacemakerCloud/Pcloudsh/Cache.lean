import PacemakerCloud.Pcloudsh.Effects

/-!
# The cache and the database

`exists` looks a name up in the dictionary of objects, not in the document.  An object whose
name has no element is left behind by `get`, which most commands call before they look at
anything else, and by a removal whose loop runs on to a deployable.  The two agree in every run
whose lines do not leave such an object.
-/

namespace PacemakerCloud

open Foundation

namespace DbFactory

variable {α β : Type} {f f' : DbFactory α β} {name : CString} {pending : List CString}

/-- A name exists exactly if the document has an element of that name. -/
def Mirrors (f : DbFactory α β) : Prop :=
  ∀ name, f.existsName name ↔ ∃ node ∈ f.doc, node.name = name

structure Cached (pending : List CString) (f : DbFactory α β) : Prop extends Sound f where
  missing : ∀ {n}, f.existsName n → f.body n = none → n ∈ pending

theorem Cached.mirrors (h : f.Cached []) : f.Mirrors := by
  intro name
  rw [← isSome_body_iff]
  refine ⟨fun hname => ?_, fun hbody => h.covered (isSome_body ▸ hbody)⟩
  cases hbody : f.body name with
  | none => exact absurd (h.missing hname hbody) (List.not_mem_nil)
  | some b => rfl

theorem Cached.mono (h : f.Cached pending) {pending' : List CString} (hsub : pending ⊆ pending') :
    f.Cached pending' :=
  ⟨h.toSound, fun hname hbody => hsub (h.missing hname hbody)⟩

theorem Cached.writes (h : f.Cached (name :: pending)) (hwrites : f.Writes name f') :
    f'.Cached pending := by
  obtain ⟨b, hb⟩ := hwrites.body
  obtain ⟨o, ho⟩ := hwrites.lookup
  refine ⟨hwrites.sound, fun {n} hname hbody => ?_⟩
  rw [existsName, ho] at hname
  rw [hb] at hbody
  by_cases hn : n = name
  · simp [hn] at hbody
  · rw [Function.update_of_ne hn] at hname hbody
    exact List.mem_of_ne_of_mem hn (h.missing hname hbody)

theorem Cached.writes_self (h : f.Cached pending) (hwrites : f.Writes name f') :
    f'.Cached pending :=
  (h.mono (List.subset_cons_self name pending)).writes hwrites

theorem Cached.modify (h : f.Cached pending) (name : CString) (change : α → α) :
    Ends Stored (Cached pending) (f.modify name change) := by
  by_cases hobject : ∃ o, f.lookup name = some (some o)
  · obtain ⟨o, ho⟩ := hobject
    obtain ⟨f', hmodify, hsound, hbody, hlookup⟩ := modify_of_object h.toSound ho change
    rw [hmodify]
    refine ⟨hsound, fun {n} hname hnone => h.missing ?_ (hbody ▸ hnone)⟩
    rw [existsName, hlookup] at hname
    by_cases hn : n = name
    · rw [hn]
      exact existsName_of_lookup ho
    · rwa [Function.update_of_ne hn] at hname
  · rw [modify_of_none (not_exists.mp hobject)]
    exact h.stored

theorem Cached.saveInstance [DbRecord α β] (h : f.Cached (name :: pending)) :
    Ends Stored (Cached pending) (f.saveInstance name) := by
  by_cases hobject : ∃ o, f.lookup name = some (some o)
  · obtain ⟨o, ho⟩ := hobject
    obtain ⟨f', hsave, hsaves⟩ := saveInstance_of_object h.toLinked ho
    rw [hsave]
    exact h.writes hsaves.writes
  · rw [saveInstance_of_none (not_exists.mp hobject)]
    exact h.stored

theorem Cached.deleted (h : f.Cached pending)
    (heffect : f' = f ∧ f.body name = none ∨
      f'.Sound ∧ f'.body = Function.update f.body name none ∧
        f'.lookup = Function.update f.lookup name none) : f'.Cached pending := by
  obtain ⟨rfl, -⟩ | ⟨hsound, hbody, hlookup⟩ := heffect
  · exact h
  · refine ⟨hsound, fun {n} hname hnone => ?_⟩
    rw [existsName, hlookup] at hname
    rw [hbody] at hnone
    by_cases hn : n = name
    · simp [hn] at hname
    · rw [Function.update_of_ne hn] at hname hnone
      exact h.missing hname hnone

theorem Cached.deleteInstance (h : f.Cached pending) (name : CString) :
    Ends Stored (Cached pending) (f.deleteInstance name) := by
  obtain ⟨f', hdelete, heffect⟩ := deleteInstance_cases h.toLinked name
  rw [hdelete]
  exact h.deleted heffect

theorem cached_load {file : List (DbNode β)} {nodeCount : Nat}
    {createInstance : DbNode β → Option (DbObject α)}
    (h : (load file nodeCount createInstance).Sound) :
    (load file nodeCount createInstance).Cached [] := by
  refine ⟨h, fun {n} hname hnone => ?_⟩
  rw [existsName, lookup_load, Option.isSome_map, ← isSome_body, hnone] at hname
  cases hname

end DbFactory

namespace AssemblyFactory

open DbFactory (Cached)

variable {f : AssemblyFactory} {name source : CString} {pending : List CString} {host : Host}

theorem existsName_get {n : CString} :
    (get f name).existsName n ↔ n = name ∨ f.existsName n := by
  by_cases hname : f.existsName name
  · rw [get_of_exists hname]
    exact ⟨Or.inr, fun h => h.elim (fun hn => hn ▸ hname) id⟩
  · rw [get, if_neg hname, DbFactory.existsName, DbFactory.lookup_put]
    by_cases hn : n = name
    · simp [hn]
    · simp [hn, DbFactory.existsName]

theorem lookup_get {n : CString} (hn : f.existsName n) : (get f name).lookup n = f.lookup n := by
  by_cases hname : f.existsName name
  · rw [get_of_exists hname]
  · have hne : n ≠ name := fun heq => hname (heq ▸ hn)
    rw [get, if_neg hname, DbFactory.lookup_put, Function.update_of_ne hne]

theorem cached_get (h : f.Cached pending) (name : CString) :
    (get f name).Cached (name :: pending) := by
  by_cases hname : f.existsName name
  · rw [get_of_exists hname]
    exact h.mono (List.subset_cons_self name pending)
  · obtain ⟨hsound, hbody, hlookup⟩ := get_of_new h.toSound hname
    refine ⟨hsound, fun {n} hn hnone => ?_⟩
    rw [DbFactory.existsName, hlookup] at hn
    rw [hbody] at hnone
    by_cases heq : n = name
    · exact heq ▸ List.mem_cons_self
    · rw [Function.update_of_ne heq] at hn
      exact List.mem_cons_of_mem _ (h.missing hn hnone)

theorem cloneFrom_ends (h : f.Cached (name :: pending)) (source : CString) (host : Host) :
    Ends DbFactory.Stored
      (fun p => host.cloneFrom ≠ .raised ∧
        (p.2 = true ∧ p.1.Cached pending ∨ p = (f, false) ∧ host.cloneFrom = .imageExists))
      (cloneFrom f name source host) := by
  unfold cloneFrom
  split
  case h_1 =>
    split
    case h_1 hexists => exact ⟨by simp [hexists], Or.inr ⟨rfl, hexists⟩⟩
    case h_2 hcloned =>
      refine (h.modify name _).bind fun f₁ h₁ => h₁.saveInstance.bind fun f₂ h₂ => ?_
      exact ⟨by simp [hcloned], Or.inl ⟨rfl, h₂⟩⟩
    case h_3 => exact h.stored
  case h_2 => exact h.stored

theorem finish_ends (h : f.Cached (name :: pending)) :
    Ends DbFactory.Stored (Cached pending) (finish f name host) := by
  unfold finish
  split
  case isTrue => exact h.saveInstance
  case isFalse => exact h.stored

theorem customize_ends (h : f.Cached (name :: pending))
    (hkeep : host.cloneFrom ≠ .raised →
      pending = [] ∧ (f.Cached [] ∨ host.cloneFrom ≠ .imageExists)) :
    Ends DbFactory.Stored (Cached []) (do
      let (f, cloned) ← cloneFrom f name source host
      if cloned then finish f name host else f.deleteInstance name) := by
  refine (cloneFrom_ends h source host).bind ?_
  rintro ⟨f', cloned⟩ ⟨hraised, hcloned | hexists⟩
  · obtain ⟨rfl, hcached⟩ := hcloned
    rw [(hkeep hraised).1] at hcached
    exact finish_ends (hcached.mono (List.nil_subset _))
  · obtain ⟨heq, hexists⟩ := hexists
    obtain ⟨rfl, rfl⟩ := Prod.mk.inj heq
    have hcached := (hkeep hraised).2.resolve_right fun hne => hne hexists
    exact hcached.deleteInstance name

/-- The names that `create` looks up exist already, or come to have an element. -/
def CreateKeeps (f : AssemblyFactory) (name jeos : CString) (host : Host) : Prop :=
  (host.tdl = true → f.existsName jeos ∨ jeos = name ∨
    host.jeosXml = true ∧ host.cloneFrom = .raised) ∧
  (f.existsName name ∨
    host.tdl = true ∧ host.jeosXml = true ∧ host.cloneFrom ≠ .imageExists)

instance decidableCreateKeeps (f : AssemblyFactory) (name jeos : CString) (host : Host) :
    Decidable (CreateKeeps f name jeos host) :=
  inferInstanceAs (Decidable (_ ∧ _))

theorem create_ends (h : f.Cached []) (hkeep : CreateKeeps f name (jeosOf source) host) :
    Ends DbFactory.Stored (Cached []) (create f name source host) := by
  obtain ⟨hjeos, hname⟩ := hkeep
  have hget : (get f name).Cached [name] := cached_get h name
  unfold create
  split
  case isFalse htdl =>
    rw [get_of_exists (hname.resolve_right fun hcloned => htdl hcloned.1)]
    exact h
  case isTrue htdl =>
    by_cases hraised : host.jeosXml = true ∧ host.cloneFrom = .raised
    · have hboth : (get (get f name) (jeosOf source)).Cached [name, jeosOf source] :=
        (cached_get hget _).mono (by simp)
      refine (hboth.modify _ _).bind fun f₁ h₁ => ?_
      rw [if_pos hraised.1]
      exact customize_ends h₁ fun hne => absurd hraised.2 hne
    · have hold : get (get f name) (jeosOf source) = get f name := by
        refine get_of_exists (existsName_get.mpr ?_)
        rcases hjeos htdl with hexists | heq | hraised'
        · exact Or.inr hexists
        · exact Or.inl heq
        · exact absurd hraised' hraised
      simp only [hold]
      rcases hname with hexists | ⟨-, hxml, himage⟩
      · rw [get_of_exists hexists]
        refine (h.modify _ _).bind fun f₁ h₁ => ?_
        split
        case isTrue =>
          exact customize_ends (h₁.mono (List.nil_subset _)) fun _ => ⟨rfl, Or.inl h₁⟩
        case isFalse => exact h₁
      · refine (hget.modify _ _).bind fun f₁ h₁ => ?_
        rw [if_pos hxml]
        exact customize_ends h₁ fun _ => ⟨rfl, Or.inr himage⟩

/-- The source exists, and it has a UUID or the clone exists too. -/
def CloneKeeps (f : AssemblyFactory) (source dest : CString) : Prop :=
  match f.lookup source with
  | some (some original) => original.attrs.uuid ≠ [] ∨ f.existsName dest
  | some none => True
  | none => False

instance decidableCloneKeeps (f : AssemblyFactory) (source dest : CString) :
    Decidable (CloneKeeps f source dest) :=
  match h : f.lookup source with
  | some (some _) => decidable_of_iff _ (by rw [CloneKeeps, h])
  | some none => .isTrue (by rw [CloneKeeps, h]; trivial)
  | none => .isFalse (by rw [CloneKeeps, h]; exact id)

theorem clone_ends {dest : CString} (h : f.Cached []) (hkeep : CloneKeeps f source dest) :
    Ends DbFactory.Stored (Cached []) (clone f source dest host) := by
  have hsource : f.existsName source := by
    rw [DbFactory.existsName]
    unfold CloneKeeps at hkeep
    split at hkeep
    case h_1 hlookup => rw [hlookup, Option.isSome_some]
    case h_2 hlookup => rw [hlookup, Option.isSome_some]
    case h_3 => exact hkeep.elim
  have hlookup : (get f dest).lookup source = f.lookup source := lookup_get hsource
  simp only [clone, get_of_exists hsource, hlookup]
  unfold CloneKeeps at hkeep
  split
  case h_1 original horiginal =>
    simp only [horiginal] at hkeep
    split
    case isTrue huuid =>
      rw [get_of_exists (hkeep.resolve_left fun hne => hne huuid)]
      exact h
    case isFalse =>
      refine (cloneFrom_ends (cached_get h dest) source host).bind ?_
      rintro ⟨f', cloned⟩ ⟨-, ⟨-, hcached⟩ | ⟨heq, -⟩⟩
      · exact finish_ends (hcached.mono (List.nil_subset _))
      · obtain ⟨rfl, -⟩ := Prod.mk.inj heq
        exact finish_ends (cached_get h dest)
  case h_2 => exact (cached_get h dest).stored
  case h_3 => exact (cached_get h dest).stored

theorem delete_ends (h : f.Cached []) (hname : f.existsName name) :
    Ends DbFactory.Stored (Cached []) (delete f name host) := by
  simp only [delete, get_of_exists hname]
  split
  case h_1 =>
    split
    case isTrue => exact h.deleteInstance name
    case isFalse => exact h.stored
  case h_2 => exact h.stored
  case h_3 => exact h.stored

theorem escalationAssemblySet_ends (h : f.Cached []) (name failures period : CString) :
    Ends DbFactory.Stored (Cached []) (escalationAssemblySet f name failures period) := by
  unfold escalationAssemblySet
  split
  case isTrue =>
    refine (h.modify name _).bind fun f₁ h₁ => ?_
    exact (h₁.mono (List.nil_subset _)).saveInstance
  case isFalse => exact h

theorem resourceCommand_ends (h : f.Cached []) (name : CString) (change : ResourceChange) :
    Ends DbFactory.Stored (Cached []) (resourceCommand f name change) := by
  have hsave : ∀ {g : AssemblyFactory}, g.Cached [] →
      Ends DbFactory.Stored (Cached []) (g.saveInstance name) := fun hg =>
    (hg.mono (List.nil_subset _)).saveInstance
  unfold resourceCommand
  split
  case h_1 => exact h
  case h_2 => exact h.stored
  case h_3 a _ =>
    have hsetup : Ends DbFactory.Stored (Cached []) (resourceFactorySetup f name a) := by
      unfold resourceFactorySetup
      split
      case isTrue => exact hsave h
      case isFalse => exact h
    refine hsetup.bind fun f₁ h₁ => ?_
    cases change with
    | refused => exact h₁
    | saved => exact hsave h₁
    | raised => exact h₁.stored

end AssemblyFactory

namespace DeployableFactory

open DbFactory (Cached)

variable {f f' : DeployableFactory} {dname aname : CString} {pending : List CString}
  {d : DbObject DeployableAttrs}

def listed (f : DeployableFactory) : List (CString × List CString) :=
  f.doc.map fun node => (node.name, node.body.assemblies)

/--
The deployable lists nothing, or it lists the assembly, or else no deployable behind it has the
name of the assembly, unless one between them lists the assembly.
-/
def RemovesAssembly (listed : List (CString × List CString)) (dname aname : CString) : Prop :=
  match listed.dropWhile (·.1 ≠ dname) with
  | [] => True
  | (_, assemblies) :: behind =>
      assemblies = [] ∨ aname ∈ assemblies ∨
        (behind.find? fun next => next.1 = aname ∨ next.2.any (· = aname)).all (·.1 ≠ aname)

instance decidableRemovesAssembly (listed : List (CString × List CString))
    (dname aname : CString) : Decidable (RemovesAssembly listed dname aname) :=
  match h : listed.dropWhile (·.1 ≠ dname) with
  | [] => .isTrue (by rw [RemovesAssembly, h]; trivial)
  | (_, assemblies) :: _ =>
      decidable_of_iff (assemblies = [] ∨ assemblies.any (· = aname) ∨ Option.all _ _ = true)
        (by rw [RemovesAssembly, h]; exact or_congr .rfl (or_congr (by simp) .rfl))

theorem listed_save (h : f.Linked) (hd : f.lookup dname = some (some d))
    (hsave : f.saveInstance dname = .ok f') :
    listed f' = listed f ∨ f.find dname = none ∧ listed f' = listed f ++ [(dname, [])] := by
  obtain ⟨hname, hnode⟩ := h.objects hd
  simp only [DbFactory.saveInstance, hd] at hsave
  cases hfind : f.find dname with
  | none =>
      rw [hfind] at hnode
      rw [hnode] at hsave
      obtain rfl := Except.ok.inj hsave
      refine Or.inr ⟨rfl, ?_⟩
      simp [listed, DbFactory.newChild, DbFactory.put, DbFactory.save, hname, DbRecord.write,
        DeployableAttrs.write]
  | some node =>
      rw [hfind] at hnode
      rw [hnode] at hsave
      obtain rfl := Except.ok.inj hsave
      refine Or.inl ?_
      rw [listed, DbFactory.save, DbFactory.rewrite, listed, List.map_map]
      refine List.map_congr_left fun x hx => ?_
      by_cases hid : x.id = node.id
      · obtain rfl := DbFactory.eq_of_id h hfind hx hid
        simp [hname, DbFactory.name_of_find hfind, DbRecord.write, DeployableAttrs.write]
      · simp [hid]

theorem RemovesAssembly.save (hkeep : RemovesAssembly (listed f) dname aname) (h : f.Linked)
    (hd : f.lookup dname = some (some d)) (hsave : f.saveInstance dname = .ok f') :
    RemovesAssembly (listed f') dname aname := by
  rcases listed_save h hd hsave with heq | ⟨hnone, heq⟩
  · rwa [heq]
  · have hne : ∀ entry ∈ listed f, entry.1 ≠ dname := by
      intro entry hentry
      obtain ⟨node, hnode, rfl⟩ := List.mem_map.mp hentry
      simpa using List.find?_eq_none.mp hnone node hnode
    rw [heq, RemovesAssembly, List.dropWhile_append_of_pos (by simpa using hne)]
    simp

/-- Behind the element, the first of the name is an assembly if it comes before a deployable. -/
theorem find_behind (nodes : List (DbNode DeployableElement))
    (hkeep : (nodes.find? fun next => next.name = aname ∨ next.body.assemblies.any (· = aname)).all
      (·.name ≠ aname)) :
    ∀ visit ∈ (nodes.flatMap fun next =>
        .deployable next.id next.name :: Visited.below next).find? (·.name = aname),
      ∃ node ∈ nodes, visit = .assembly node.id aname := by
  induction nodes with
  | nil => simp
  | cons node nodes ih =>
      intro visit hvisit
      by_cases hname : node.name = aname
      · simp [hname] at hkeep
      · have hother : ∀ visits : List Visited,
            (.deployable node.id node.name :: visits).find? (·.name = aname) =
              visits.find? (·.name = aname) :=
          fun _ => List.find?_cons_of_neg fun heq => hname (of_decide_eq_true heq)
        rw [List.flatMap_cons, List.cons_append, hother, List.find?_append, find_below] at hvisit
        by_cases hmem : aname ∈ node.body.assemblies
        · rw [if_pos hmem, Option.some_or] at hvisit
          exact ⟨node, List.mem_cons_self, (Option.some.inj hvisit).symm⟩
        · rw [if_neg hmem, Option.none_or] at hvisit
          rw [List.find?_cons_of_neg (by simpa using ⟨hname, hmem⟩)] at hkeep
          obtain ⟨x, hx, hxvisit⟩ := ih hkeep visit hvisit
          exact ⟨x, List.mem_cons_of_mem _ hx, hxvisit⟩

theorem find_document (h : f.Sound) (hd : f.lookup dname = some (some d))
    (hkeep : RemovesAssembly (listed f) dname aname) {visit : Visited}
    (hvisit : (Iteration.document.visits f dname).find? (·.name = aname) = some visit) :
    ∃ node ∈ f.doc, visit = .assembly node.id aname := by
  rw [Iteration.visits, DbFactory.nodeOf_eq_find h.toLinked hd] at hvisit
  cases hfind : f.find dname with
  | none => simp [hfind] at hvisit
  | some node =>
      obtain ⟨hname, before, behind, hdoc, hbefore⟩ := List.find?_eq_some_iff_append.mp hfind
      have hids : ∀ x ∈ before, x.id ≠ node.id := by
        intro x hx hid
        have hsame := DbFactory.eq_of_id h.toLinked hfind (hdoc ▸ List.mem_append_left _ hx) hid
        have hne := hbefore x hx
        rw [hsame, hname] at hne
        cases hne
      have hafter : f.after node.id = behind := by
        rw [DbFactory.after, hdoc, List.dropWhile_append_of_pos (by simpa using hids)]
        simp
      have hlisted : (listed f).dropWhile (·.1 ≠ dname) =
          (node.name, node.body.assemblies) ::
            behind.map fun next => (next.name, next.body.assemblies) := by
        rw [listed, hdoc, List.map_append, List.dropWhile_append_of_pos]
        · simp [of_decide_eq_true hname]
        · simpa using hbefore
      simp only [hfind, hafter] at hvisit
      rw [RemovesAssembly, hlisted] at hkeep
      split at hvisit
      case isTrue => simp at hvisit
      case isFalse hsome =>
        rw [List.find?_append, find_below] at hvisit
        by_cases hmem : aname ∈ node.body.assemblies
        · rw [if_pos hmem, Option.some_or] at hvisit
          exact ⟨node, hdoc ▸ by simp, (Option.some.inj hvisit).symm⟩
        · rw [if_neg hmem, Option.none_or] at hvisit
          have hbehind := (hkeep.resolve_left hsome).resolve_left hmem
          rw [List.find?_map, Option.all_map] at hbehind
          obtain ⟨x, hx, hxvisit⟩ := find_behind behind hbehind visit hvisit
          exact ⟨x, hdoc ▸ by simp [hx], hxvisit⟩

theorem unlink_save (h : f.Cached pending) (hd : f.lookup dname = some (some d))
    {node : DbNode DeployableElement} (hnode : node ∈ f.doc) :
    ∃ f', (unlink f (.assembly node.id aname)).saveInstance dname = .ok f' ∧
      f'.Cached pending := by
  have hfind : f.find node.name = some node := h.toLinked.find_of_mem hnode
  have hlinked : (unlink f (.assembly node.id aname)).Linked := h.toLinked.rewrite hfind rfl rfl
  have hbody := DbFactory.body_rewrite h.toLinked hfind fun element =>
    { element with assemblies := element.assemblies.erase aname }
  obtain ⟨f', hsave, hsaves⟩ := DbFactory.saveInstance_of_object hlinked hd
  obtain ⟨id, hlookup⟩ := hsaves.lookup
  refine ⟨f', hsave, hsaves.sound, fun {n} hname hnone => ?_⟩
  rw [DbFactory.existsName, hlookup] at hname
  rw [hsaves.body] at hnone
  by_cases hn : n = dname
  · simp [hn] at hnone
  · rw [Function.update_of_ne hn] at hname hnone
    refine h.missing hname ?_
    rw [unlink, hbody] at hnone
    by_cases heq : n = node.name
    · simp [heq] at hnone
    · rwa [Function.update_of_ne heq] at hnone

end DeployableFactory

namespace Pcloudsh

open DeployableFactory (RemovesAssembly listed)

variable {s s' : Pcloudsh} {host : Host}

def Mirrors (s : Pcloudsh) : Prop := s.assemblies.Mirrors ∧ s.deployables.Mirrors

structure Cached (s : Pcloudsh) : Prop where
  assemblies : s.assemblies.Cached []
  deployables : s.deployables.Cached []

theorem Cached.sound (h : s.Cached) : s.Sound := ⟨h.assemblies.toSound, h.deployables.toSound⟩

/-- The command leaves no object behind whose name has no element. -/
def CommandKeeps (s : Pcloudsh) (host : Host) (options : List CString) : ShellCommand → Prop
  | .assemblyCreate =>
      match options with
      | [name, distro, arch] =>
          distro ∈ distros ∧ arch = "x86_64".toList →
            AssemblyFactory.CreateKeeps s.assemblies name
              (AssemblyFactory.jeosOf (distro ++ "-".toList ++ arch)) host
      | _ => True
  | .assemblyClone =>
      match options with
      | [source, dest] => AssemblyFactory.CloneKeeps s.assemblies source dest
      | _ => True
  | .assemblyDelete =>
      match options with
      | [name] => s.assemblies.existsName name
      | _ => True
  | .deployableCreate =>
      ∀ created ∈ createOptions options, s.deployables.existsName created.1 ∨
        created.2.1 ≠ .openstack ∨ host.create ≠ some false
  | .deployableAssemblyRemove =>
      match options with
      | [dname, aname] => RemovesAssembly (listed s.deployables) dname aname
      | _ => True
  | .assemblyList | .assemblyResourceAdd | .assemblyResourceRemove | .assemblyResourceList
  | .escalationAssemblySet | .escalationResourceSet | .deployableDelete | .deployableList
  | .deployableAssemblyAdd | .deployableAssemblyList => True

instance decidableCommandKeeps (s : Pcloudsh) (host : Host) (options : List CString) :
    ∀ command, Decidable (s.CommandKeeps host options command)
  | .assemblyCreate =>
      match options with
      | [_, _, _] => inferInstanceAs (Decidable (_ → AssemblyFactory.CreateKeeps _ _ _ _))
      | [] | [_] | [_, _] | _ :: _ :: _ :: _ :: _ => .isTrue trivial
  | .assemblyClone =>
      match options with
      | [_, _] => inferInstanceAs (Decidable (AssemblyFactory.CloneKeeps _ _ _))
      | [] | [_] | _ :: _ :: _ :: _ => .isTrue trivial
  | .assemblyDelete =>
      match options with
      | [_] => inferInstanceAs (Decidable (_ = true))
      | [] | _ :: _ :: _ => .isTrue trivial
  | .deployableCreate => inferInstanceAs (Decidable (∀ created ∈ _, _ ∨ _))
  | .deployableAssemblyRemove =>
      match options with
      | [_, _] => inferInstanceAs (Decidable (RemovesAssembly _ _ _))
      | [] | [_] | _ :: _ :: _ :: _ => .isTrue trivial
  | .assemblyList | .assemblyResourceAdd | .assemblyResourceRemove | .assemblyResourceList
  | .escalationAssemblySet | .escalationResourceSet | .deployableDelete | .deployableList
  | .deployableAssemblyAdd | .deployableAssemblyList => .isTrue trivial

/-- The line has no apostrophe, which ends a name in an XPath expression, and keeps the cache. -/
def KeepsMirror (s : Pcloudsh) : ShellInput → Prop
  | .line command options host =>
      (∀ word ∈ options, '\'' ∉ word) ∧ s.CommandKeeps host options command
  | .start _ _ => True

instance decidableKeepsMirror (s : Pcloudsh) : ∀ input, Decidable (s.KeepsMirror input)
  | .line _ _ _ => inferInstanceAs (Decidable ((∀ word ∈ _, _) ∧ CommandKeeps _ _ _ _))
  | .start _ _ => .isTrue trivial

theorem onAssemblies_ends (h : s.Cached) {r : Except AssemblyFactory AssemblyFactory}
    (hr : Ends DbFactory.Stored (DbFactory.Cached []) r) :
    Ends Stored Cached (s.onAssemblies r) := by
  cases r with
  | ok f => exact ⟨hr, h.deployables⟩
  | error f => exact ⟨hr, h.deployables.stored⟩

theorem onDeployables_ends (h : s.Cached) {r : Except DeployableFactory DeployableFactory}
    (hr : Ends DbFactory.Stored (DbFactory.Cached []) r) :
    Ends Stored Cached (s.onDeployables r) := by
  cases r with
  | ok f => exact ⟨h.assemblies, hr⟩
  | error f => exact ⟨h.assemblies.stored, hr⟩

theorem register_ends {f : AssemblyFactory} (h : f.Cached []) (modules : Modules)
    (name : CString) (infrastructure : Infrastructure) (depName : CString)
    (username : Option CString) (host : Host) :
    Ends DbFactory.Stored (DbFactory.Cached [])
      (AssemblyFactory.register modules f name infrastructure depName username host) := by
  by_cases hmod : modules.haveMod infrastructure
  · by_cases hobject : ∃ o, f.lookup name = some (some o)
    · obtain ⟨o, ho⟩ := hobject
      obtain ⟨f', hwrites, -, hregister⟩ :=
        AssemblyFactory.register_of_object h.toSound ho hmod depName username host
      rw [hregister]
      split
      case isTrue => exact hwrites.sound.stored
      case isFalse => exact h.writes_self hwrites
    · rw [AssemblyFactory.register, if_pos hmod,
        DbFactory.saveInstance_of_none (not_exists.mp hobject)]
      exact h.stored
  · rw [AssemblyFactory.register, if_neg hmod]
    exact h

theorem assemblyAdd_ends (h : s.Cached) {d : DbObject DeployableAttrs} {dname : CString}
    (hd : s.deployables.lookup dname = some (some d)) (aname : CString) (host : Host) :
    Ends Stored Cached (s.assemblyAdd .document d dname aname host) := by
  by_cases hname : s.assemblies.existsName aname
  · obtain ⟨f, f', d', hwrites, -, -, hwrites', -, hadd⟩ :=
      assemblyAdd_of_object .document h.sound hd hname host
    rw [hadd]
    split
    case isTrue => exact ⟨h.assemblies, h.deployables.writes_self hwrites⟩
    case isFalse =>
      have hcached : Cached { s with deployables := f' } :=
        ⟨h.assemblies, h.deployables.writes_self hwrites'⟩
      exact onAssemblies_ends hcached (register_ends h.assemblies _ _ _ _ _ _)
  · rw [assemblyAdd, if_neg hname]
    exact h

theorem assemblyRemove_ends (h : s.Cached) {d : DbObject DeployableAttrs} {dname : CString}
    (hd : s.deployables.lookup dname = some (some d)) {aname : CString}
    (hkeep : RemovesAssembly (listed s.deployables) dname aname) :
    Ends Stored Cached (s.assemblyRemove .document dname aname) := by
  by_cases hname : s.assemblies.existsName aname
  · by_cases hobject : ∃ a, s.assemblies.lookup aname = some (some a)
    · obtain ⟨a, ha⟩ := hobject
      obtain ⟨f, f', d', hwritesA, -, hsave, hwrites, -, hd', hremove⟩ :=
        assemblyRemove_of_object .document h.sound hd ha
      have hassemblies : f.Cached [] := h.assemblies.writes_self hwritesA
      have hdeployables : f'.Cached [] := h.deployables.writes_self hwrites
      rw [hremove]
      split
      case h_1 visit hvisit =>
        obtain ⟨node, hnode, rfl⟩ := DeployableFactory.find_document hwrites.sound hd'
          (hkeep.save h.deployables.toLinked hd hsave) hvisit
        obtain ⟨f'', hunlink, hcached⟩ := DeployableFactory.unlink_save hdeployables hd' hnode
        rw [hunlink]
        exact ⟨hassemblies, hcached⟩
      case h_2 => exact ⟨hassemblies, hdeployables⟩
    · rw [assemblyRemove, if_pos hname, DbFactory.modify_of_none (not_exists.mp hobject)]
      exact h.sound.stored
  · rw [assemblyRemove, if_neg hname]
    exact h

theorem deployableCreate_ends (h : s.Cached) {name : CString}
    (hnew : ¬s.deployables.existsName name) {infrastructure : Infrastructure}
    (hkeep : infrastructure ≠ .openstack ∨ host.create ≠ some false) (username monitor : CString) :
    Ends DbFactory.Stored (DbFactory.Cached []) (DeployableFactory.create s.deployableModules
      s.deployables name infrastructure username monitor host) := by
  refine (DeployableFactory.create_ends h.deployables.toSound hnew infrastructure username
    monitor host).mono (fun g hg => hg.1.stored) fun f' hf' => ?_
  rcases hf' with ⟨hwrites, -⟩ | ⟨hopenstack, hrefused, -⟩
  · exact h.deployables.writes_self hwrites
  · exact (hkeep.elim (· hopenstack) (· hrefused)).elim

theorem exec_ends (h : s.Cached) {command : ShellCommand} {options : List CString}
    (hkeep : s.CommandKeeps host options command) :
    Ends Stored Cached (s.exec .document host command options) := by
  unfold exec
  split
  case h_1 name distro arch =>
    split
    case isTrue hvalid =>
      exact onAssemblies_ends h (AssemblyFactory.create_ends h.assemblies (hkeep hvalid))
    case isFalse => exact h
  case h_2 => exact onAssemblies_ends h (AssemblyFactory.clone_ends h.assemblies hkeep)
  case h_3 => exact onAssemblies_ends h (AssemblyFactory.delete_ends h.assemblies hkeep)
  case h_4 =>
    split
    case isTrue => exact h
    case isFalse => exact h.sound.stored
  case h_5 =>
    exact onAssemblies_ends h (AssemblyFactory.resourceCommand_ends h.assemblies _ _)
  case h_6 =>
    exact onAssemblies_ends h (AssemblyFactory.resourceCommand_ends h.assemblies _ _)
  case h_7 =>
    exact onAssemblies_ends h (AssemblyFactory.resourceCommand_ends h.assemblies _ _)
  case h_8 =>
    exact onAssemblies_ends h (AssemblyFactory.escalationAssemblySet_ends h.assemblies _ _ _)
  case h_9 =>
    exact onAssemblies_ends h (AssemblyFactory.resourceCommand_ends h.assemblies _ _)
  case h_10 =>
    split
    case h_1 name inf user monitor hoptions =>
      split
      case isTrue => exact h
      case isFalse hnew =>
        have hcreate := (hkeep _ hoptions).resolve_left hnew
        exact onDeployables_ends h (deployableCreate_ends h hnew hcreate user monitor)
    case h_2 => exact h
  case h_11 name =>
    refine onDeployables_ends h ?_
    refine (DeployableFactory.delete_ends h.deployables.toSound name host).mono ?_ ?_
    · rintro g rfl
      exact h.deployables.stored
    · exact fun f' heffect => h.deployables.deleted heffect
  case h_12 =>
    split
    case isTrue => exact h
    case isFalse => exact h.sound.stored
  case h_13 => exact withDeployable_ends h h.sound.stored fun d hd => assemblyAdd_ends h hd _ host
  case h_14 =>
    exact withDeployable_ends h h.sound.stored fun d hd => assemblyRemove_ends h hd hkeep
  case h_15 =>
    refine withDeployable_ends h h.sound.stored fun d hd => ?_
    simp only [assemblyList]
    split
    case isTrue => exact h
    case isFalse => exact h.sound.stored
  case h_16 => exact h

theorem Stored.cached_start (h : s.Stored) (assemblyModules deployableModules : Modules) :
    (s.start assemblyModules deployableModules).Cached :=
  ⟨DbFactory.cached_load (h.start assemblyModules deployableModules).assemblies,
    DbFactory.cached_load (h.start assemblyModules deployableModules).deployables⟩

theorem Cached.step (h : s.Cached) {input : ShellInput} (hkeep : s.KeepsMirror input)
    (hstep : s.step .document input = .ok s') : s'.Cached := by
  cases input with
  | start assemblyModules deployableModules =>
      obtain rfl := Except.ok.inj hstep
      exact h.sound.stored.cached_start _ _
  | line command options host =>
      exact step_line_of_ends (exec_ends h hkeep.2) (fun _ => Stored.cached_start) hstep

/--
A shell that loads its files, and is then given lines that keep the cache, finds a name in
either database exactly if the document has an element for it.
-/
theorem mirrors_of_keepsMirror (h : s.Stored) (assemblyModules deployableModules : Modules)
    {inputs : List ShellInput}
    (along : Along (step .document) KeepsMirror (s.start assemblyModules deployableModules) inputs)
    (hrun : run (step .document) (s.start assemblyModules deployableModules) inputs = .ok s') :
    s'.Mirrors := by
  have hcached : s'.Cached :=
    run_invariant (fun h hkeep hstep => Cached.step h hkeep hstep)
      (h.cached_start assemblyModules deployableModules) along hrun
  exact ⟨hcached.assemblies.mirrors, hcached.deployables.mirrors⟩

def deployLines : List ShellInput :=
  [.line .deployableCreate ["web".toList] wellEquipped,
    .line .deployableAssemblyAdd ["web".toList, "db".toList] wellEquipped,
    .line .deployableCreate ["db".toList] wellEquipped,
    .line .deployableAssemblyRemove ["web".toList, "db".toList] wellEquipped,
    .line .assemblyDelete ["db".toList] wellEquipped,
    .line .deployableList [] wellEquipped]

theorem mirrors_of_keepsMirror_deployLines :
    ∃ s', run (step .document) (oneAssembly.start ⟨true, true⟩ ⟨true, true⟩) deployLines = .ok s' ∧
      s'.deployables.existsName "web".toList ∧ s'.Mirrors := by
  have hlines : endsIn (step .document) (oneAssembly.start ⟨true, true⟩ ⟨true, true⟩) deployLines
      (fun s' => s'.deployables.existsName "web".toList) = true := by
    decide +kernel
  obtain ⟨s', hrun, hweb⟩ := exists_of_endsIn hlines
  exact ⟨s', hrun, hweb, mirrors_of_keepsMirror oneAssembly_stored _ _ (by decide +kernel) hrun⟩

def unlinkLines : List ShellInput :=
  [.line .assemblyClone ["db".toList, "mail".toList] wellEquipped,
    .line .deployableCreate ["web".toList] wellEquipped,
    .line .deployableAssemblyAdd ["web".toList, "mail".toList] wellEquipped,
    .line .deployableCreate ["db".toList] wellEquipped,
    .line .deployableAssemblyRemove ["web".toList, "db".toList] wellEquipped]

/--
`assembly_create` for which no template was provided only prints that it is missing, but the
assembly exists from then on.  `deployable_assembly_remove` of an assembly that the deployable
does not list unlinks a later deployable of that name, which still exists.
-/
theorem created_without_template_exists :
    oneAssembly.Stored ∧
      (∃ s', run (step .document) (oneAssembly.start ⟨true, true⟩ ⟨true, true⟩)
          [.line .assemblyCreate ["web".toList, "F16".toList, "x86_64".toList]
            { wellEquipped with tdl := false }] = .ok s' ∧
        s'.assemblies.existsName "web".toList ∧
        (¬∃ node ∈ s'.assemblies.doc, node.name = "web".toList) ∧ ¬s'.Mirrors) ∧
      ∃ s', run (step .document) (oneAssembly.start ⟨true, true⟩ ⟨true, true⟩) unlinkLines =
          .ok s' ∧
        s'.deployables.existsName "db".toList ∧
        (¬∃ node ∈ s'.deployables.doc, node.name = "db".toList) ∧ ¬s'.Mirrors := by
  refine ⟨oneAssembly_stored, ?_, ?_⟩
  · have hline : endsIn (step .document) (oneAssembly.start ⟨true, true⟩ ⟨true, true⟩)
        [.line .assemblyCreate ["web".toList, "F16".toList, "x86_64".toList]
          { wellEquipped with tdl := false }]
        (fun s' => s'.assemblies.existsName "web".toList ∧
          ¬∃ node ∈ s'.assemblies.doc, node.name = "web".toList) = true := by
      decide +kernel
    obtain ⟨s', hrun, hs'⟩ := exists_of_endsIn hline
    obtain ⟨hexists, hnone⟩ := of_decide_eq_true hs'
    exact ⟨s', hrun, hexists, hnone, fun hmirrors => hnone ((hmirrors.1 _).mp hexists)⟩
  · have hlines : endsIn (step .document) (oneAssembly.start ⟨true, true⟩ ⟨true, true⟩)
        unlinkLines (fun s' => s'.deployables.existsName "db".toList ∧
          ¬∃ node ∈ s'.deployables.doc, node.name = "db".toList) = true := by
      decide +kernel
    obtain ⟨s', hrun, hs'⟩ := exists_of_endsIn hlines
    obtain ⟨hexists, hnone⟩ := of_decide_eq_true hs'
    exact ⟨s', hrun, hexists, hnone, fun hmirrors => hnone ((hmirrors.2 _).mp hexists)⟩

end Pcloudsh

end PacemakerCloud

import PacemakerCloud.Pcloudsh.Effects

/-!
# Membership of a deployable

That an assembly belongs to a deployable is stored twice: in the element of the assembly and
below the element of the deployable.  The two are written by different objects, one after the
other, and an attribute that was written once is never removed.  They agree in every run in
which an assembly joins at most one deployable and does not leave it.
-/

namespace PacemakerCloud

open Foundation
open AssemblyFactory (deployment)
open DeployableFactory (members)

/-- Each assembly has the one deployment that lists it. -/
def Agrees (deployment : CString → Option CString) (members : CString → List CString) : Prop :=
  ∀ a d, deployment a = some d ↔ a ∈ members d

namespace Agrees

variable {deployment : CString → Option CString} {members : CString → List CString}
  {a d d' : CString}

theorem unique (h : Agrees deployment members) (hd : a ∈ members d) (hd' : a ∈ members d') :
    d = d' :=
  Option.some.inj (((h a d).mpr hd).symm.trans ((h a d').mpr hd'))

theorem join (h : Agrees deployment members) (hnone : deployment a = none) (d : CString) :
    Agrees (Function.update deployment a (some d))
      (Function.update members d (members d ++ [a])) := by
  intro a' d'
  by_cases ha : a' = a
  · subst ha
    have hother : ∀ d, a' ∉ members d := fun d hd => by
      simpa [hnone] using (h a' d).mpr hd
    by_cases hd : d' = d
    · simp [hd]
    · simp [hd, Ne.symm hd, hother d']
  · rw [Function.update_of_ne ha, h a' d']
    by_cases hd : d' = d
    · simp [hd, ha]
    · rw [Function.update_of_ne hd]

end Agrees

namespace Pcloudsh

variable {s s' : Pcloudsh} {host : Host}

def persistedDeployment (s : Pcloudsh) (a : CString) : Option CString :=
  (s.assemblies.file.find? (·.name = a)).bind (·.body.deployment)

def persistedMembers (s : Pcloudsh) (d : CString) : List CString :=
  ((s.deployables.file.find? (·.name = d)).map (·.body.assemblies)).getD []

def Consistent (s : Pcloudsh) : Prop := Agrees s.persistedDeployment s.persistedMembers

theorem Sound.persistedDeployment (h : s.Sound) :
    s.persistedDeployment = deployment s.assemblies := by
  funext a
  rw [Pcloudsh.persistedDeployment, h.assemblies.saved, deployment, DbFactory.body,
    Option.bind_map]
  rfl

theorem Sound.persistedMembers (h : s.Sound) : s.persistedMembers = members s.deployables := by
  funext d
  rw [Pcloudsh.persistedMembers, h.deployables.saved, members, DbFactory.body, Option.map_map]
  rfl

theorem Sound.consistent_iff (h : s.Sound) :
    s.Consistent ↔ Agrees (deployment s.assemblies) (members s.deployables) := by
  rw [Consistent, h.persistedDeployment, h.persistedMembers]

theorem consistent_start (assemblyModules deployableModules : Modules) :
    (s.start assemblyModules deployableModules).Consistent ↔ s.Consistent := by
  have hdeployment : (s.start assemblyModules deployableModules).persistedDeployment =
      s.persistedDeployment := by
    funext a
    rw [persistedDeployment, start, AssemblyFactory.load, DbFactory.file_load,
      persistedDeployment]
  have hmembers : (s.start assemblyModules deployableModules).persistedMembers =
      s.persistedMembers := by
    funext d
    rw [persistedMembers, start, DeployableFactory.load, DbFactory.file_load, persistedMembers]
  rw [Consistent, hdeployment, hmembers, Consistent]

/-! ## Lines that keep the files consistent -/

/-- An assembly that is going to be listed can be registered, and has no deployment yet. -/
def AddKeeps (s : Pcloudsh) (dname aname : CString) : Prop :=
  match s.deployables.lookup dname with
  | some (some d) =>
      s.assemblies.existsName aname → aname ∉ members s.deployables dname →
        s.assemblyModules.haveMod d.attrs.infrastructure ∧
          s.assemblies.lookup aname ≠ some none ∧ deployment s.assemblies aname = none
  | some none | none => True

/-- An assembly that is taken off the list of a deployable was not on it. -/
def RemoveKeeps (s : Pcloudsh) (dname aname : CString) : Prop :=
  s.deployables.lookup dname ≠ some none → s.assemblies.lookup aname ≠ some none →
    aname ∉ members s.deployables dname

/-- A deployable that is deleted lists no assemblies. -/
def DeleteKeeps (s : Pcloudsh) (name : CString) (host : Host) : Prop :=
  match s.deployables.lookup name with
  | some (some d) =>
      d.attrs.infrastructure = .openstack ∧ host.delete = false ∨
        members s.deployables name = []
  | some none | none => True

def MembershipKeeps (s : Pcloudsh) (host : Host) (options : List CString) : ShellCommand → Prop
  | .deployableCreate => True
  | .deployableAssemblyAdd =>
      match options with
      | [dname, aname] => s.AddKeeps dname aname
      | _ => True
  | .deployableAssemblyRemove =>
      match options with
      | [dname, aname] => s.RemoveKeeps dname aname
      | _ => True
  | .deployableDelete =>
      match options with
      | [name] => s.DeleteKeeps name host
      | _ => True
  | .assemblyCreate | .assemblyClone | .assemblyDelete | .assemblyList | .assemblyResourceAdd
  | .assemblyResourceRemove | .assemblyResourceList | .escalationAssemblySet
  | .escalationResourceSet | .deployableList | .deployableAssemblyList => False

/-- The line has no apostrophe, which ends a name in an XPath expression, and keeps membership. -/
def JoinsOnce (s : Pcloudsh) : ShellInput → Prop
  | .line command options host =>
      (∀ word ∈ options, '\'' ∉ word) ∧ s.MembershipKeeps host options command
  | .start _ _ => True

section Decidable

instance decidableAddKeeps (s : Pcloudsh) (dname aname : CString) :
    Decidable (s.AddKeeps dname aname) :=
  match h : s.deployables.lookup dname with
  | some (some d) =>
      decidable_of_iff (s.assemblies.existsName aname →
          (members s.deployables dname).contains aname = false →
            s.assemblyModules.haveMod d.attrs.infrastructure ∧
              s.assemblies.lookup aname ≠ some none ∧ deployment s.assemblies aname = none)
        (by simp [AddKeeps, h])
  | some none | none => .isTrue (by rw [AddKeeps, h]; trivial)

instance decidableRemoveKeeps (s : Pcloudsh) (dname aname : CString) :
    Decidable (s.RemoveKeeps dname aname) :=
  inferInstanceAs (Decidable (_ → _ → _))

instance decidableDeleteKeeps (s : Pcloudsh) (name : CString) (host : Host) :
    Decidable (s.DeleteKeeps name host) :=
  match h : s.deployables.lookup name with
  | some (some _) => decidable_of_iff (_ ∧ _ ∨ _) (by rw [DeleteKeeps, h])
  | some none | none => .isTrue (by rw [DeleteKeeps, h]; trivial)

instance decidableMembershipKeeps (s : Pcloudsh) (host : Host) (options : List CString) :
    ∀ command, Decidable (s.MembershipKeeps host options command)
  | .deployableCreate => .isTrue trivial
  | .deployableAssemblyAdd =>
      match options with
      | [dname, aname] => decidableAddKeeps s dname aname
      | [] | [_] | _ :: _ :: _ :: _ => .isTrue trivial
  | .deployableAssemblyRemove =>
      match options with
      | [dname, aname] => decidableRemoveKeeps s dname aname
      | [] | [_] | _ :: _ :: _ :: _ => .isTrue trivial
  | .deployableDelete =>
      match options with
      | [name] => decidableDeleteKeeps s name host
      | [] | _ :: _ :: _ => .isTrue trivial
  | .assemblyCreate | .assemblyClone | .assemblyDelete | .assemblyList | .assemblyResourceAdd
  | .assemblyResourceRemove | .assemblyResourceList | .escalationAssemblySet
  | .escalationResourceSet | .deployableList | .deployableAssemblyList => .isFalse id

instance decidableJoinsOnce (s : Pcloudsh) : ∀ input, Decidable (s.JoinsOnce input)
  | .line _ _ _ => inferInstanceAs (Decidable ((∀ word ∈ _, _) ∧ MembershipKeeps _ _ _ _))
  | .start _ _ => .isTrue trivial

end Decidable

structure Persists (s : Pcloudsh) : Prop where
  sound : s.Sound
  agrees : Agrees (deployment s.assemblies) (members s.deployables)

theorem any_children {f f' : DeployableFactory} {d : DbObject DeployableAttrs}
    {dname aname : CString} (hwrites : f.Writes dname f')
    (hd : f'.lookup dname = some (some d)) :
    (Iteration.children.visits f' dname).any (·.name = aname) =
      decide (aname ∈ members f' dname) := by
  obtain ⟨node, hnode⟩ := hwrites.find
  rw [← List.isSome_find?, DeployableFactory.find_children hwrites.sound hd hnode]
  by_cases hmem : aname ∈ members f' dname
  · simp [hmem]
  · simp [hmem]

theorem assemblyAdd_persists (h : s.Persists) {d : DbObject DeployableAttrs}
    {dname aname : CString} (hd : s.deployables.lookup dname = some (some d))
    (hkeep : s.AddKeeps dname aname) (host : Host) :
    Ends Persists Persists (s.assemblyAdd .children d dname aname host) := by
  by_cases hname : s.assemblies.existsName aname
  · obtain ⟨f, f', d', hwrites, hmembers, hd', hwrites', hmembers', hadd⟩ :=
      assemblyAdd_of_object .children h.sound hd hname host
    rw [hadd, any_children hwrites hd', hmembers]
    split
    case isTrue =>
      refine ⟨⟨h.sound.assemblies, hwrites.sound⟩, ?_⟩
      rw [hmembers]
      exact h.agrees
    case isFalse hnew =>
      simp only [AddKeeps, hd] at hkeep
      obtain ⟨hmod, hobject, hnone⟩ := hkeep hname (by simpa using hnew)
      obtain ⟨a, ha⟩ : ∃ a, s.assemblies.lookup aname = some (some a) := by
        obtain ⟨x, hx⟩ := Option.isSome_iff_exists.mp hname
        cases x with
        | none => exact absurd hx hobject
        | some a => exact ⟨a, hx⟩
      obtain ⟨g, hwritesA, hdeployment, hregister⟩ :=
        AssemblyFactory.register_of_object h.sound.assemblies ha hmod dname d.attrs.username host
      have hpersists : Persists { s with assemblies := g, deployables := f' } := by
        refine ⟨⟨hwritesA.sound, hwrites'.sound⟩, ?_⟩
        rw [hdeployment, hmembers']
        exact h.agrees.join hnone dname
      rw [hregister]
      -- the image may not be registered, but both files are written by then
      split
      case isTrue => exact hpersists
      case isFalse => exact hpersists
  · rw [assemblyAdd, if_neg hname]
    exact h

theorem assemblyRemove_persists (h : s.Persists) {d : DbObject DeployableAttrs}
    {dname aname : CString} (hd : s.deployables.lookup dname = some (some d))
    (hkeep : s.RemoveKeeps dname aname) :
    Ends Persists Persists (s.assemblyRemove .children dname aname) := by
  by_cases hname : s.assemblies.existsName aname
  · by_cases hobject : ∃ a, s.assemblies.lookup aname = some (some a)
    · obtain ⟨a, ha⟩ := hobject
      obtain ⟨f, f', d', hwritesA, hdeployment, -, hwritesD, hmembers, hd', hremove⟩ :=
        assemblyRemove_of_object .children h.sound hd ha
      have hnew : aname ∉ members s.deployables dname := hkeep (by simp [hd]) (by simp [ha])
      obtain ⟨node, hnode⟩ := hwritesD.find
      rw [hremove, DeployableFactory.find_children hwritesD.sound hd' hnode, hmembers,
        if_neg hnew]
      refine ⟨⟨hwritesA.sound, hwritesD.sound⟩, ?_⟩
      rw [hdeployment, hmembers]
      exact h.agrees
    · rw [assemblyRemove, if_pos hname, DbFactory.modify_of_none (not_exists.mp hobject)]
      exact h
  · rw [assemblyRemove, if_neg hname]
    exact h

def SameMembers (f f' : DeployableFactory) : Prop := f'.Sound ∧ members f' = members f

theorem sameMembers_of_body {f f' : DeployableFactory} (hsound : f'.Sound)
    (hbody : f'.body = f.body) : SameMembers f f' := by
  refine ⟨hsound, ?_⟩
  funext n
  rw [members, members, hbody]

theorem onDeployables_persists (h : s.Persists)
    {r : Except DeployableFactory DeployableFactory}
    (hr : Ends (SameMembers s.deployables) (SameMembers s.deployables) r) :
    Ends Persists Persists (s.onDeployables r) := by
  have hsame : ∀ f, SameMembers s.deployables f → Persists { s with deployables := f } := by
    rintro f ⟨hsound, hmembers⟩
    refine ⟨⟨h.sound.assemblies, hsound⟩, ?_⟩
    rw [hmembers]
    exact h.agrees
  cases r with
  | ok f => exact hsame f hr
  | error f => exact hsame f hr

theorem deployableCreate_persists (h : s.Persists) {name : CString}
    (hnew : ¬s.deployables.existsName name) (infrastructure : Infrastructure)
    (user monitor : CString) (host : Host) :
    Ends Persists Persists (s.onDeployables (DeployableFactory.create s.deployableModules
      s.deployables name infrastructure user monitor host)) := by
  refine onDeployables_persists h ?_
  refine (DeployableFactory.create_ends h.sound.deployables hnew infrastructure user monitor
    host).mono (fun g hg => sameMembers_of_body hg.1 hg.2) fun f hf => ?_
  rcases hf with ⟨hwrites, hmembers⟩ | ⟨-, -, hsound, hbody⟩
  · exact ⟨hwrites.sound, hmembers⟩
  · exact sameMembers_of_body hsound hbody

theorem deployableDelete_persists (h : s.Persists) {name : CString}
    (hkeep : s.DeleteKeeps name host) :
    Ends Persists Persists
      (s.onDeployables (DeployableFactory.delete s.deployables name host)) := by
  refine onDeployables_persists h ?_
  have hself : SameMembers s.deployables s.deployables := ⟨h.sound.deployables, rfl⟩
  have hdelete : members s.deployables name = [] → Ends (SameMembers s.deployables)
      (SameMembers s.deployables) (DeployableFactory.delete s.deployables name host) := by
    intro hnone
    refine (DeployableFactory.delete_ends h.sound.deployables name host).mono ?_ ?_
    · rintro g rfl
      exact hself
    · rintro f (⟨rfl, -⟩ | ⟨hsound, hbody, -⟩)
      · exact hself
      · refine ⟨hsound, ?_⟩
        funext n
        by_cases hn : n = name
        · rw [hn, hnone, members, hbody]
          simp
        · rw [members, hbody, Function.update_of_ne hn, members]
  unfold DeleteKeeps at hkeep
  split at hkeep
  case h_1 d hd =>
    rcases hkeep with hraises | hnone
    · rw [DeployableFactory.delete, hd]
      simp only [DeployableFactory.deleteWith, hraises, and_self, if_true]
      exact hself
    · exact hdelete hnone
  case h_2 hd =>
    rw [DeployableFactory.delete, hd]
    exact hself
  case h_3 hd =>
    refine hdelete ?_
    have hbody : s.deployables.body name = none :=
      h.sound.deployables.toLinked.body_of_new (by simp [DbFactory.existsName, hd])
    rw [members, hbody]
    rfl

theorem exec_persists (h : s.Persists) {command : ShellCommand} {options : List CString}
    (hkeep : s.MembershipKeeps host options command) :
    Ends Persists Persists (s.exec .children host command options) := by
  unfold exec
  split
  case h_10 =>
    split
    case h_1 =>
      split
      case isTrue => exact h
      case isFalse hnew => exact deployableCreate_persists h hnew _ _ _ host
    case h_2 => exact h
  case h_11 => exact deployableDelete_persists h hkeep
  case h_13 => exact withDeployable_ends h h fun d hd => assemblyAdd_persists h hd hkeep host
  case h_14 => exact withDeployable_ends h h fun d hd => assemblyRemove_persists h hd hkeep
  case h_16 => exact h
  -- no other command is one of the four
  all_goals exact hkeep.elim

theorem Persists.start (h : s.Persists) (assemblyModules deployableModules : Modules) :
    (s.start assemblyModules deployableModules).Persists := by
  have hsound := h.sound.stored.start assemblyModules deployableModules
  refine ⟨hsound, hsound.consistent_iff.mp ?_⟩
  exact (consistent_start _ _).mpr (h.sound.consistent_iff.mpr h.agrees)

theorem Persists.step (h : s.Persists) {input : ShellInput} (hkeep : s.JoinsOnce input)
    (hstep : s.step .children input = .ok s') : s'.Persists := by
  cases input with
  | start assemblyModules deployableModules =>
      obtain rfl := Except.ok.inj hstep
      exact h.start _ _
  | line command options host =>
      exact step_line_of_ends (exec_persists h hkeep.2) (fun _ => Persists.start) hstep

/--
A shell that loads consistent files, and in which an assembly joins at most one deployable and
does not leave it, leaves consistent files; an assembly is then a member of one deployable only.
-/
theorem consistent_of_joinsOnce (h : s.Stored) (hconsistent : s.Consistent)
    (assemblyModules deployableModules : Modules) {inputs : List ShellInput}
    (along : Along (step .children) JoinsOnce (s.start assemblyModules deployableModules) inputs)
    (hrun : run (step .children) (s.start assemblyModules deployableModules) inputs = .ok s') :
    s'.Consistent ∧
      ∀ a d d', a ∈ s'.persistedMembers d → a ∈ s'.persistedMembers d' → d = d' := by
  have hsound := h.start assemblyModules deployableModules
  have hstart : (s.start assemblyModules deployableModules).Persists :=
    ⟨hsound, hsound.consistent_iff.mp ((consistent_start _ _).mpr hconsistent)⟩
  have hpersists : s'.Persists :=
    run_invariant (fun h hkeep hstep => Persists.step h hkeep hstep) hstart along hrun
  have hconsistent' : s'.Consistent := hpersists.sound.consistent_iff.mpr hpersists.agrees
  exact ⟨hconsistent', fun a d d' hd hd' => hconsistent'.unique hd hd'⟩

theorem oneAssembly_consistent : oneAssembly.Consistent := by
  intro a d
  have hmembers : oneAssembly.persistedMembers d = [] := rfl
  have hdeployment : oneAssembly.persistedDeployment a = none := by
    simp [persistedDeployment, oneAssembly]
  rw [hmembers, hdeployment]
  simp

def joinLines : List ShellInput :=
  [.line .deployableCreate ["web".toList] wellEquipped,
    .line .deployableAssemblyAdd ["web".toList, "db".toList] wellEquipped,
    .start ⟨true, true⟩ ⟨true, true⟩,
    .line .deployableCreate ["mail".toList, "openstack".toList, "root".toList] wellEquipped,
    .line .deployableAssemblyRemove ["mail".toList, "db".toList] wellEquipped,
    .line .deployableDelete ["mail".toList] wellEquipped]

theorem consistent_of_joinsOnce_joinLines :
    ∃ s', run (step .children) (oneAssembly.start ⟨true, true⟩ ⟨true, true⟩) joinLines = .ok s' ∧
      "db".toList ∈ s'.persistedMembers "web".toList ∧ s'.Consistent := by
  have hlines : endsIn (step .children) (oneAssembly.start ⟨true, true⟩ ⟨true, true⟩) joinLines
      (fun s' => "db".toList ∈ s'.persistedMembers "web".toList) = true := by
    decide +kernel
  obtain ⟨s', hrun, hmember⟩ := exists_of_endsIn hlines
  refine ⟨s', hrun, of_decide_eq_true hmember, ?_⟩
  exact (consistent_of_joinsOnce oneAssembly_stored oneAssembly_consistent _ _
    (by decide +kernel) hrun).1

/-- An assembly that was removed keeps its deployment, which does not list it any more. -/
theorem removed_assembly_keeps_deployment :
    oneAssembly.Stored ∧ oneAssembly.Consistent ∧
      ∃ s', run (step .children) (oneAssembly.start ⟨true, true⟩ ⟨true, true⟩)
          [.line .deployableCreate ["web".toList] wellEquipped,
            .line .deployableAssemblyAdd ["web".toList, "db".toList] wellEquipped,
            .line .deployableAssemblyRemove ["web".toList, "db".toList] wellEquipped] = .ok s' ∧
        s'.persistedDeployment "db".toList = some "web".toList ∧
        "db".toList ∉ s'.persistedMembers "web".toList ∧ ¬s'.Consistent := by
  refine ⟨oneAssembly_stored, oneAssembly_consistent, ?_⟩
  have hlines : endsIn (step .children) (oneAssembly.start ⟨true, true⟩ ⟨true, true⟩)
      [.line .deployableCreate ["web".toList] wellEquipped,
        .line .deployableAssemblyAdd ["web".toList, "db".toList] wellEquipped,
        .line .deployableAssemblyRemove ["web".toList, "db".toList] wellEquipped]
      (fun s' => s'.persistedDeployment "db".toList = some "web".toList ∧
        "db".toList ∉ s'.persistedMembers "web".toList) = true := by
    decide +kernel
  obtain ⟨s', hrun, hs'⟩ := exists_of_endsIn hlines
  obtain ⟨hdeployment, hmember⟩ := of_decide_eq_true hs'
  exact ⟨s', hrun, hdeployment, hmember, fun h => hmember ((h _ _).mp hdeployment)⟩

end Pcloudsh

end PacemakerCloud

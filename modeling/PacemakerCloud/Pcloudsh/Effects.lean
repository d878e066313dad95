import PacemakerCloud.Pcloudsh

/-!
# What the commands write

The databases as a command sees them: the deployment of an assembly and the members of a
deployable, both by name.  For each operation that several commands share, its effect on them.
-/

namespace PacemakerCloud

open Foundation

namespace AssemblyFactory

variable {f : AssemblyFactory} {name : CString} {modules : Modules}
  {node : Option (DbNode AssemblyAttrs)} {o : DbObject AssemblyAttrs}

def deployment (f : AssemblyFactory) (name : CString) : Option CString :=
  (f.body name).bind AssemblyAttrs.deployment

theorem assembly_linked (hnode : ∀ x ∈ node, x.name = name) :
    (assembly node name).name = name ∧ (assembly node name).xmlNode = node.map DbNode.id := by
  cases node with
  | none => exact ⟨rfl, rfl⟩
  | some x => exact ⟨hnode x rfl, rfl⟩

theorem createInstance_linked (hnode : ∀ x ∈ node, x.name = name)
    {infrastructure : Option Infrastructure}
    (ho : createInstance modules node name infrastructure = some o) :
    o.name = name ∧ o.xmlNode = node.map DbNode.id := by
  have hassembly := assembly_linked hnode
  cases infrastructure with
  | none =>
      obtain rfl := Option.some.inj ho
      exact hassembly
  | some infrastructure =>
      simp only [createInstance] at ho
      split at ho
      case isTrue =>
        obtain rfl := Option.some.inj ho
        exact hassembly
      case isFalse => cases ho

theorem sound_load {file : List (DbNode AssemblyAttrs)} {nodeCount : Nat}
    (h : DbFactory.Distinct file nodeCount) : (load modules file nodeCount).Sound := by
  refine DbFactory.sound_load h fun node o ho => ?_
  refine createInstance_linked (fun x hx => ?_) ho
  rw [Option.some.inj hx]

theorem get_of_exists (h : f.existsName name) : get f name = f := if_pos h

theorem get_of_new (h : f.Sound) (hnew : ¬f.existsName name) :
    (get f name).Sound ∧ (get f name).body = f.body ∧
      (get f name).lookup =
        Function.update f.lookup name (some (some (assembly (f.find name) name))) := by
  rw [get, if_neg hnew]
  refine ⟨⟨h.toLinked.put fun o ho => ?_, h.saved⟩, rfl, DbFactory.lookup_put _⟩
  obtain rfl := Option.some.inj ho
  exact assembly_linked fun x hx => DbFactory.name_of_find hx

theorem register_of_object (h : f.Sound) (ho : f.lookup name = some (some o))
    {infrastructure : Infrastructure} (hmod : modules.haveMod infrastructure)
    (depName : CString) (username : Option CString) (host : Host) :
    ∃ f', f.Writes name f' ∧
      deployment f' = Function.update (deployment f) name (some depName) ∧
      register modules f name infrastructure depName username host =
        if infrastructure = .openstack ∧ host.register = false then .error f' else .ok f' := by
  obtain ⟨f₁, hsave, hsaves⟩ := DbFactory.saveInstance_of_object h.toLinked ho
  obtain ⟨a, hcreate⟩ : ∃ a, createInstance modules (f₁.find name) name (some infrastructure) =
      some a := ⟨_, if_pos hmod⟩
  have hlinked : a.name = name ∧ a.xmlNode = (f₁.find name).map DbNode.id :=
    createInstance_linked (fun x hx => DbFactory.name_of_find hx) hcreate
  let attrs := { a.attrs with username := username, deployment := some depName }
  have hput : (f₁.put name (some { a with attrs := attrs })).Linked := by
    refine hsaves.sound.toLinked.put fun o' ho' => ?_
    obtain rfl := Option.some.inj ho'
    exact hlinked
  have hobject : (f₁.put name (some { a with attrs := attrs })).lookup name =
      some (some { a with attrs := attrs }) := by
    rw [DbFactory.lookup_put, Function.update_self]
  obtain ⟨f₂, hsave₂, hsaves₂⟩ := DbFactory.saveInstance_of_object hput hobject
  obtain ⟨id, hlookup⟩ := hsaves.lookup
  obtain ⟨id₂, hlookup₂⟩ := hsaves₂.lookup
  rw [DbFactory.lookup_put, hlookup, Function.update_idem, Function.update_idem] at hlookup₂
  have hbody : f₂.body = Function.update f.body name
      (some (AssemblyAttrs.write (f₁.body name) attrs)) := by
    rw [hsaves₂.body, DbFactory.body_put, hsaves.body, Function.update_idem]
    rfl
  refine ⟨f₂, ⟨hsaves₂.sound, ⟨_, hbody⟩, ⟨_, hlookup₂⟩⟩, ?_, ?_⟩
  · funext n
    rw [deployment, hbody]
    by_cases hn : n = name
    · subst hn
      cases f₁.body n <;> simp [AssemblyAttrs.write, attrs]
    · simp [hn, deployment]
  · rw [register, if_pos hmod, hsave]
    simp only [ok_bind, hcreate]
    rw [hsave₂]
    rfl

theorem removed_of_object (h : f.Sound) (ho : f.lookup name = some (some o)) :
    ∃ f₁ f₂, (f.modify name fun attrs => { attrs with deployment := none }) = .ok f₁ ∧
      f₁.saveInstance name = .ok f₂ ∧ f.Writes name f₂ ∧ deployment f₂ = deployment f := by
  obtain ⟨f₁, hmodify, hsound, hbody, hlookup⟩ :=
    DbFactory.modify_of_object h ho fun attrs => { attrs with deployment := none }
  have ho₁ : f₁.lookup name =
      some (some { o with attrs := { o.attrs with deployment := none } }) := by
    rw [hlookup, Function.update_self]
  obtain ⟨f₂, hsave, hsaves⟩ := DbFactory.saveInstance_of_object hsound.toLinked ho₁
  have hbody₂ := hsaves.body
  rw [hbody] at hbody₂
  obtain ⟨id, hlookup₂⟩ := hsaves.lookup
  rw [hlookup, Function.update_idem] at hlookup₂
  refine ⟨f₁, f₂, hmodify, hsave, ⟨hsaves.sound, ⟨_, hbody₂⟩, ⟨_, hlookup₂⟩⟩, ?_⟩
  funext n
  rw [deployment, hbody₂, deployment]
  by_cases hn : n = name
  · subst hn
    cases hold : f.body n <;> simp [DbRecord.write, AssemblyAttrs.write]
  · simp [hn]

end AssemblyFactory

namespace DeployableFactory

variable {f : DeployableFactory} {name : CString} {modules : Modules}
  {d : DbObject DeployableAttrs}

def members (f : DeployableFactory) (name : CString) : List CString :=
  ((f.body name).map DeployableElement.assemblies).getD []

theorem members_of_body {f' : DeployableFactory} {element : DeployableElement}
    (h : f'.body = Function.update f.body name (some element)) :
    members f' = Function.update (members f) name element.assemblies := by
  funext n
  rw [members, h]
  by_cases hn : n = name
  · simp [hn]
  · simp [hn, members]

theorem createInstance_linked {node : Option (DbNode DeployableElement)}
    (hnode : ∀ x ∈ node, x.name = name) {infrastructure : Infrastructure} {username : CString}
    (hd : createInstance modules node name infrastructure username = some d) :
    d.name = name ∧ d.xmlNode = node.map DbNode.id ∧ d.attrs.infrastructure = infrastructure := by
  unfold createInstance at hd
  split at hd
  case isTrue =>
    cases node with
    | none =>
        obtain rfl := Option.some.inj hd
        exact ⟨rfl, rfl, rfl⟩
    | some x =>
        obtain rfl := Option.some.inj hd
        exact ⟨hnode x rfl, rfl, rfl⟩
  case isFalse => cases hd

theorem sound_load {file : List (DbNode DeployableElement)} {nodeCount : Nat}
    (h : DbFactory.Distinct file nodeCount) : (load modules file nodeCount).Sound := by
  refine DbFactory.sound_load h fun node d hd => ?_
  have hlinked := createInstance_linked (fun x hx => by rw [Option.some.inj hx]) hd
  exact ⟨hlinked.1, hlinked.2.1⟩

theorem find_below (node : DbNode DeployableElement) (aname : CString) :
    (Visited.below node).find? (·.name = aname) =
      if aname ∈ node.body.assemblies then some (.assembly node.id aname) else none := by
  rw [Visited.below, List.find?_map]
  split
  case isTrue hmem =>
    cases hfind : node.body.assemblies.find? ((fun visit : Visited => decide (visit.name = aname)) ∘
        Visited.assembly node.id) with
    | none => simpa [Visited.name] using List.find?_eq_none.mp hfind aname hmem
    | some a =>
        have hname := List.find?_some hfind
        obtain rfl : a = aname := of_decide_eq_true hname
        rfl
  case isFalse hnew =>
    rw [Option.map_eq_none_iff, List.find?_eq_none]
    intro a ha
    have hne : a ≠ aname := fun heq => hnew (heq ▸ ha)
    exact fun hname => hne (of_decide_eq_true hname)

theorem find_children (h : f.Sound) (hd : f.lookup name = some (some d))
    {node : DbNode DeployableElement} (hnode : f.find name = some node) (aname : CString) :
    (Iteration.children.visits f name).find? (·.name = aname) =
      if aname ∈ members f name then some (.assembly node.id aname) else none := by
  have hmembers : members f name = node.body.assemblies := by
    rw [members, DbFactory.body, hnode]
    rfl
  rw [Iteration.visits, DbFactory.nodeOf_eq_find h.toLinked hd, hnode, hmembers]
  exact find_below node aname

theorem save_of_object (h : f.Sound) (hd : f.lookup name = some (some d)) :
    ∃ f', f.saveInstance name = .ok f' ∧ f.Writes name f' ∧ members f' = members f ∧
      ∃ d', f'.lookup name = some (some d') := by
  obtain ⟨f', hsave, hsaves⟩ := DbFactory.saveInstance_of_object h.toLinked hd
  obtain ⟨id, hlookup⟩ := hsaves.lookup
  refine ⟨f', hsave, hsaves.writes, ?_, ⟨_, by rw [hlookup, Function.update_self]⟩⟩
  rw [members_of_body hsaves.body]
  exact Function.update_eq_self name _

theorem edit_members (h : f.Sound) (hd : f.lookup name = some (some d))
    (hbody : (f.body name).isSome) (change : List CString → List CString) :
    ∃ f₁ f₂, (f.edit name fun element =>
        { element with assemblies := change element.assemblies }) = .ok f₁ ∧
      f₁.saveInstance name = .ok f₂ ∧ f.Writes name f₂ ∧
      members f₂ = Function.update (members f) name (change (members f name)) := by
  obtain ⟨element, helement⟩ := Option.isSome_iff_exists.mp hbody
  obtain ⟨f₁, f₂, hedit, hsave, hwrites, hbody₂⟩ :=
    DbFactory.edit_then_save h hd helement fun element =>
      { element with assemblies := change element.assemblies }
  refine ⟨f₁, f₂, hedit, hsave, hwrites, ?_⟩
  rw [members_of_body hbody₂, members, helement]
  rfl

theorem get_ends (modules : Modules) (h : f.Sound) (hnew : ¬f.existsName name)
    (infrastructure : Infrastructure) (username : CString) (host : Host) :
    Ends (· = f)
      (fun f' => f'.Sound ∧ f'.body = f.body ∧ f'.lookup = Function.update f.lookup name
        (some (createInstance modules (f.find name) name infrastructure username)))
      (get modules f name infrastructure username host) := by
  rw [get, if_neg hnew]
  split
  case isTrue => exact rfl
  case isFalse =>
    refine ⟨⟨h.toLinked.put fun d hd => ?_, h.saved⟩, rfl, DbFactory.lookup_put _⟩
    have hlinked := createInstance_linked (fun x hx => DbFactory.name_of_find hx) hd
    exact ⟨hlinked.1, hlinked.2.1⟩

theorem create_ends (h : f.Sound) (hnew : ¬f.existsName name) (infrastructure : Infrastructure)
    (username monitor : CString) (host : Host) :
    Ends (fun g => g.Sound ∧ g.body = f.body)
      (fun f' => (f.Writes name f' ∧ members f' = members f) ∨
        infrastructure = .openstack ∧ host.create = some false ∧ f'.Sound ∧ f'.body = f.body)
      (create modules f name infrastructure username monitor host) := by
  have hnone : f.body name = none := h.toLinked.body_of_new hnew
  have hget := get_ends modules h hnew infrastructure username host
  refine (hget.mono (by rintro g rfl; exact ⟨h, rfl⟩) fun _ hf => hf).bind ?_
  rintro f₁ ⟨hsound₁, hbody₁, hlookup₁⟩
  cases hcreate : createInstance modules (f.find name) name infrastructure username with
  | none =>
      have hnone : ∀ d, f₁.lookup name ≠ some (some d) := by simp [hlookup₁, hcreate]
      rw [DbFactory.modify_of_none hnone]
      exact ⟨hsound₁, hbody₁⟩
  | some d =>
      have hd₁ : f₁.lookup name = some (some d) := by simp [hlookup₁, hcreate]
      obtain ⟨f₂, hmodify, hsound₂, hbody₂, hlookup₂⟩ :=
        DbFactory.modify_of_object hsound₁ hd₁ fun attrs => { attrs with monitor := some monitor }
      rw [hlookup₁, Function.update_idem] at hlookup₂
      have hd₂ : f₂.lookup name =
          some (some { d with attrs := { d.attrs with monitor := some monitor } }) := by
        rw [hlookup₂, Function.update_self]
      have hbody : f₂.body = f.body := hbody₂.trans hbody₁
      rw [hmodify, ok_bind, hd₂]
      simp only
      split
      case h_1 =>
        obtain ⟨f₃, hsave, hwrites, hmembers, -⟩ := save_of_object hsound₂ hd₂
        rw [hsave]
        refine Or.inl ⟨hwrites.of_set hbody hlookup₂, hmembers.trans ?_⟩
        funext n
        rw [members, members, hbody]
      case h_2 hrefused =>
        have hinf := (createInstance_linked (fun x hx => DbFactory.name_of_find hx) hcreate).2.2
        unfold created at hrefused
        unfold deleteWith
        split at hrefused
        case isFalse => cases hrefused
        case isTrue hopenstack =>
          split
          case isTrue => exact ⟨hsound₂, hbody⟩
          case isFalse =>
            rw [DbFactory.deleteInstance_of_none (by rw [hbody, hnone])]
            exact Or.inr ⟨hinf.symm.trans hopenstack, hrefused, hsound₂, hbody⟩
      case h_3 => exact ⟨hsound₂, hbody⟩

theorem delete_ends (h : f.Sound) (name : CString) (host : Host) :
    Ends (· = f)
      (fun f' => f' = f ∧ f.body name = none ∨
        f'.Sound ∧ f'.body = Function.update f.body name none ∧
          f'.lookup = Function.update f.lookup name none)
      (delete f name host) := by
  obtain ⟨f', hdelete, heffect⟩ := DbFactory.deleteInstance_cases h.toLinked name
  unfold delete deleteWith
  split
  case h_1 =>
    rw [hdelete]
    exact heffect
  case h_2 => exact rfl
  case h_3 =>
    split
    case isTrue => exact rfl
    case isFalse =>
      rw [hdelete]
      exact heffect

end DeployableFactory

namespace Pcloudsh

open AssemblyFactory (deployment register)
open DeployableFactory (members)

structure Sound (s : Pcloudsh) : Prop where
  assemblies : s.assemblies.Sound
  deployables : s.deployables.Sound

structure Stored (s : Pcloudsh) : Prop where
  assemblies : s.assemblies.Stored
  deployables : s.deployables.Stored

variable {s s' : Pcloudsh} {d : DbObject DeployableAttrs} {dname aname : CString}

theorem Sound.stored (h : s.Sound) : s.Stored := ⟨h.assemblies.stored, h.deployables.stored⟩

theorem Stored.start (h : s.Stored) (assemblyModules deployableModules : Modules) :
    (s.start assemblyModules deployableModules).Sound :=
  ⟨AssemblyFactory.sound_load h.assemblies, DeployableFactory.sound_load h.deployables⟩

theorem onAssemblies_ok (s : Pcloudsh) (f : AssemblyFactory) :
    s.onAssemblies (.ok f) = .ok { s with assemblies := f } := rfl

theorem onDeployables_ok (s : Pcloudsh) (f : DeployableFactory) :
    s.onDeployables (.ok f) = .ok { s with deployables := f } := rfl

theorem assemblyAdd_of_object (iteration : Iteration) (hs : s.Sound)
    (hd : s.deployables.lookup dname = some (some d)) (hname : s.assemblies.existsName aname)
    (host : Host) :
    ∃ f f' d', s.deployables.Writes dname f ∧ members f = members s.deployables ∧
      f.lookup dname = some (some d') ∧
      s.deployables.Writes dname f' ∧
      members f' = Function.update (members s.deployables) dname
        (members s.deployables dname ++ [aname]) ∧
      s.assemblyAdd iteration d dname aname host =
        if (iteration.visits f dname).any (·.name = aname) then
          .ok { s with deployables := f }
        else { s with deployables := f' }.onAssemblies (register s.assemblyModules s.assemblies
          aname d.attrs.infrastructure dname d.attrs.username host) := by
  obtain ⟨f, hsave, hwrites, hmembers, d', hd'⟩ :=
    DeployableFactory.save_of_object hs.deployables hd
  have hbody : (f.body dname).isSome := by
    obtain ⟨b, hb⟩ := hwrites.body
    rw [hb, Function.update_self, Option.isSome_some]
  obtain ⟨f₂, f₃, hedit, hsave₃, hwrites₃, hmembers₃⟩ :=
    DeployableFactory.edit_members hwrites.sound hd' hbody (· ++ [aname])
  rw [hmembers] at hmembers₃
  refine ⟨f, f₃, d', hwrites, hmembers, hd', hwrites.trans hwrites₃, hmembers₃, ?_⟩
  rw [assemblyAdd, if_pos hname, hsave, onDeployables_ok, ok_bind, hedit, onDeployables_ok,
    ok_bind, hsave₃, onDeployables_ok, ok_bind, (hs.deployables.objects hd).1]

/--
Both are saved; the element of the assembly keeps the deployment that it had.  The first element
of the name that the loop comes to is then unlinked.
-/
theorem assemblyRemove_of_object (iteration : Iteration) (hs : s.Sound)
    (hd : s.deployables.lookup dname = some (some d)) {a : DbObject AssemblyAttrs}
    (ha : s.assemblies.lookup aname = some (some a)) :
    ∃ f f' d', s.assemblies.Writes aname f ∧ deployment f = deployment s.assemblies ∧
      s.deployables.saveInstance dname = .ok f' ∧ s.deployables.Writes dname f' ∧
      members f' = members s.deployables ∧ f'.lookup dname = some (some d') ∧
      s.assemblyRemove iteration dname aname =
        match (iteration.visits f' dname).find? (·.name = aname) with
        | some visit => { s with assemblies := f, deployables := f' }.onDeployables
            ((DeployableFactory.unlink f' visit).saveInstance dname)
        | none => .ok { s with assemblies := f, deployables := f' } := by
  have hname : s.assemblies.existsName aname := DbFactory.existsName_of_lookup ha
  obtain ⟨f₁, f₂, hmodify, hsaveA, hwritesA, hdeployment⟩ :=
    AssemblyFactory.removed_of_object hs.assemblies ha
  obtain ⟨f', hsave, hwrites, hmembers, d', hd'⟩ :=
    DeployableFactory.save_of_object hs.deployables hd
  refine ⟨f₂, f', d', hwritesA, hdeployment, hsave, hwrites, hmembers, hd', ?_⟩
  rewrite [assemblyRemove, if_pos hname, hmodify, onAssemblies_ok, ok_bind, hsaveA,
    onAssemblies_ok, ok_bind, hsave, onDeployables_ok, ok_bind]
  rfl

theorem withDeployable_ends {P Q : Pcloudsh → Prop} (hok : Q s) (herror : P s)
    {command : DbObject DeployableAttrs → Except Pcloudsh Pcloudsh}
    (hcommand : ∀ d, s.deployables.lookup dname = some (some d) → Ends P Q (command d)) :
    Ends P Q (s.withDeployable dname command) := by
  unfold withDeployable
  split
  case h_1 => exact hok
  case h_2 => exact herror
  case h_3 d hd => exact hcommand d hd

theorem step_line_of_ends {P Q : Pcloudsh → Prop} {command : ShellCommand}
    {options : List CString} {host : Host} {iteration : Iteration}
    (hexec : Ends P Q (s.exec iteration host command options))
    (hstart : ∀ mid, P mid → ∀ assemblyModules deployableModules,
      Q (mid.start assemblyModules deployableModules))
    (hstep : s.step iteration (.line command options host) = .ok s') : Q s' := by
  simp only [step] at hstep
  split at hstep
  case h_1 mid hmid =>
    obtain rfl := Except.ok.inj hstep
    rw [hmid] at hexec
    exact hexec
  case h_2 mid hmid =>
    obtain rfl := Except.ok.inj hstep
    rw [hmid] at hexec
    exact hstart mid hexec _ _

/-! ## A host with one assembly -/

def oneAssembly : Pcloudsh :=
  let db := AssemblyAttrs.mk "5f".toList "F16-x86_64".toList "db.qcow2".toList none none none
    none none
  ⟨⟨[], [], [⟨0, "db".toList, db⟩], 1, []⟩, ⟨[], [], [], 0, []⟩, ⟨true, true⟩, ⟨true, true⟩⟩

theorem oneAssembly_stored : oneAssembly.Stored :=
  ⟨⟨by decide, by decide, by decide⟩, ⟨by decide, by decide, by decide⟩⟩

/-- A host on which everything is found, and every call succeeds. -/
def wellEquipped : Host :=
  ⟨true, true, .cloned "a7".toList, true, true, true, true, some true, .saved⟩

end Pcloudsh

end PacemakerCloud

import PacemakerCloud.Daemon.Deployment
import PacemakerCloud.Pcloudsh.Escalation

/-!
# Where the resources of an assembly are

The loop of `ResourceFactory.__init__` over the children of an assembly goes on to the end of
the document, and so the factory of every assembly keeps the `resources` element of the last
one.  No command for resources changes another element, and the document for the daemon has
the resources of the last assembly in every assembly of the deployable.
-/

namespace PacemakerCloud

open Foundation

/-! ## Removing a resource -/

def ResourceFactory.drop (rf : ResourceFactory) (name : CString) : ResourceFactory :=
  { rf with all := Function.update rf.all name none }

namespace ResourceDb

def unlink (s : ResourceDb) (id : Nat) : ResourceDb :=
  { s with doc := s.doc.map fun node => { node with body := node.body.filter (·.id ≠ id) } }

def deleteResource (s : ResourceDb) (assembly rsc : CString) : ResourceDb :=
  match s.rfs assembly with
  | none => s
  | some rf =>
      match rf.all rsc with
      | none => s
      | some r =>
          match r.xmlNode with
          | none => s.setFactory assembly (rf.drop rsc)
          | some id => (s.unlink id).setFactory assembly (rf.drop rsc)

def resourceRemove (s : ResourceDb) (rsc assembly : CString) : Except ResourceDb ResourceDb := do
  let s ← s.resourceFactorySetup assembly
  if (s.lookup assembly rsc).isSome then return (s.deleteResource assembly rsc).save
  else return s

end ResourceDb

inductive ResourceLine where
  | command (command : ResourceCommand)
  | remove (rsc assembly : CString)
  deriving DecidableEq, Repr

namespace ResourceDb

def execLine (templates : CString → TemplateFile) (s : ResourceDb) :
    ResourceLine → Except ResourceDb ResourceDb
  | .command command => s.exec templates command
  | .remove rsc assembly =>
      if s.doc.any (·.name = assembly) then s.resourceRemove rsc assembly else .ok s

/-- An exception ends the shell; the next line is read by a new one. -/
def lineStep (templates : CString → TemplateFile) (s : ResourceDb) (line : ResourceLine) :
    Except Empty ResourceDb :=
  match s.execLine templates line with
  | .ok s' => .ok s'
  | .error s' => .ok s'.start

/-! ## Every command keeps to the last assembly -/

/-- The numbers of the elements are their own, and those of resources were given by copying. -/
structure Numbered (s : ResourceDb) : Prop where
  assemblies : (s.file.map DbNode.id).Nodup
  resources : (s.persisted.map DbNode.id).Nodup
  copied : ∀ node ∈ s.persisted, node.id < s.copies.length

def numbers (elements : List AssemblyElement) : List Nat :=
  elements.flatMap fun element => element.body.map DbNode.id

variable {before : List AssemblyElement} {last : AssemblyElement} {s s' : ResourceDb}
  {templates : CString → TemplateFile} {assembly rsc : CString} {rf : ResourceFactory}

/-- In the document only the resources of the last assembly may have changed. -/
def OnlyLast (before : List AssemblyElement) (last : AssemblyElement)
    (doc : List AssemblyElement) : Prop :=
  ∃ body, doc = before ++ [⟨last.id, last.name, body⟩] ∧
    ∀ node ∈ body, node.id ∉ numbers before

structure Filed (before : List AssemblyElement) (last : AssemblyElement) (s : ResourceDb) :
    Prop where
  root : (before.map DbNode.id ++ [last.id]).Nodup
  file : OnlyLast before last s.file
  copied : ∀ id ∈ numbers before, id < s.copies.length

structure HoldsLast (before : List AssemblyElement) (last : AssemblyElement)
    (rf : ResourceFactory) : Prop where
  root : rf.root = last.id
  objects : ∀ {name r}, rf.all name = some r → ∃ id, r.xmlNode = some id ∧ id ∉ numbers before

structure Confined (before : List AssemblyElement) (last : AssemblyElement) (s : ResourceDb) :
    Prop extends Filed before last s where
  saved : s.doc = s.file
  factories : ∀ {assembly rf}, s.rfs assembly = some rf → HoldsLast before last rf

theorem Filed.start (h : Filed before last s) : Confined before last s.start :=
  ⟨⟨h.root, h.file, h.copied⟩, rfl, fun hrf => by cases hrf⟩

theorem HoldsLast.put {r : ResourceObject} (h : HoldsLast before last rf)
    (hr : ∃ id, r.xmlNode = some id ∧ id ∉ numbers before) :
    HoldsLast before last (rf.put rsc r) := by
  refine ⟨h.root, fun {name r'} hr' => ?_⟩
  rcases update_eq_some.mp hr' with ⟨-, hnew⟩ | ⟨-, hold⟩
  · cases hnew
    exact hr
  · exact h.objects hold

theorem HoldsLast.drop (h : HoldsLast before last rf) : HoldsLast before last (rf.drop rsc) := by
  refine ⟨h.root, fun {name r'} hr' => ?_⟩
  rcases update_eq_some.mp hr' with ⟨-, hnew⟩ | ⟨-, hold⟩
  · cases hnew
  · exact h.objects hold

theorem Confined.setFactory (h : Confined before last s) (hrf : HoldsLast before last rf) :
    Confined before last (s.setFactory assembly rf) := by
  refine ⟨⟨h.root, h.file, h.copied⟩, h.saved, fun {a rf'} ha => ?_⟩
  rcases update_eq_some.mp ha with ⟨-, hnew⟩ | ⟨-, hold⟩
  · cases hnew
    exact hrf
  · exact h.factories hold

theorem Confined.save (h : Confined before last s) {doc : List AssemblyElement}
    (copies : List (CString × Template)) (hdoc : OnlyLast before last doc)
    (hcopies : s.copies.length ≤ copies.length) :
    Confined before last { s with doc := doc, file := doc, copies := copies } :=
  ⟨⟨h.root, hdoc, fun id hid => (h.copied id hid).trans_le hcopies⟩, rfl, h.factories⟩

theorem OnlyLast.map_body {doc : List AssemblyElement} (h : OnlyLast before last doc)
    {change : List ResourceNode → List ResourceNode}
    (hbefore : ∀ element ∈ before, change element.body = element.body)
    (hids : ∀ body, ∀ node ∈ change body, ∃ node' ∈ body, node'.id = node.id) :
    OnlyLast before last (doc.map fun element => { element with body := change element.body }) := by
  obtain ⟨body, rfl, hbody⟩ := h
  refine ⟨change body, ?_, fun node hnode => ?_⟩
  · rw [List.map_append, List.map_singleton, map_eq_self_iff.mpr]
    intro element helement
    rw [hbefore element helement]
  · obtain ⟨node', hmem, hid⟩ := hids body node hnode
    exact hid ▸ hbody node' hmem

theorem ne_of_not_mem_numbers {id : Nat} (hid : id ∉ numbers before) {element : AssemblyElement}
    (helement : element ∈ before) {node : ResourceNode} (hnode : node ∈ element.body) :
    node.id ≠ id := by
  rintro rfl
  exact hid (List.mem_flatMap.mpr ⟨element, helement, List.mem_map_of_mem hnode⟩)

theorem OnlyLast.rewrite (h : OnlyLast before last s.doc) {id : Nat} (hid : id ∉ numbers before)
    {change : ResourceNode → ResourceNode} (hchange : ∀ node, (change node).id = node.id) :
    OnlyLast before last (s.rewrite id change).doc := by
  refine h.map_body (fun element helement => ?_) fun body node hnode => ?_
  · refine map_eq_self_iff.mpr fun node hnode => ?_
    rw [if_neg (ne_of_not_mem_numbers hid helement hnode)]
  · obtain ⟨node', hmem, rfl⟩ := List.mem_map.mp hnode
    refine ⟨node', hmem, ?_⟩
    split
    · exact (hchange node').symm
    · rfl

theorem OnlyLast.unlink (h : OnlyLast before last s.doc) {id : Nat} (hid : id ∉ numbers before) :
    OnlyLast before last (s.unlink id).doc := by
  refine h.map_body (fun element helement => ?_) fun body node hnode => ?_
  · refine List.filter_eq_self.mpr fun node hnode => ?_
    exact decide_eq_true (ne_of_not_mem_numbers hid helement hnode)
  · exact ⟨node, List.mem_of_mem_filter hnode, rfl⟩

theorem OnlyLast.addChild (h : OnlyLast before last s.doc)
    (hroot : (before.map DbNode.id ++ [last.id]).Nodup) {node : ResourceNode}
    (hnode : node.id ∉ numbers before) : OnlyLast before last (s.addChild last.id node).doc := by
  obtain ⟨body, hdoc, hbody⟩ := h
  have hids : (s.doc.map DbNode.id).Nodup := by
    rw [hdoc, List.map_append]
    exact hroot
  refine ⟨body ++ [node], doc_addChild hdoc hids rfl node, fun node' hnode' => ?_⟩
  rcases List.mem_append.mp hnode' with hold | hnew
  · exact hbody node' hold
  · exact List.mem_singleton.mp hnew ▸ hnode

def EndsConfined (before : List AssemblyElement) (last : AssemblyElement) :
    Except ResourceDb ResourceDb → Prop :=
  Ends (Filed before last) (Confined before last)

theorem Confined.resourceFactorySetup (h : Confined before last s)
    (hassembly : s.doc.any (·.name = assembly)) :
    Ends (Filed before last)
      (fun s' => Confined before last s' ∧ ∃ rf, s'.rfs assembly = some rf)
      (s.resourceFactorySetup assembly) := by
  rw [ResourceDb.resourceFactorySetup, rootNode_eq_getLast? hassembly]
  obtain ⟨body, hfile, hbody⟩ := h.file
  rw [h.saved, hfile, List.getLast?_concat]
  cases hrf : s.rfs assembly with
  | some rf => exact ⟨h, rf, hrf⟩
  | none =>
      cases hload : loadResources (fun _ => none) body with
      | none =>
          simp only [hload]
          exact h.toFiled
      | some all =>
          simp only [hload]
          refine ⟨h.setFactory ⟨rfl, fun {name r} hr => ?_⟩, _, Function.update_self ..⟩
          obtain hnone | ⟨node, hmem, -, hxml, -⟩ := readFrom_of_loadResources hload hr
          · cases hnone
          · exact ⟨node.id, hxml, hbody node hmem⟩

theorem Confined.resourceAdd (h : Confined before last s)
    (hassembly : s.doc.any (·.name = assembly)) (rsc rscType : CString) :
    EndsConfined before last (s.resourceAdd templates rsc rscType assembly) := by
  refine Ends.bind (h.resourceFactorySetup hassembly) ?_
  rintro s ⟨h, rf, hrf⟩
  split
  case isTrue => exact h
  case isFalse =>
    cases ht : templates rscType with
    | missing => exact h
    | malformed =>
        rw [if_neg (by decide)]
        simp only [saveResource_of_malformed hrf ht]
        rw [put_of_factory hrf]
        exact ⟨h.root, h.file, h.copied⟩
    | template t =>
        rw [if_neg (by simp)]
        simp only [saveResource_of_new hrf ht]
        have hholds := h.factories hrf
        have hnew : s.copies.length ∉ numbers before := fun hmem =>
          (h.copied _ hmem).false
        have hdoc : OnlyLast before last (s.copied rf.root rsc rscType t).doc := by
          rw [hholds.root]
          exact OnlyLast.addChild (h.saved ▸ h.file) h.root hnew
        have hsaved := h.save (s.copies ++ [(rscType, t)]) hdoc (by simp)
        exact hsaved.setFactory (hholds.put ⟨_, rfl, hnew⟩)

theorem lookup_of_factory (hrf : s.rfs assembly = some rf) :
    s.lookup assembly rsc = rf.all rsc := by
  rw [lookup, hrf, Option.bind_some]

theorem Confined.escalationResourceSet (h : Confined before last s)
    (hassembly : s.doc.any (·.name = assembly)) (rsc failures period : CString) :
    EndsConfined before last
      (s.escalationResourceSet templates rsc assembly failures period) := by
  refine Ends.bind (h.resourceFactorySetup hassembly) ?_
  rintro s ⟨h, rf, hrf⟩
  cases hr : rf.all rsc with
  | none =>
      simp only [lookup_of_factory hrf, hr]
      exact h
  | some r =>
      obtain ⟨id, hxml, hid⟩ := (h.factories hrf).objects hr
      set r' : ResourceObject := ⟨r.xmlNode, r.fields.setEscalation failures period⟩ with hr'
      set put := s.setFactory assembly (rf.put rsc r')
      have hput : Confined before last put := h.setFactory ((h.factories hrf).put ⟨id, hxml, hid⟩)
      have hsave : put.saveResource templates assembly rsc = .ok (put.rewrite id fun node =>
          ⟨node.id, r'.fields.name.getD [], r'.fields.write node.body⟩) :=
        saveResource_of_node (Function.update_self ..) (Function.update_self ..) hxml
      have hdoc : OnlyLast before last (put.rewrite id fun node =>
          ⟨node.id, r'.fields.name.getD [], r'.fields.write node.body⟩).doc :=
        OnlyLast.rewrite (hput.saved ▸ hput.file) hid fun _ => rfl
      simp only [lookup_of_factory hrf, hr, ← hr', put_of_factory hrf]
      rw [hsave]
      exact hput.save s.copies hdoc le_rfl

theorem Confined.resourceRemove (h : Confined before last s)
    (hassembly : s.doc.any (·.name = assembly)) (rsc : CString) :
    EndsConfined before last (s.resourceRemove rsc assembly) := by
  refine Ends.bind (h.resourceFactorySetup hassembly) ?_
  rintro s ⟨h, rf, hrf⟩
  cases hr : rf.all rsc with
  | none =>
      rw [lookup_of_factory hrf, hr]
      exact h
  | some r =>
      obtain ⟨id, hxml, hid⟩ := (h.factories hrf).objects hr
      have hdelete : s.deleteResource assembly rsc =
          (s.unlink id).setFactory assembly (rf.drop rsc) := by
        simp only [deleteResource, hrf, hr, hxml]
      rw [lookup_of_factory hrf, hr, if_pos Option.isSome_some, hdelete]
      have hsaved := h.save s.copies (OnlyLast.unlink (h.saved ▸ h.file) hid) le_rfl
      exact hsaved.setFactory (h.factories hrf).drop

theorem Confined.execLine (templates : CString → TemplateFile) (h : Confined before last s)
    (line : ResourceLine) :
    EndsConfined before last (s.execLine templates line) := by
  cases line with
  | command command =>
      cases command with
      | add rsc template assembly =>
          rw [ResourceDb.execLine, ResourceDb.exec]
          split
          case isTrue hassembly => exact h.resourceAdd hassembly rsc template
          case isFalse => exact h
      | escalationSet rsc assembly failures period =>
          rw [ResourceDb.execLine, ResourceDb.exec]
          split
          case isTrue hassembly => exact h.escalationResourceSet hassembly rsc failures period
          case isFalse => exact h
      | restart => exact h.toFiled.start
  | remove rsc assembly =>
      rw [ResourceDb.execLine]
      split
      case isTrue hassembly => exact h.resourceRemove hassembly rsc
      case isFalse => exact h

theorem Confined.lineStep {line : ResourceLine} (h : Confined before last s)
    (hstep : s.lineStep templates line = .ok s') : Confined before last s' := by
  have hends := h.execLine templates line
  unfold ResourceDb.lineStep at hstep
  cases hexec : s.execLine templates line with
  | ok s₁ =>
      rw [hexec] at hends hstep
      cases hstep
      exact hends
  | error s₁ =>
      rw [hexec] at hends hstep
      cases hstep
      exact hends.start

theorem Numbered.filed (h : s.Numbered) (hfile : s.file = before ++ [last]) :
    Filed before last s := by
  have hpersisted : s.persisted.map DbNode.id = numbers before ++ last.body.map DbNode.id := by
    rw [persisted, hfile, List.flatMap_append, List.flatMap_singleton, List.map_append,
      List.map_flatMap, numbers]
  refine ⟨?_, ⟨last.body, hfile, fun node hnode hbefore => ?_⟩, fun id hid => ?_⟩
  · have hids := h.assemblies
    rwa [hfile, List.map_append] at hids
  · have hids := h.resources
    rw [hpersisted, List.nodup_append] at hids
    exact hids.2.2 node.id hbefore node.id (List.mem_map_of_mem hnode) rfl
  · have hmem : id ∈ s.persisted.map DbNode.id := hpersisted ▸ List.mem_append_left _ hid
    obtain ⟨node, hnode, rfl⟩ := List.mem_map.mp hmem
    exact h.copied node hnode

theorem Numbered.run {lines : List ResourceLine} (h : s.Numbered)
    (hfile : s.file = before ++ [last])
    (hrun : run (ResourceDb.lineStep templates) s.start lines = .ok s') :
    ∃ body, s'.file = before ++ [⟨last.id, last.name, body⟩] := by
  have hconfined := run_invariant_of_step (I := Confined before last)
    (fun h hstep => h.lineStep hstep) (h.filed hfile).start hrun
  obtain ⟨body, hfile', -⟩ := hconfined.file
  exact ⟨body, hfile'⟩

end ResourceDb

/-! ## The resources that a factory finds -/

/--
The elements of which `ResourceFactory.__init__` makes objects, the first of every name, each
with those that follow it.
-/
def firstNamed (found : CString → Bool) : List ResourceNode →
    List (ResourceNode × List ResourceNode)
  | [] => []
  | r :: rest =>
      if found r.name then firstNamed found rest
      else (r, rest) :: firstNamed (Function.update found r.name true) rest

def loadElement (x : ResourceNode × List ResourceNode) : Option (ResourceNode × ShellResource) :=
  (loadFromXml (position (x.1 :: x.2))).map (x.1, ·)

def putElement (all : CString → Option ResourceObject) (y : ResourceNode × ShellResource) :
    CString → Option ResourceObject :=
  Function.update all y.1.name (some ⟨some y.1.id, y.2⟩)

theorem loadResources_eq (all : CString → Option ResourceObject)
    (resources : List ResourceNode) :
    loadResources all resources =
      ((firstNamed (fun name => (all name).isSome) resources).mapM loadElement).map
        (List.foldl putElement all) := by
  induction resources generalizing all with
  | nil => rfl
  | cons r rest ih =>
      rw [loadResources, firstNamed]
      split
      case isTrue => exact ih all
      case isFalse =>
        have hfound : ∀ fields : ShellResource,
            (fun name => (Function.update all r.name (some ⟨some r.id, fields⟩) name).isSome) =
              Function.update (fun name => (all name).isSome) r.name true := by
          intro fields
          funext name
          by_cases hname : name = r.name
          · simp [hname]
          · simp [hname]
        rw [List.mapM_cons, loadElement]
        cases hload : loadFromXml (position (r :: rest)) with
        | none => rfl
        | some fields =>
            simp only
            rw [ih, hfound]
            cases (firstNamed (Function.update (fun name => (all name).isSome) r.name true)
              rest).mapM loadElement <;> rfl

theorem foldl_putElement {ys : List (ResourceNode × ShellResource)}
    (hnodup : (ys.map fun y => y.1.name).Nodup) (all : CString → Option ResourceObject)
    (name : CString) :
    ys.foldl putElement all name =
      ((ys.find? (·.1.name = name)).map fun y => ⟨some y.1.id, y.2⟩).or (all name) := by
  induction ys generalizing all with
  | nil => rfl
  | cons y ys ih =>
      obtain ⟨hnew, hrest⟩ := List.nodup_cons.mp hnodup
      rw [List.foldl_cons, ih hrest, putElement]
      by_cases hname : y.1.name = name
      · have hnone : ys.find? (·.1.name = name) = none := by
          refine List.find?_eq_none.mpr fun z hz heq => hnew ?_
          exact List.mem_map.mpr ⟨z, hz, (of_decide_eq_true heq).trans hname.symm⟩
        rw [hnone, List.find?_cons_of_pos (by simpa using hname), hname]
        simp
      · rw [Function.update_of_ne (Ne.symm hname), List.find?_cons_of_neg (by simpa using hname)]

theorem firstNamed_not_found {found : CString → Bool} {resources : List ResourceNode}
    {x : ResourceNode × List ResourceNode} (h : x ∈ firstNamed found resources) :
    found x.1.name = false ∧ x.1 ∈ resources := by
  induction resources generalizing found with
  | nil => cases h
  | cons r rest ih =>
      rw [firstNamed] at h
      split at h
      case isTrue => exact (ih h).imp_right (List.mem_cons_of_mem r)
      case isFalse hfound =>
        rcases List.mem_cons.mp h with rfl | hrest
        · exact ⟨Bool.eq_false_iff.mpr hfound, List.mem_cons_self⟩
        · obtain ⟨hnot, hmem⟩ := ih hrest
          refine ⟨?_, List.mem_cons_of_mem r hmem⟩
          by_cases hname : x.1.name = r.name
          · simp [hname] at hnot
          · simpa [hname] using hnot

theorem firstNamed_nodup (found : CString → Bool) (resources : List ResourceNode) :
    ((firstNamed found resources).map fun x => x.1.name).Nodup := by
  induction resources generalizing found with
  | nil => exact List.nodup_nil
  | cons r rest ih =>
      rw [firstNamed]
      split
      case isTrue => exact ih found
      case isFalse =>
        refine List.nodup_cons.mpr ⟨fun hmem => ?_, ih _⟩
        obtain ⟨x, hx, hname⟩ := List.mem_map.mp hmem
        have hnot := (firstNamed_not_found hx).1
        simp [hname] at hnot

def ResourceNode.resource (r : ResourceNode) : ShellResource where
  name := some r.name
  monitorInterval := r.body.monitorInterval
  type := r.body.type
  klass := r.body.klass
  provider := r.body.provider
  escalationFailures := r.body.escalationFailures.getD "INFINITY".toList
  escalationPeriod := r.body.escalationPeriod.getD "INFINITY".toList
  params := []

theorem loadFromXml_position {r : ResourceNode} {rest : List ResourceNode}
    {fields : ShellResource} (h : loadFromXml (position (r :: rest)) = some fields) :
    ∃ params, fields = { ResourceNode.resource r with params := params } := by
  obtain ⟨tail, htail⟩ : ∃ tail, position (r :: rest) = r.toXml :: tail :=
    ⟨_, List.cons_append⟩
  have hattr : ∀ attr value, r.attrs.lookup attr = some value → r.toXml.attr? attr = value :=
    fun attr value hvalue => by rw [attr?_toXml, hvalue, Option.join_some]
  rw [htail, loadFromXml] at h
  split at h
  all_goals
    obtain ⟨params, -, hfields⟩ := Option.bind_eq_some_iff.mp h
    cases hfields
    refine ⟨params, ?_⟩
    rw [hattr "name" _ rfl, hattr "monitor_interval" _ rfl, hattr "type" _ rfl,
      hattr "class" _ rfl, hattr "provider" _ rfl, hattr "escalation_failures" _ rfl,
      hattr "escalation_period" _ rfl]
    rfl

/-! ## The document for the daemon -/

structure Member where
  name : CString
  uuid : Option CString
  escalationFailures : CString
  escalationPeriod : CString
  deriving DecidableEq, Repr

def factoryNodes (resources : List ResourceNode) : List ResourceNode :=
  (firstNamed (fun _ => false) resources).map Prod.fst

def factoryPositions (resources : List ResourceNode) : List Position :=
  (firstNamed (fun _ => false) resources).map fun x => position (x.1 :: x.2)

def Member.shell (values : List Position → List Position) (resources : List ResourceNode)
    (m : Member) : ShellAssembly where
  name := some m.name
  uuid := m.uuid
  escalationFailures := some m.escalationFailures
  escalationPeriod := some m.escalationPeriod
  resources := values (factoryPositions resources)

/--
`generate_config`, for assemblies that the file has: the factory is a new one.
-/
def ResourceDb.generateConfig (values : List Position → List Position) (s : ResourceDb)
    (name monitor username : Option CString) (members : List Member) : Option Xml := do
  let assemblies ← members.mapM fun m =>
    (s.start.rootNode m.name).map fun root => m.shell values root.body
  PacemakerCloud.generateConfig ⟨name, monitor, username, assemblies⟩

/--
The assemblies are in the file and differ in their names, which fit the daemon, and no two
assemblies have resources of one id.
-/
structure Deploys (file : List AssemblyElement) (resources : List ResourceNode)
    (members : List Member) : Prop where
  known : ∀ m ∈ members, file.any (·.name = m.name)
  names_nodup : (members.map Member.name).Nodup
  assembly_name : ∀ m ∈ members, m.name.length ≤ assemblyNameMax
  resource_name : ∀ r ∈ resources, r.name.length ≤ resourceNameMax
  ids_apart : ∀ m ∈ members, ∀ m' ∈ members, ∀ r ∈ resources, ∀ r' ∈ resources,
    qualified "rsc_" m.name r.name = qualified "rsc_" m'.name r'.name → m.name = m'.name

theorem exists_loadResources {resources : List ResourceNode}
    (h : ∀ p ∈ factoryPositions resources, (loadFromXml p).isSome) :
    ∃ all, loadResources (fun _ => none) resources = some all ∧ ∀ name,
      (all name).bind ResourceObject.xmlNode =
        ((factoryNodes resources).find? (·.name = name)).map DbNode.id := by
  have hsome : ((firstNamed (fun _ => false) resources).mapM loadElement).isSome := by
    refine mapM_isSome.mpr fun x hx => ?_
    rw [loadElement, Option.isSome_map]
    exact h _ (List.mem_map_of_mem hx)
  obtain ⟨ys, hys⟩ := Option.isSome_iff_exists.mp hsome
  have hnodes : ys.map Prod.fst = factoryNodes resources := by
    refine (map_eq_of_forall₂ (forall₂_of_mapM hys) fun x _ y hy => ?_).symm
    obtain ⟨fields, -, rfl⟩ := Option.map_eq_some_iff.mp hy
    rfl
  have hnodup : (ys.map fun y => y.1.name).Nodup := by
    have hnames : (ys.map fun y => y.1.name) = (factoryNodes resources).map DbNode.name := by
      rw [← hnodes, List.map_map]
      rfl
    rw [hnames, factoryNodes, List.map_map]
    exact firstNamed_nodup _ resources
  refine ⟨ys.foldl putElement fun _ => none, ?_, fun name => ?_⟩
  · rw [loadResources_eq]
    exact congrArg _ hys
  · rw [foldl_putElement hnodup, ← hnodes, List.find?_map, Option.or_none, Option.bind_map,
      Option.map_map]
    exact (Option.map_eq_bind ..).symm

section

variable {values : List Position → List Position} (hvalues : ∀ l, (values l).Perm l)
  {resources : List ResourceNode} {members : List Member}

include hvalues in
theorem map_loaded_perm {rs : List ShellResource}
    (h : (values (factoryPositions resources)).mapM loadFromXml = some rs) {δ : Type}
    {g : ShellResource → δ} (hg : ∀ r params, g { r with params := params } = g r) :
    (rs.map g).Perm ((factoryNodes resources).map fun r => g (ResourceNode.resource r)) := by
  rw [factoryNodes, List.map_map]
  refine map_perm_of_mapM h (hvalues _) fun x _ fields hfields => ?_
  obtain ⟨params, rfl⟩ := loadFromXml_position hfields
  exact hg _ params

structure LoadedFor (values : List Position → List Position) (resources : List ResourceNode)
    (members : List Member) (loaded : List (ShellAssembly × List ShellResource)) : Prop where
  assemblies : loaded.map Prod.fst = members.map (Member.shell values resources)
  resources : ∀ x ∈ loaded, (values (factoryPositions resources)).mapM loadFromXml = some x.2

omit hvalues in
theorem loadedFor_of_load {name monitor username : Option CString}
    {loaded : List (ShellAssembly × List ShellResource)}
    (h : ShellDeployable.load
      ⟨name, monitor, username, members.map (Member.shell values resources)⟩ = some loaded) :
    LoadedFor values resources members loaded := by
  have hall := forall₂_of_mapM h
  constructor
  · refine (map_eq_of_forall₂ (g := id) hall fun a _ x hx => ?_).symm.trans (List.map_id _)
    obtain ⟨rs, -, rfl⟩ := Option.map_eq_some_iff.mp hx
    rfl
  · intro x hx
    obtain ⟨a, ha, hax⟩ := exists_of_forall₂ hall.flip hx
    obtain ⟨m, -, rfl⟩ := List.mem_map.mp ha
    obtain ⟨rs, hrs, rfl⟩ := Option.map_eq_some_iff.mp hax
    exact hrs

namespace LoadedFor

variable {loaded : List (ShellAssembly × List ShellResource)}
  (h : LoadedFor values resources members loaded)

include h

omit hvalues in
theorem texts : loaded.map (fun x => x.1.text) = members.map Member.name := by
  have hfst := congrArg (List.map ShellAssembly.text) h.assemblies
  rwa [List.map_map, List.map_map] at hfst

include hvalues

theorem names_perm {x : ShellAssembly × List ShellResource} (hx : x ∈ loaded) :
    (x.2.map ShellResource.text).Perm ((factoryNodes resources).map DbNode.name) :=
  map_loaded_perm hvalues (h.resources x hx) fun _ _ => rfl

theorem name_mem {x : ShellAssembly × List ShellResource} (hx : x ∈ loaded)
    {r : ShellResource} (hr : r ∈ x.2) : ∃ node ∈ resources, node.name = r.text := by
  have hmem := (h.names_perm hvalues hx).mem_iff.mp (List.mem_map_of_mem hr)
  rw [factoryNodes, List.map_map] at hmem
  obtain ⟨y, hy, hname⟩ := List.mem_map.mp hmem
  exact ⟨y.1, (firstNamed_not_found hy).2, hname⟩

theorem fits {file : List AssemblyElement} (hdeploys : Deploys file resources members) :
    Fits loaded := by
  have hnames : (loaded.map fun x => x.1.text).Nodup := by
    rw [h.texts]
    exact hdeploys.names_nodup
  have hmember : ∀ x ∈ loaded, ∃ m ∈ members, m.name = x.1.text := fun x hx =>
    List.mem_map.mp (h.texts ▸ List.mem_map_of_mem hx)
  refine ⟨fun x hx => ?_, fun x hx r hr => ?_, hnames, ?_⟩
  · obtain ⟨m, hm, hname⟩ := hmember x hx
    exact hname ▸ hdeploys.assembly_name m hm
  · obtain ⟨node, hnode, hname⟩ := h.name_mem hvalues hx hr
    exact hname ▸ hdeploys.resource_name node hnode
  · refine List.nodup_flatMap.mpr ⟨fun x hx => ?_, ?_⟩
    · have htexts : (x.2.map ShellResource.text).Nodup := by
        rw [(h.names_perm hvalues hx).nodup_iff, factoryNodes, List.map_map]
        exact firstNamed_nodup _ _
      rw [← Function.comp_def (qualified "rsc_" x.1.text), ← List.map_map]
      refine htexts.map fun name name' hid => ?_
      exact List.cons.inj (List.append_cancel_left (qualified_inj.mp hid)) |>.2
    · refine (List.pairwise_map.mp hnames).imp_of_mem fun {x y} hx hy hne => ?_
      refine List.disjoint_left.mpr fun id hidx hidy => ?_
      obtain ⟨r, hr, rfl⟩ := List.mem_map.mp hidx
      obtain ⟨r', hr', hid⟩ := List.mem_map.mp hidy
      obtain ⟨m, hm, hmname⟩ := hmember x hx
      obtain ⟨m', hm', hmname'⟩ := hmember y hy
      obtain ⟨node, hnode, hname⟩ := h.name_mem hvalues hx hr
      obtain ⟨node', hnode', hname'⟩ := h.name_mem hvalues hy hr'
      rw [← hmname, ← hmname', ← hname, ← hname'] at hid
      have hsame := hdeploys.ids_apart m' hm' m hm node' hnode' node hnode hid
      exact hne (hmname.symm.trans (hsame.symm.trans hmname'))

end LoadedFor

end

namespace ResourceDb

theorem generateConfig_of_known {s : ResourceDb} {before : List AssemblyElement}
    {last : AssemblyElement} (hfile : s.file = before ++ [last]) {members : List Member}
    (hknown : ∀ m ∈ members, s.file.any (·.name = m.name))
    (values : List Position → List Position) (name monitor username : Option CString) :
    s.generateConfig values name monitor username members =
      PacemakerCloud.generateConfig
        ⟨name, monitor, username, members.map (Member.shell values last.body)⟩ := by
  have hroots : (members.mapM fun m =>
      (s.start.rootNode m.name).map fun root => m.shell values root.body) =
      some (members.map (Member.shell values last.body)) := by
    refine mapM_of_forall fun m hm => ?_
    have hlast : s.start.rootNode m.name = some last := by
      rw [rootNode_eq_getLast? (hknown m hm)]
      exact (congrArg List.getLast? hfile).trans List.getLast?_concat
    rw [hlast, Option.map_some]
  rw [generateConfig, hroots]
  rfl

/--
The factory of the assembly has the first of these elements of every name, and its node has
their resources, for the daemon and the policy engine.
-/
structure RunsOn (resources : List ResourceNode) (document : Xml) (dep : Deployable)
    (m : Member) : Prop where
  factory : ∃ all, loadResources (fun _ => none) resources = some all ∧ ∀ name,
    (all name).bind ResourceObject.xmlNode =
      ((factoryNodes resources).find? (·.name = name)).map DbNode.id
  daemon : ∃ a, dep.assembly? m.name = some a ∧ (resourceMap a).Perm
    ((factoryNodes resources).map fun r => (ResourceNode.resource r).info m.name)
  engine : ((cf2pe document).primitivesOn m.name).Perm
    ((factoryNodes resources).map fun r => (ResourceNode.resource r).primitive m.name)

/--
Whatever is added, set or removed, and for whichever assembly, in the file only the resources
of the last assembly change; and a deployable has these resources on the node of every
assembly that belongs to it.
-/
theorem last_deployed {templates : CString → TemplateFile} {s s' : ResourceDb}
    {before : List AssemblyElement} {last : AssemblyElement} {lines : List ResourceLine}
    (hs : s.Numbered) (hfile : s.file = before ++ [last])
    (hrun : run (ResourceDb.lineStep templates) s.start lines = .ok s') :
    ∃ resources, s'.file = before ++ [⟨last.id, last.name, resources⟩] ∧
      ∀ values name monitor username members document,
        (∀ l, (values l).Perm l) → Deploys s'.file resources members →
        s'.generateConfig values name monitor username members = some document →
        ∃ dep, parseAndLoad document = some dep ∧
          dep.assemblies.map AssemblyNode.name = members.map Member.name ∧
          ∀ m ∈ members, RunsOn resources document dep m := by
  obtain ⟨resources, hfile'⟩ := hs.run hfile hrun
  refine ⟨resources, hfile', fun values name monitor username members document hvalues hdeploys
    hdocument => ?_⟩
  rw [generateConfig_of_known hfile' hdeploys.known] at hdocument
  obtain ⟨loaded, hload, rfl⟩ := Option.map_eq_some_iff.mp hdocument
  have hloaded := loadedFor_of_load hload
  have hfits := hloaded.fits hvalues hdeploys
  obtain ⟨dep, hparse, hdep⟩ := hfits.parseAndLoad_document (d := ⟨name, monitor, username, _⟩)
  refine ⟨dep, hparse, ?_, fun m hm => ?_⟩
  · rw [hdep, List.map_map]
    exact hloaded.texts
  · obtain ⟨x, hx, hname⟩ : ∃ x ∈ loaded, x.1.text = m.name := by
      have hmem : m.name ∈ loaded.map fun x => x.1.text :=
        hloaded.texts ▸ List.mem_map_of_mem hm
      exact List.mem_map.mp hmem
    have hperm : ∀ {δ : Type} {g : ShellResource → δ},
        (∀ r params, g { r with params := params } = g r) →
        (x.2.map g).Perm ((factoryNodes resources).map fun r => g (ResourceNode.resource r)) :=
      map_loaded_perm hvalues (hloaded.resources x hx)
    constructor
    · refine exists_loadResources fun p hp => ?_
      have hsome : ((values (factoryPositions resources)).mapM loadFromXml).isSome :=
        Option.isSome_iff_exists.mpr ⟨x.2, hloaded.resources x hx⟩
      exact mapM_isSome.mp hsome p ((hvalues _).mem_iff.mpr hp)
    · refine ⟨shellNode x, hname ▸ assembly?_shellNode hdep hx, ?_⟩
      rw [hfits.resourceMap_shellNode hx, hname]
      exact hperm fun _ _ => rfl
    · rw [← hname, hfits.primitivesOn_document hx]
      exact hperm fun _ _ => rfl

def webAndDb : ResourceDb where
  doc := [⟨0, "web".toList, []⟩, ⟨1, "db".toList, []⟩]
  file := [⟨0, "web".toList, []⟩, ⟨1, "db".toList, []⟩]
  copies := []
  started := 0
  rfs := fun _ => none

def webAndDbMembers : List Member :=
  [⟨"web".toList, some "1".toList, "3".toList, "60".toList⟩,
    ⟨"db".toList, some "2".toList, "3".toList, "60".toList⟩]

/-- A resource that is added to `web` runs on the node of `db` as well. -/
theorem last_deployed_both :
    ∃ s' document dep, run (ResourceDb.lineStep dummyTemplates) webAndDb.start
        [.command addDummy] = .ok s' ∧
      s'.generateConfig id (some "foo".toList) none none webAndDbMembers = some document ∧
      parseAndLoad document = some dep ∧
      ∀ m ∈ webAndDbMembers, ∃ a, dep.assembly? m.name = some a ∧
        (resourceMap a).map ResourceInfo.name = [qualified "rsc_" m.name "rsc".toList] := by
  have hnumbered : webAndDb.Numbered := ⟨by decide, by decide, by decide⟩
  have hends : endsIn (ResourceDb.lineStep dummyTemplates) webAndDb.start [.command addDummy]
      (fun s' => decide ((s'.file.map fun element => element.body.map DbNode.name) =
          [[], ["rsc".toList]] ∧
        (webAndDbMembers.all fun m => s'.file.any (·.name = m.name)) = true ∧
        (s'.generateConfig id (some "foo".toList) none none webAndDbMembers).isSome)) = true := by
    decide +kernel
  obtain ⟨s', hrun, hs'⟩ := exists_of_endsIn hends
  obtain ⟨hnames, hknown, hsome⟩ := of_decide_eq_true hs'
  obtain ⟨document, hdocument⟩ := Option.isSome_iff_exists.mp hsome
  have hbefore : webAndDb.file = [⟨0, "web".toList, []⟩] ++ [⟨1, "db".toList, []⟩] := rfl
  obtain ⟨resources, hfile, hdeployed⟩ := last_deployed hnumbered hbefore hrun
  obtain ⟨node, rfl, hname⟩ : ∃ node, resources = [node] ∧ node.name = "rsc".toList := by
    rw [hfile] at hnames
    exact List.map_eq_singleton_iff.mp (List.cons.inj (List.cons.inj hnames).2).1
  have hdeploys : Deploys s'.file [node] webAndDbMembers := by
    refine ⟨List.all_eq_true.mp hknown, by decide, by decide, ?_, ?_⟩
    · simp only [List.mem_singleton, forall_eq, hname]
      decide
    · simp only [List.mem_singleton, forall_eq, hname]
      decide +kernel
  obtain ⟨dep, hparse, -, hall⟩ := hdeployed id _ _ _ _ document (fun l => .refl l) hdeploys
    hdocument
  refine ⟨s', document, dep, hrun, hdocument, hparse, fun m hm => ?_⟩
  obtain ⟨a, ha, hperm⟩ := (hall m hm).daemon
  refine ⟨a, ha, ?_⟩
  rw [List.perm_singleton.mp hperm, ← hname]
  rfl

end ResourceDb

end PacemakerCloud

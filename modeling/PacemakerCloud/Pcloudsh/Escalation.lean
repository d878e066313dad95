import Mathlib.Data.List.Forall2
import PacemakerCloud.Pcloudsh.Resources

/-!
# The escalation of a resource

A resource that was added has the attributes of its template in the file and those of a new
object in the shell.  When the object is saved again it overwrites the template's, unless a
shell that was started since has read it from the file.  In runs that keep to this, a change
of the escalation changes nothing else.
-/

namespace PacemakerCloud

open Foundation

/-! ## Reading and writing an element -/

theorem present_cons_none (attr : String) (attrs : List (String × Option CString)) :
    present ((attr, none) :: attrs) = present attrs := rfl

theorem present_cons_some (attr : String) (text : CString)
    (attrs : List (String × Option CString)) :
    present ((attr, some text) :: attrs) = (attr.toList, text) :: present attrs := rfl

theorem lookup_present {attrs : List (String × Option CString)}
    (h : (attrs.map Prod.fst).Nodup) (attr : String) :
    (present attrs).lookup attr.toList = (attrs.lookup attr).join := by
  induction attrs with
  | nil => rfl
  | cons first attrs ih =>
      obtain ⟨attr', value⟩ := first
      obtain ⟨hnew, hkeys⟩ := List.nodup_cons.mp h
      by_cases heq : attr = attr'
      · subst heq
        cases value with
        | none =>
            -- an attribute that is left out is not found further on either
            have hnone : attrs.lookup attr = none :=
              List.lookup_eq_none_iff.mpr fun p hp =>
                bne_iff_ne.mpr fun hkey => hnew (List.mem_map.mpr ⟨p, hp, hkey.symm⟩)
            rw [present_cons_none, ih hkeys, hnone]
            simp
        | some text =>
            rw [present_cons_some]
            simp
      · have hlist : attr.toList ≠ attr'.toList := fun h => heq (String.toList_inj.mp h)
        have hskip : ((attr', value) :: attrs).lookup attr = attrs.lookup attr := by
          rw [List.lookup_cons, beq_eq_false_iff_ne.mpr heq]
        rw [hskip, ← ih hkeys]
        cases value with
        | none => rw [present_cons_none]
        | some text => rw [present_cons_some, List.lookup_cons, beq_eq_false_iff_ne.mpr hlist]

structure ShellResource.ReadFrom (fields : ShellResource) (r : ResourceNode) : Prop where
  name : fields.name = some r.name
  type : fields.type = r.body.type
  klass : fields.klass = r.body.klass
  provider : fields.provider = r.body.provider
  monitorInterval : fields.monitorInterval = r.body.monitorInterval

theorem attr?_toXml (r : ResourceNode) (attr : String) :
    r.toXml.attr? attr = (r.attrs.lookup attr).join := by
  have hkeys : (r.attrs.map Prod.fst).Nodup := by
    simp [ResourceNode.attrs]
  exact lookup_present hkeys attr

theorem readFrom_of_loadFromXml {r : ResourceNode} {rest : List ResourceNode}
    {fields : ShellResource} (h : loadFromXml (position (r :: rest)) = some fields) :
    fields.ReadFrom r := by
  obtain ⟨tail, htail⟩ : ∃ tail, position (r :: rest) = r.toXml :: tail :=
    ⟨_, List.cons_append⟩
  rw [htail, loadFromXml] at h
  split at h
  all_goals
    obtain ⟨params, -, hfields⟩ := Option.bind_eq_some_iff.mp h
    cases hfields
    constructor <;> exact attr?_toXml r _

theorem readFrom_of_loadResources {resources : List ResourceNode}
    {all all' : CString → Option ResourceObject} {name : CString} {r : ResourceObject}
    (h : loadResources all resources = some all') (hr : all' name = some r) :
    all name = some r ∨
      ∃ node ∈ resources, node.name = name ∧ r.xmlNode = some node.id ∧ r.fields.ReadFrom node := by
  induction resources generalizing all with
  | nil =>
      cases h
      exact Or.inl hr
  | cons node rest ih =>
      have hrest : ∀ {all}, loadResources all rest = some all' →
          all name = some r ∨ ∃ node' ∈ node :: rest, node'.name = name ∧
            r.xmlNode = some node'.id ∧ r.fields.ReadFrom node' := by
        intro all hall
        refine (ih hall).imp_right ?_
        rintro ⟨node', hmem, hnode'⟩
        exact ⟨node', List.mem_cons_of_mem _ hmem, hnode'⟩
      rw [loadResources] at h
      split at h
      -- the name is there already, and the element is skipped
      case isTrue => exact hrest h
      case isFalse =>
        split at h
        case h_1 => cases h
        case h_2 fields hfields =>
          rcases hrest h with hfound | hlater
          · rcases update_eq_some.mp hfound with ⟨rfl, hnew⟩ | ⟨-, hold⟩
            · cases hnew
              exact Or.inr ⟨node, List.mem_cons_self, rfl, rfl, readFrom_of_loadFromXml hfields⟩
            · exact Or.inl hold
          · exact Or.inr hlater

def Template.Complete (t : Template) : Prop :=
  t.type.isSome ∧ t.klass.isSome ∧ t.provider.isSome ∧ t.monitorInterval.isSome

def Template.LikeNew (name : CString) (t : Template) : Prop :=
  t.type = some name ∧ t.klass = some "lsb".toList ∧ t.provider = some "heartbeat".toList ∧
    t.monitorInterval = some "60s".toList

instance (t : Template) : Decidable t.Complete := inferInstanceAs (Decidable (_ ∧ _ ∧ _ ∧ _))

instance (name : CString) (t : Template) : Decidable (t.LikeNew name) :=
  inferInstanceAs (Decidable (_ ∧ _ ∧ _ ∧ _))

structure ShellResource.Rewrites (r : ShellResource) (t : Template) : Prop where
  type : setProp r.type = t.type
  klass : setProp r.klass = t.klass
  provider : setProp r.provider = t.provider
  monitorInterval : setProp r.monitorInterval = t.monitorInterval

theorem ShellResource.Rewrites.toTemplate_write {r : ShellResource} {e : ResourceElement}
    (h : r.Rewrites e.toTemplate) : (r.write e).toTemplate = e.toTemplate := by
  rw [ShellResource.write, h.type, h.klass, h.provider, h.monitorInterval]

theorem ShellResource.ReadFrom.rewrites {r : ShellResource} {node : ResourceNode}
    (h : r.ReadFrom node) (hcomplete : node.body.Complete) : r.Rewrites node.body.toTemplate := by
  have hset : ∀ {value : Option CString}, value.isSome → setProp value = value := by
    intro value hvalue
    obtain ⟨text, rfl⟩ := Option.isSome_iff_exists.mp hvalue
    rfl
  obtain ⟨htype, hklass, hprovider, hinterval⟩ := hcomplete
  refine ⟨?_, ?_, ?_, ?_⟩
  · rw [h.type, hset htype]
  · rw [h.klass, hset hklass]
  · rw [h.provider, hset hprovider]
  · rw [h.monitorInterval, hset hinterval]

theorem Template.LikeNew.complete {name : CString} {t : Template} (h : t.LikeNew name) :
    t.Complete := by
  simp [Template.Complete, h.1, h.2.1, h.2.2.1, h.2.2.2]

theorem Template.LikeNew.rewrites {name rsc : CString} {t : Template} (h : t.LikeNew name) :
    ((newResource rsc).setType name).Rewrites t :=
  ⟨h.1.symm, h.2.1.symm, h.2.2.1.symm, h.2.2.2.symm⟩

/-! ## Commands that keep to the template -/

namespace ResourceDb

variable {s s' : ResourceDb} {templates : CString → TemplateFile} {assembly rsc : CString}
  {rf : ResourceFactory} {r : ResourceObject} {node : ResourceNode} {last : AssemblyElement}

def persisted (s : ResourceDb) : List ResourceNode := s.file.flatMap DbNode.body

/-- The element was there when the shell was started, or is what a new object says. -/
def Escalatable (s : ResourceDb) (node : ResourceNode) : Prop :=
  node.id < s.started ∧ node.body.Complete ∨
    (s.copies[node.id]?).any fun copy => copy.2.LikeNew copy.1

/--
The escalation is only set for resources of the last assembly, and for elements that the
object agrees with.
-/
def KeepsTemplate (s : ResourceDb) : ResourceCommand → Prop
  | .escalationSet rsc assembly _ _ =>
      ∀ last ∈ s.doc.getLast?.toList, ∀ node ∈ last.body, node.name = rsc →
        last.name = assembly ∧ s.Escalatable node
  | .add _ _ _ | .restart => True

/-- Every resource in the file has the attributes and the parameters of its template. -/
def FollowsTemplates (s : ResourceDb) : Prop :=
  ∀ node ∈ s.persisted, (s.copies[node.id]?).map Prod.snd = some node.body.toTemplate

structure Holds (s : ResourceDb) (rf : ResourceFactory) (last : AssemblyElement) : Prop where
  root : rf.root = last.id
  objects : ∀ {name r}, rf.all name = some r → r.fields.name = some name ∧
    ∃ node ∈ last.body, r.xmlNode = some node.id ∧ node.name = name ∧
      (s.Escalatable node → r.fields.Rewrites node.body.toTemplate)

structure Stored (s : ResourceDb) : Prop where
  assemblies : (s.file.map DbNode.id).Nodup
  ids : (s.persisted.map DbNode.id).Nodup
  templates : s.FollowsTemplates

structure Sound (s : ResourceDb) : Prop extends Stored s where
  saved : s.doc = s.file
  started : s.started ≤ s.copies.length
  factories : ∀ {assembly rf}, s.rfs assembly = some rf →
    ∃ last, s.doc.getLast? = some last ∧ s.Holds rf last

theorem Stored.start (h : s.Stored) : s.start.Sound :=
  ⟨⟨h.assemblies, h.ids, h.templates⟩, rfl, le_rfl, fun hrf => by cases hrf⟩

theorem Sound.start (h : s.Sound) : s.start.Sound := h.toStored.start

structure SameResource (node node' : ResourceNode) : Prop where
  id : node'.id = node.id
  name : node'.name = node.name
  template : node'.body.toTemplate = node.body.toTemplate

theorem SameResource.refl (node : ResourceNode) : SameResource node node := ⟨rfl, rfl, rfl⟩

theorem SameResource.escalatable_iff {node' : ResourceNode} (h : SameResource node node') :
    s.Escalatable node' ↔ s.Escalatable node := by
  rw [Escalatable, Escalatable, h.id, h.template]

theorem mem_persisted {element : AssemblyElement} (helement : element ∈ s.file)
    (hnode : node ∈ element.body) : node ∈ s.persisted :=
  List.mem_flatMap.mpr ⟨element, helement, hnode⟩

theorem Stored.eq_of_id (h : s.Stored) {element element' : AssemblyElement}
    {node' : ResourceNode} (helement : element ∈ s.file) (helement' : element' ∈ s.file)
    (hnode : node ∈ element.body) (hnode' : node' ∈ element'.body) (hid : node.id = node'.id) :
    element = element' ∧ node = node' :=
  ⟨eq_of_nodup_flatMap h.ids helement helement' hnode hnode' hid,
    List.inj_on_of_nodup_map h.ids (mem_persisted helement hnode)
      (mem_persisted helement' hnode') hid⟩

theorem Stored.id_lt (h : s.Stored) (hnode : node ∈ s.persisted) :
    node.id < s.copies.length := by
  obtain ⟨copy, hcopy, -⟩ := Option.map_eq_some_iff.mp (h.templates node hnode)
  exact (List.getElem?_eq_some_iff.mp hcopy).1

theorem Stored.complete_of_escalatable (h : s.Stored) (hnode : node ∈ s.persisted)
    (hesc : s.Escalatable node) : node.body.Complete := by
  rcases hesc with ⟨-, hcomplete⟩ | hnew
  · exact hcomplete
  · obtain ⟨copy, hcopy, htemplate⟩ := Option.map_eq_some_iff.mp (h.templates node hnode)
    rw [hcopy, Option.any_some, decide_eq_true_eq, htemplate] at hnew
    exact hnew.complete

theorem Sound.last_mem (h : s.Sound) (hlast : s.doc.getLast? = some last) : last ∈ s.file :=
  h.saved ▸ List.mem_of_getLast? hlast

theorem Holds.mono {last' : AssemblyElement} (h : s.Holds rf last) (hid : last'.id = last.id)
    (hbody : last.body ⊆ last'.body)
    (hesc : ∀ node ∈ last.body, s'.Escalatable node → s.Escalatable node) :
    s'.Holds rf last' := by
  refine ⟨h.root.trans hid.symm, fun hr => ?_⟩
  obtain ⟨hname, node, hmem, hxml, hkey, hrewrites⟩ := h.objects hr
  exact ⟨hname, node, hbody hmem, hxml, hkey, fun h => hrewrites (hesc node hmem h)⟩

theorem Holds.put (h : s.Holds rf last) (hname : r.fields.name = some rsc)
    (hnode : ∃ node ∈ last.body, r.xmlNode = some node.id ∧ node.name = rsc ∧
      (s.Escalatable node → r.fields.Rewrites node.body.toTemplate)) :
    s.Holds (rf.put rsc r) last := by
  refine ⟨h.root, fun {name r'} hr' => ?_⟩
  rcases update_eq_some.mp hr' with ⟨rfl, hnew⟩ | ⟨-, hold⟩
  · cases hnew
    exact ⟨hname, hnode⟩
  · exact h.objects hold

theorem Sound.setFactory (h : s.Sound) (hlast : s.doc.getLast? = some last)
    (hholds : s.Holds rf last) (assembly : CString) : (s.setFactory assembly rf).Sound := by
  refine ⟨⟨h.assemblies, h.ids, h.templates⟩, h.saved, h.started, fun {a rf'} ha => ?_⟩
  rcases update_eq_some.mp ha with ⟨rfl, hnew⟩ | ⟨-, hold⟩
  · cases hnew
    exact ⟨last, hlast, hholds.root, hholds.objects⟩
  · obtain ⟨last', hlast', hholds'⟩ := h.factories hold
    exact ⟨last', hlast', hholds'.root, hholds'.objects⟩

theorem put_of_factory (hrf : s.rfs assembly = some rf) :
    s.put assembly rsc r = s.setFactory assembly (rf.put rsc r) := by
  rw [put, hrf]

/-! ## Setting up a factory -/

theorem rootNode_eq_getLast? (h : s.doc.any (·.name = assembly)) :
    s.rootNode assembly = s.doc.getLast? := by
  have hne : s.doc.dropWhile (·.name ≠ assembly) ≠ [] := by
    intro hnil
    have hother : s.doc.all (·.name ≠ assembly) := by
      rw [← List.takeWhile_append_dropWhile (p := fun node => node.name ≠ assembly) (l := s.doc),
        hnil, List.append_nil]
      exact List.all_takeWhile
    obtain ⟨element, hmem, hname⟩ := List.any_eq_true.mp h
    have hne := List.all_eq_true.mp hother element hmem
    simp only [decide_eq_true_eq] at hname hne
    exact hne hname
  conv_rhs =>
    rw [← List.takeWhile_append_dropWhile (p := fun node => node.name ≠ assembly) (l := s.doc)]
  rw [List.getLast?_append_of_ne_nil _ hne]
  rfl

structure SetUp (s : ResourceDb) (assembly : CString) (s' : ResourceDb) : Prop where
  sound : s'.Sound
  file : s'.file = s.file
  keeps : ∀ {command}, s.KeepsTemplate command → s'.KeepsTemplate command
  factory : ∃ rf, s'.rfs assembly = some rf

theorem Sound.resourceFactorySetup (h : s.Sound) (hassembly : s.doc.any (·.name = assembly)) :
    Ends (fun s' => s' = s) (s.SetUp assembly) (s.resourceFactorySetup assembly) := by
  rw [ResourceDb.resourceFactorySetup, rootNode_eq_getLast? hassembly]
  cases hrf : s.rfs assembly with
  | some rf => exact ⟨h, rfl, id, rf, hrf⟩
  | none =>
      cases hlast : s.doc.getLast? with
      | none => rfl
      | some last =>
          cases hload : loadResources (fun _ => none) last.body with
          | none =>
              simp only [hload]
              rfl
          | some all =>
              simp only [hload]
              refine ⟨h.setFactory hlast ⟨rfl, fun {name r} hr => ?_⟩ assembly, rfl, ?_, _,
                Function.update_self ..⟩
              obtain hnone | ⟨node, hmem, hname, hxml, hread⟩ :=
                readFrom_of_loadResources hload hr
              · cases hnone
              · exact ⟨hname ▸ hread.name, node, hmem, hxml, hname, fun hesc =>
                  hread.rewrites (h.complete_of_escalatable
                    (mem_persisted (h.last_mem hlast) hmem) hesc)⟩
              · intro command hkeeps
                cases command <;> exact hkeeps

/-! ## What a command changes -/

/--
A command that adds a resource leaves the others as they are; one that sets an escalation
changes that of the named resource only.
-/
def ChangesOnly (before after : List AssemblyElement) : ResourceCommand → Prop
  | .add _ _ _ =>
      List.Forall₂ (fun element element' => element'.id = element.id ∧
        element'.name = element.name ∧ element.body <+: element'.body) before after
  | .escalationSet rsc assembly _ _ =>
      List.Forall₂ (fun element element' => element'.id = element.id ∧
        element'.name = element.name ∧
        List.Forall₂ (fun node node' => SameResource node node' ∧
          (node' = node ∨ element.name = assembly ∧ node.name = rsc))
          element.body element'.body) before after
  | .restart => after = before

theorem changesOnly_refl (file : List AssemblyElement) (command : ResourceCommand) :
    ChangesOnly file file command := by
  cases command with
  | add rsc template assembly =>
      exact List.forall₂_same.mpr fun element _ => ⟨rfl, rfl, List.prefix_rfl⟩
  | escalationSet rsc assembly failures period =>
      exact List.forall₂_same.mpr fun element _ =>
        ⟨rfl, rfl, List.forall₂_same.mpr fun node _ => ⟨.refl node, Or.inl rfl⟩⟩
  | restart => rfl

/-! ## Setting the escalation -/

theorem Sound.rewrite_save (h : s.Sound) {id : Nat} {change : ResourceNode → ResourceNode}
    (hchange : ∀ node ∈ s.persisted, node.id = id → SameResource node (change node)) :
    (s.rewrite id change).save.Sound := by
  set g : ResourceNode → ResourceNode := fun node => if node.id = id then change node else node
    with hg
  have hsame : ∀ node ∈ s.persisted, SameResource node (g node) := by
    intro node hnode
    by_cases hid : node.id = id
    · simpa [hg, hid] using hchange node hnode hid
    · simpa [hg, hid] using SameResource.refl node
  have hfile : (s.rewrite id change).save.file =
      s.file.map fun element => { element with body := element.body.map g } := by
    rw [← h.saved]
    rfl
  have hpersisted : (s.rewrite id change).save.persisted = s.persisted.map g := by
    rw [persisted, hfile, List.flatMap_map, persisted, List.map_flatMap]
  refine ⟨⟨?_, ?_, ?_⟩, rfl, h.started, fun {a rf} ha => ?_⟩
  · rw [hfile, List.map_map]
    exact h.assemblies
  · rw [hpersisted, List.map_map]
    exact List.map_congr_left (fun node hnode => (hsame node hnode).id) ▸ h.ids
  · intro node' hnode'
    rw [hpersisted] at hnode'
    obtain ⟨node, hnode, rfl⟩ := List.mem_map.mp hnode'
    rw [(hsame node hnode).id, (hsame node hnode).template]
    exact h.templates node hnode
  · obtain ⟨last, hlast, hholds⟩ := h.factories ha
    refine ⟨{ last with body := last.body.map g }, ?_, hholds.root, fun {name r} hr => ?_⟩
    · have hgetLast : (s.rewrite id change).save.doc.getLast? =
          s.doc.getLast?.map fun element => { element with body := element.body.map g } :=
        List.getLast?_map
      rw [hgetLast, hlast, Option.map_some]
    · obtain ⟨hname, node, hmem, hxml, hkey, hrewrites⟩ := hholds.objects hr
      have hkept := hsame node (mem_persisted (h.last_mem hlast) hmem)
      refine ⟨hname, g node, List.mem_map_of_mem hmem, hkept.id ▸ hxml, hkept.name.trans hkey,
        fun hesc => ?_⟩
      rw [hkept.template]
      exact hrewrites (hkept.escalatable_iff.mp hesc)

theorem Sound.changesOnly_rewrite (h : s.Sound) {id : Nat} {failures period : CString}
    {change : ResourceNode → ResourceNode}
    (hchange : ∀ element ∈ s.file, ∀ node ∈ element.body, node.id = id →
      SameResource node (change node) ∧ element.name = assembly ∧ node.name = rsc) :
    ChangesOnly s.file (s.rewrite id change).save.file
      (.escalationSet rsc assembly failures period) := by
  rw [← h.saved] at hchange ⊢
  refine List.forall₂_map_right_iff.mpr (List.forall₂_same.mpr fun element helement => ?_)
  refine ⟨rfl, rfl, List.forall₂_map_right_iff.mpr (List.forall₂_same.mpr ?_)⟩
  intro node hnode
  by_cases hid : node.id = id
  · obtain ⟨hsame, hplace⟩ := hchange element helement node hnode hid
    rw [if_pos hid]
    exact ⟨hsame, Or.inr hplace⟩
  · rw [if_neg hid]
    exact ⟨.refl node, Or.inl rfl⟩

theorem saveResource_of_node {id : Nat} (hrf : s.rfs assembly = some rf)
    (hr : rf.all rsc = some r) (hid : r.xmlNode = some id) :
    s.saveResource templates assembly rsc =
      .ok (s.rewrite id fun node =>
        ⟨node.id, r.fields.name.getD [], r.fields.write node.body⟩) := by
  simp only [saveResource, hrf, hr, hid]

theorem Sound.escalationSet (templates : CString → TemplateFile) (h : s.Sound)
    (hrf : s.rfs assembly = some rf) (hr : rf.all rsc = some r) {failures period : CString}
    (hkeeps : s.KeepsTemplate (.escalationSet rsc assembly failures period)) :
    ∃ s', (s.put assembly rsc ⟨r.xmlNode, r.fields.setEscalation failures period⟩).saveResource
        templates assembly rsc = .ok s' ∧
      s'.save.Sound ∧
      ChangesOnly s.file s'.save.file (.escalationSet rsc assembly failures period) := by
  obtain ⟨last, hlast, hholds⟩ := h.factories hrf
  obtain ⟨hname, node, hmem, hxml, hkey, hrewrites⟩ := hholds.objects hr
  obtain ⟨hassembly, hesc⟩ := hkeeps last (by simp [hlast]) node hmem hkey
  set r' : ResourceObject := ⟨r.xmlNode, r.fields.setEscalation failures period⟩
  rw [put_of_factory hrf]
  have hrewrites' : r'.fields.Rewrites node.body.toTemplate := by
    obtain ⟨htype, hklass, hprovider, hinterval⟩ := hrewrites hesc
    exact ⟨htype, hklass, hprovider, hinterval⟩
  have hput : (s.setFactory assembly (rf.put rsc r')).Sound :=
    h.setFactory hlast
      (hholds.put (r := r') hname ⟨node, hmem, hxml, hkey, fun _ => hrewrites'⟩) assembly
  have hchange : ∀ element ∈ s.file, ∀ node' ∈ element.body, node'.id = node.id →
      SameResource node' ⟨node'.id, r'.fields.name.getD [], r'.fields.write node'.body⟩ ∧
        element.name = assembly ∧ node'.name = rsc := by
    intro element helement node' hnode' hid
    -- the number is that of one element of one assembly only
    obtain ⟨rfl, rfl⟩ := h.eq_of_id helement (h.last_mem hlast) hnode' hmem hid
    refine ⟨⟨rfl, ?_, hrewrites'.toTemplate_write⟩, hassembly, hkey⟩
    rw [hkey]
    exact congrArg (Option.getD · []) hname
  refine ⟨_, saveResource_of_node (Function.update_self ..) (Function.update_self ..) hxml,
    hput.rewrite_save fun node' hnode' hid => ?_, hput.changesOnly_rewrite hchange⟩
  obtain ⟨element, helement, hbody⟩ := List.mem_flatMap.mp hnode'
  exact (hchange element helement node' hbody hid).1

/-! ## Adding a resource -/

theorem doc_addChild {before : List AssemblyElement} {root : Nat}
    (hdoc : s.doc = before ++ [last]) (hids : (s.doc.map DbNode.id).Nodup)
    (hroot : root = last.id) (node : ResourceNode) :
    (s.addChild root node).doc = before ++ [{ last with body := last.body ++ [node] }] := by
  have hother : ∀ element ∈ before, element.id ≠ root := by
    intro element helement heq
    rw [hdoc, List.map_append, List.nodup_append] at hids
    exact hids.2.2 element.id (List.mem_map_of_mem helement) last.id (by simp)
      (heq.trans hroot)
  have hmap : (s.addChild root node).doc = s.doc.map fun element =>
      if element.id = root then { element with body := element.body ++ [node] }
      else element := rfl
  rw [hmap, hdoc, List.map_append,
    map_eq_self_iff.mpr fun element helement => if_neg (hother element helement)]
  simp [hroot]

def newNode (s : ResourceDb) (rsc : CString) (t : Template) : ResourceNode :=
  ⟨s.copies.length, rsc, (newResource rsc).copy t⟩

def newObject (s : ResourceDb) (rsc rscType : CString) : ResourceObject :=
  ⟨some s.copies.length, (newResource rsc).setType rscType⟩

def copied (s : ResourceDb) (root : Nat) (rsc rscType : CString) (t : Template) : ResourceDb :=
  { s.addChild root (s.newNode rsc t) with copies := s.copies ++ [(rscType, t)] }

theorem saveResource_of_new {rscType : CString} {t : Template}
    (hrf : s.rfs assembly = some rf) (ht : templates rscType = .template t) :
    (s.put assembly rsc ⟨none, (newResource rsc).setType rscType⟩).saveResource templates
        assembly rsc =
      .ok ((s.copied rf.root rsc rscType t).setFactory assembly
        (rf.put rsc (s.newObject rsc rscType))) := by
  rw [put_of_factory hrf, saveResource]
  simp only [setFactory, Function.update_self, ResourceFactory.put, ShellResource.setType,
    Option.getD_some, ht, put, addChild, copied, newNode, newObject, Function.update_idem]
  rfl

theorem saveResource_of_malformed {rscType : CString} (hrf : s.rfs assembly = some rf)
    (ht : templates rscType = .malformed) (fields : ShellResource) :
    (s.put assembly rsc ⟨none, fields.setType rscType⟩).saveResource templates assembly rsc =
      .error (s.put assembly rsc ⟨none, fields.setType rscType⟩) := by
  rw [put_of_factory hrf, saveResource]
  simp only [setFactory, Function.update_self, ResourceFactory.put, ShellResource.setType,
    Option.getD_some, ht]

section Copied

variable (h : s.Sound) (hlast : s.doc.getLast? = some last) (hholds : s.Holds rf last)
  (rsc rscType : CString) (t : Template)
include h hlast hholds

theorem exists_doc_copied :
    ∃ before, s.file = before ++ [last] ∧ (s.copied rf.root rsc rscType t).doc =
      before ++ [{ last with body := last.body ++ [s.newNode rsc t] }] := by
  obtain ⟨before, hbefore⟩ := List.getLast?_eq_some_iff.mp hlast
  exact ⟨before, h.saved ▸ hbefore,
    doc_addChild hbefore (h.saved ▸ h.assemblies) hholds.root _⟩

theorem changesOnly_copied (template : CString) :
    ChangesOnly s.file (s.copied rf.root rsc rscType t).doc (.add rsc template assembly) := by
  obtain ⟨before, hfile, hdoc⟩ := exists_doc_copied h hlast hholds rsc rscType t
  rw [hfile, hdoc]
  refine List.rel_append (List.forall₂_same.mpr fun element _ => ⟨rfl, rfl, List.prefix_rfl⟩) ?_
  exact .cons ⟨rfl, rfl, List.prefix_append _ _⟩ .nil

theorem getLast?_copied : (s.copied rf.root rsc rscType t).doc.getLast? =
    some { last with body := last.body ++ [s.newNode rsc t] } := by
  obtain ⟨before, -, hdoc⟩ := exists_doc_copied h hlast hholds rsc rscType t
  rw [hdoc, List.getLast?_concat]

theorem persisted_copied : (s.copied rf.root rsc rscType t).save.persisted =
    s.persisted ++ [s.newNode rsc t] := by
  obtain ⟨before, hfile, hdoc⟩ := exists_doc_copied h hlast hholds rsc rscType t
  rw [persisted, save, hdoc, persisted, hfile]
  simp

omit hholds

theorem Holds.copied {rf' : ResourceFactory} (root : Nat) (hrf : s.Holds rf' last) :
    (s.copied root rsc rscType t).Holds rf'
      { last with body := last.body ++ [s.newNode rsc t] } := by
  refine hrf.mono rfl (List.subset_append_left _ _) fun node hnode hesc => ?_
  have hcopy : (s.copies ++ [(rscType, t)])[node.id]? = s.copies[node.id]? :=
    List.getElem?_append_left (h.id_lt (mem_persisted (h.last_mem hlast) hnode))
  rw [Escalatable, ResourceDb.copied, hcopy] at hesc
  exact hesc

include hholds

theorem Sound.copied : (s.copied rf.root rsc rscType t).save.Sound := by
  obtain ⟨before, hfile, hdoc⟩ := exists_doc_copied h hlast hholds rsc rscType t
  have hpersisted := persisted_copied h hlast hholds rsc rscType t
  refine ⟨⟨?_, ?_, fun node hnode => ?_⟩, rfl, ?_, fun {a rf'} ha => ?_⟩
  · rw [save, hdoc]
    simpa [hfile] using h.assemblies
  · rw [hpersisted, List.map_append, List.nodup_append]
    refine ⟨h.ids, by simp, ?_⟩
    -- the new number is larger than those of all elements
    rintro id hid id' hid' rfl
    obtain ⟨node, hnode, rfl⟩ := List.mem_map.mp hid
    have hlt := h.id_lt hnode
    rw [List.map_singleton, List.mem_singleton] at hid'
    exact absurd hid' hlt.ne
  · rw [hpersisted] at hnode
    rcases List.mem_append.mp hnode with hold | hnew
    · rw [← h.templates node hold]
      exact congrArg (Option.map Prod.snd) (List.getElem?_append_left (h.id_lt hold))
    · rw [List.mem_singleton.mp hnew]
      exact congrArg (Option.map Prod.snd) List.getElem?_concat_length
  · exact h.started.trans (by simp [save, ResourceDb.copied])
  · obtain ⟨last', hlast', hrf'⟩ := h.factories ha
    obtain rfl := Option.some.inj (hlast.symm.trans hlast')
    have hkept := Holds.copied h hlast rsc rscType t rf.root hrf'
    exact ⟨_, getLast?_copied h hlast hholds rsc rscType t, hkept.root, hkept.objects⟩

end Copied

theorem Sound.add (h : s.Sound) (hrf : s.rfs assembly = some rf) (rsc rscType : CString)
    (t : Template) :
    ((s.copied rf.root rsc rscType t).setFactory assembly
      (rf.put rsc (s.newObject rsc rscType))).save.Sound := by
  obtain ⟨last, hlast, hholds⟩ := h.factories hrf
  have hcopied := Sound.copied h hlast hholds rsc rscType t
  have hkept := Holds.copied h hlast rsc rscType t rf.root hholds
  refine hcopied.setFactory (getLast?_copied h hlast hholds rsc rscType t)
    (Holds.put (s := (s.copied rf.root rsc rscType t).save) ⟨hkept.root, hkept.objects⟩ rfl
      ⟨s.newNode rsc t, by simp, rfl, rfl, fun hesc => ?_⟩) assembly
  -- no shell has been started since, so that only the template itself can agree with the object
  rcases hesc with ⟨hstarted, -⟩ | hnew
  · exact absurd hstarted (Nat.not_lt.mpr h.started)
  · have hcopy : (s.copies ++ [(rscType, t)])[s.copies.length]? = some (rscType, t) :=
      List.getElem?_concat_length
    rw [ResourceDb.copied, save, newNode, hcopy, Option.any_some, decide_eq_true_eq] at hnew
    exact hnew.rewrites

/-! ## Commands and runs -/

def EndsSound (file : List AssemblyElement) (command : ResourceCommand) :
    Except ResourceDb ResourceDb → Prop :=
  Ends (fun s' => s'.Stored ∧ ChangesOnly file s'.file command)
    (fun s' => s'.Sound ∧ ChangesOnly file s'.file command)

theorem Sound.setup_bind (h : s.Sound) (hassembly : s.doc.any (·.name = assembly))
    {command : ResourceCommand} {rest : ResourceDb → Except ResourceDb ResourceDb}
    (hrest : ∀ s', s.SetUp assembly s' → EndsSound s'.file command (rest s')) :
    EndsSound s.file command (s.resourceFactorySetup assembly >>= rest) := by
  refine Ends.bind ((h.resourceFactorySetup hassembly).mono ?_ fun _ hs' => hs') ?_
  · rintro _ rfl
    exact ⟨h.toStored, changesOnly_refl _ _⟩
  · intro s' hs'
    exact hs'.file ▸ hrest s' hs'

theorem Sound.resourceAdd (h : s.Sound) (hassembly : s.doc.any (·.name = assembly))
    (rsc rscType : CString) :
    EndsSound s.file (.add rsc rscType assembly)
      (s.resourceAdd templates rsc rscType assembly) := by
  refine h.setup_bind hassembly fun s hs => ?_
  have hunchanged := changesOnly_refl s.file (.add rsc rscType assembly)
  obtain ⟨rf, hrf⟩ := hs.factory
  split
  case isTrue => exact ⟨hs.sound, hunchanged⟩
  case isFalse =>
    cases ht : templates rscType with
    | missing => exact ⟨hs.sound, hunchanged⟩
    | malformed =>
        rw [if_neg (by decide)]
        simp only [saveResource_of_malformed hrf ht]
        rw [put_of_factory hrf]
        exact ⟨⟨hs.sound.assemblies, hs.sound.ids, hs.sound.templates⟩, hunchanged⟩
    | template t =>
        obtain ⟨last, hlast, hholds⟩ := hs.sound.factories hrf
        rw [if_neg (by simp)]
        simp only [saveResource_of_new hrf ht]
        exact ⟨hs.sound.add hrf rsc rscType t,
          changesOnly_copied hs.sound hlast hholds rsc rscType t rscType⟩

theorem Sound.escalationResourceSet (h : s.Sound) (hassembly : s.doc.any (·.name = assembly))
    {rsc failures period : CString}
    (hkeeps : s.KeepsTemplate (.escalationSet rsc assembly failures period)) :
    EndsSound s.file (.escalationSet rsc assembly failures period)
      (s.escalationResourceSet templates rsc assembly failures period) := by
  refine h.setup_bind hassembly fun s hs => ?_
  obtain ⟨rf, hrf⟩ := hs.factory
  have hlookup : s.lookup assembly rsc = rf.all rsc := by rw [lookup, hrf, Option.bind_some]
  cases hr : rf.all rsc with
  | none =>
      simp only [hlookup, hr]
      exact ⟨hs.sound, changesOnly_refl _ _⟩
  | some r =>
      obtain ⟨s', hsave, hsound, hchanges⟩ :=
        hs.sound.escalationSet templates hrf hr (hs.keeps hkeeps)
      simp only [hlookup, hr, hsave]
      exact ⟨hsound, hchanges⟩

theorem Sound.exec (templates : CString → TemplateFile) {command : ResourceCommand}
    (h : s.Sound) (hkeeps : s.KeepsTemplate command) :
    EndsSound s.file command (s.exec templates command) := by
  cases command with
  | add rsc template assembly =>
      rw [ResourceDb.exec]
      split
      case isTrue hassembly => exact h.resourceAdd hassembly rsc template
      case isFalse => exact ⟨h, changesOnly_refl _ _⟩
  | escalationSet rsc assembly failures period =>
      rw [ResourceDb.exec]
      split
      case isTrue hassembly => exact h.escalationResourceSet hassembly hkeeps
      case isFalse => exact ⟨h, changesOnly_refl _ _⟩
  | restart => exact ⟨h.start, rfl⟩

theorem Sound.step {command : ResourceCommand} (h : s.Sound) (hkeeps : s.KeepsTemplate command)
    (hstep : s.step templates command = .ok s') :
    s'.Sound ∧ ChangesOnly s.file s'.file command := by
  have hends := Sound.exec templates h hkeeps
  unfold ResourceDb.step at hstep
  cases hexec : s.exec templates command with
  | ok s₁ =>
      rw [hexec] at hends hstep
      cases hstep
      exact hends
  | error s₁ =>
      rw [hexec] at hends hstep
      cases hstep
      exact ⟨hends.1.start, hends.2⟩

/--
In a run that sets escalations only where the object agrees with the element, every resource
in the file keeps to its template, and a command changes nothing but an escalation.
-/
theorem templates_kept (templates : CString → TemplateFile) {commands : List ResourceCommand}
    (hs : s.Stored) (along : Along (ResourceDb.step templates) KeepsTemplate s.start commands)
    (hrun : run (ResourceDb.step templates) s.start commands = .ok s') :
    s'.FollowsTemplates ∧ ∀ command s'', s'.KeepsTemplate command →
      s'.step templates command = .ok s'' → ChangesOnly s'.file s''.file command := by
  have hsound : s'.Sound :=
    run_invariant (fun h hkeeps hstep => (h.step hkeeps hstep).1) hs.start along hrun
  exact ⟨hsound.templates, fun command s'' hkeeps hstep => (hsound.step hkeeps hstep).2⟩

/-! ## Two runs with the dummy template -/

def dummyTemplate : Template where
  type := some "Dummy".toList
  klass := some "ocf".toList
  provider := some "heartbeat".toList
  monitorInterval := some "70s".toList
  parameters := [[(some "fake".toList, some "1".toList)]]

def dummyTemplates (name : CString) : TemplateFile :=
  if name = "dummy".toList then .template dummyTemplate else .missing

def webDb : ResourceDb := ⟨[⟨0, "web".toList, []⟩], [⟨0, "web".toList, []⟩], [], 0, fun _ => none⟩

def addDummy : ResourceCommand := .add "rsc".toList "dummy".toList "web".toList

def escalateDummy : ResourceCommand :=
  .escalationSet "rsc".toList "web".toList "3".toList "60".toList

instance (s : ResourceDb) (node : ResourceNode) : Decidable (s.Escalatable node) :=
  inferInstanceAs (Decidable (_ ∧ _ ∨ _))

instance decidableKeepsTemplate (s : ResourceDb) :
    ∀ command, Decidable (s.KeepsTemplate command)
  | .escalationSet _ _ _ _ => inferInstanceAs (Decidable (∀ _ ∈ _, ∀ _ ∈ _, _ → _ ∧ _))
  | .add _ _ _ | .restart => .isTrue trivial

instance (s : ResourceDb) : Decidable s.FollowsTemplates :=
  inferInstanceAs (Decidable (∀ _ ∈ _, _ = _))

def inFile (s : ResourceDb) : List (CString × ResourceElement) :=
  s.persisted.map fun node => (node.name, node.body)

def escalatedDummy : ResourceElement :=
  { dummyTemplate with
    escalationFailures := some "3".toList, escalationPeriod := some "60".toList }

def overwrittenDummy : ResourceElement :=
  { escalatedDummy with
    type := some "dummy".toList
    klass := some "lsb".toList
    provider := some "heartbeat".toList
    monitorInterval := some "60s".toList }

theorem templates_kept_restarted :
    webDb.Stored ∧
      Along (ResourceDb.step dummyTemplates) KeepsTemplate webDb.start
        [addDummy, .restart, escalateDummy] ∧
      ∃ s', run (ResourceDb.step dummyTemplates) webDb.start
          [addDummy, .restart, escalateDummy] = .ok s' ∧
        s'.inFile = [("rsc".toList, escalatedDummy)] ∧ s'.FollowsTemplates := by
  have hstored : webDb.Stored := ⟨by decide, by decide, by decide⟩
  have along : Along (ResourceDb.step dummyTemplates) KeepsTemplate webDb.start
      [addDummy, .restart, escalateDummy] := by
    decide +kernel
  have hends : endsIn (ResourceDb.step dummyTemplates) webDb.start
      [addDummy, .restart, escalateDummy]
      (fun s' => s'.inFile = [("rsc".toList, escalatedDummy)]) := by
    decide +kernel
  obtain ⟨s', hrun, hs'⟩ := exists_of_endsIn hends
  exact ⟨hstored, along, s', hrun, of_decide_eq_true hs',
    (templates_kept _ hstored along hrun).1⟩

/-- Without a start in between, what the template says is overwritten. -/
theorem escalation_overwrites_template :
    webDb.Stored ∧
      ∃ s', run (ResourceDb.step dummyTemplates) webDb.start [addDummy, escalateDummy] = .ok s' ∧
        s'.inFile = [("rsc".toList, overwrittenDummy)] ∧ ¬s'.FollowsTemplates := by
  have hends : endsIn (ResourceDb.step dummyTemplates) webDb.start [addDummy, escalateDummy]
      (fun s' => s'.inFile = [("rsc".toList, overwrittenDummy)] ∧ ¬s'.FollowsTemplates) := by
    decide +kernel
  obtain ⟨s', hrun, hs'⟩ := exists_of_endsIn hends
  exact ⟨⟨by decide, by decide, by decide⟩, s', hrun, of_decide_eq_true hs'⟩

end ResourceDb

end PacemakerCloud

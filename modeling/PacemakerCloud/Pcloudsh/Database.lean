import PacemakerCloud.Foundation.CString
import PacemakerCloud.Foundation.Lists
import PacemakerCloud.Foundation.Run
import Mathlib.Logic.Function.Basic

/-!
# Databases of the shell

`DbFactory` of `db_helper.py`: an XML document with an element for each name, the file that it
was last saved to, and a dictionary of Python objects.  An object holds the element that it was
read from or saved to.  The dictionary has `none` under a name where the source has `None`.

Elements are selected by an XPath expression with the name between apostrophes; `find` is what
it selects for a name that has none itself.  An operation that raises an exception ends in
`Except.error` with the database as it is then.
-/

namespace PacemakerCloud

open Foundation

structure DbNode (β : Type) where
  id : Nat
  name : CString
  body : β
  deriving DecidableEq, Repr

structure DbObject (α : Type) where
  xmlNode : Option Nat
  name : CString
  attrs : α
  deriving DecidableEq, Repr

structure DbFactory (α β : Type) where
  doc : List (DbNode β)
  /-- Elements that are not in the document any more, but may be held by an object. -/
  unlinked : List (DbNode β)
  file : List (DbNode β)
  nodeCount : Nat
  all : List (CString × Option (DbObject α))
  deriving DecidableEq, Repr

class DbRecord (α : Type) (β : outParam Type) where
  write : Option β → α → β

namespace DbFactory

variable {α β : Type}

/-- `self.all[name]`, or nothing if the key is missing. -/
def lookup (f : DbFactory α β) (name : CString) : Option (Option (DbObject α)) :=
  (f.all.find? (·.1 = name)).map Prod.snd

def existsName (f : DbFactory α β) (name : CString) : Bool := (f.lookup name).isSome

def find (f : DbFactory α β) (name : CString) : Option (DbNode β) :=
  f.doc.find? (·.name = name)

def nodeOf (f : DbFactory α β) (name : CString) : Option (DbNode β) :=
  match f.lookup name with
  | some (some o) => o.xmlNode.bind fun id => (f.doc ++ f.unlinked).find? (·.id = id)
  | some none | none => none

def after (f : DbFactory α β) (id : Nat) : List (DbNode β) :=
  (f.doc.dropWhile (·.id ≠ id)).tail

def save (f : DbFactory α β) : DbFactory α β := { f with file := f.doc }

def put (f : DbFactory α β) (name : CString) (value : Option (DbObject α)) : DbFactory α β :=
  { f with all := mapPut Prod.fst f.all (name, value) }

def modify (f : DbFactory α β) (name : CString) (change : α → α) :
    Except (DbFactory α β) (DbFactory α β) :=
  match f.lookup name with
  | some (some o) => .ok (f.put name (some { o with attrs := change o.attrs }))
  | some none | none => .error f

def newChild (f : DbFactory α β) (name : CString) (body : β) : DbFactory α β :=
  { f with doc := f.doc ++ [⟨f.nodeCount, name, body⟩], nodeCount := f.nodeCount + 1 }

def rewrite (f : DbFactory α β) (id : Nat) (change : DbNode β → DbNode β) : DbFactory α β :=
  let write := fun node => if node.id = id then change node else node
  { f with doc := f.doc.map write, unlinked := f.unlinked.map write }

def unlinkNode (f : DbFactory α β) (id : Nat) : DbFactory α β :=
  { f with
    doc := f.doc.filter (·.id ≠ id)
    unlinked := f.unlinked ++ f.doc.filter (·.id = id) }

def edit (f : DbFactory α β) (name : CString) (change : β → β) :
    Except (DbFactory α β) (DbFactory α β) :=
  match f.lookup name with
  | some (some o) =>
      match o.xmlNode with
      | none => .error f
      | some id => .ok (f.rewrite id fun node => { node with body := change node.body })
  | some none | none => .error f

def saveInstance [DbRecord α β] (f : DbFactory α β) (name : CString) :
    Except (DbFactory α β) (DbFactory α β) :=
  match f.lookup name with
  | some (some o) =>
      match o.xmlNode with
      | none =>
          let added := f.newChild o.name (DbRecord.write none o.attrs)
          .ok (added.put name (some { o with xmlNode := some f.nodeCount })).save
      | some id =>
          .ok (f.rewrite id fun node =>
            ⟨node.id, o.name, DbRecord.write (some node.body) o.attrs⟩).save
  | some none | none => .error f

def deleteInstance (f : DbFactory α β) (name : CString) :
    Except (DbFactory α β) (DbFactory α β) :=
  match f.find name with
  | none => .ok f
  | some node =>
      let unlinked := f.unlinkNode node.id
      -- `del self.all[name]` raises an exception if the key is missing
      if f.existsName name then
        .ok { unlinked with all := f.all.filter (·.1 ≠ name) }.save
      else .error unlinked

def load (file : List (DbNode β)) (nodeCount : Nat)
    (createInstance : DbNode β → Option (DbObject α)) : DbFactory α β :=
  file.foldl
    (fun f node =>
      if f.existsName node.name then f else f.put node.name (createInstance node))
    ⟨file, [], file, nodeCount, []⟩

/-! ## Linked databases -/

structure Distinct (nodes : List (DbNode β)) (nodeCount : Nat) : Prop where
  ids : (nodes.map DbNode.id).Nodup
  names : (nodes.map DbNode.name).Nodup
  lt : ∀ node ∈ nodes, node.id < nodeCount

/-- Every object holds the element of its name if there is one, and no name lacks an object. -/
structure Linked (f : DbFactory α β) : Prop extends Distinct f.doc f.nodeCount where
  objects : ∀ {name o}, f.lookup name = some (some o) →
    o.name = name ∧ o.xmlNode = (f.find name).map DbNode.id
  covered : ∀ {name}, (f.find name).isSome → f.existsName name

structure Sound (f : DbFactory α β) : Prop extends Linked f where
  saved : f.file = f.doc

def Stored (f : DbFactory α β) : Prop := Distinct f.file f.nodeCount

def body (f : DbFactory α β) (name : CString) : Option β := (f.find name).map DbNode.body

variable {f f' : DbFactory α β} {name : CString} {node : DbNode β} {o : DbObject α}

theorem Sound.stored (h : f.Sound) : f.Stored := by
  rw [Stored, h.saved]
  exact h.toDistinct

theorem name_of_find (h : f.find name = some node) : node.name = name := by
  simpa using List.find?_some h

theorem mem_of_find (h : f.find name = some node) : node ∈ f.doc :=
  List.mem_of_find?_eq_some h

theorem existsName_of_lookup {x : Option (DbObject α)} (h : f.lookup name = some x) :
    f.existsName name := by
  rw [existsName, h, Option.isSome_some]

theorem isSome_body : (f.body name).isSome = (f.find name).isSome := Option.isSome_map

theorem isSome_body_iff : (f.body name).isSome ↔ ∃ node ∈ f.doc, node.name = name := by
  rw [isSome_body, find, List.find?_isSome]
  simp

theorem Linked.body_of_new (h : f.Linked) (hnew : ¬f.existsName name) : f.body name = none := by
  by_contra hsome
  exact hnew (h.covered (isSome_body ▸ Option.isSome_iff_ne_none.mpr hsome))

@[simp] theorem lookup_put (x : Option (DbObject α)) :
    (f.put name x).lookup = Function.update f.lookup name (some x) := by
  funext n
  rw [lookup, put, find?_mapPut]
  by_cases hn : n = name
  · simp [hn]
  · simp [hn, Ne.symm hn, lookup]

@[simp] theorem find_put (x : Option (DbObject α)) : (f.put name x).find = f.find := rfl

@[simp] theorem body_put (x : Option (DbObject α)) : (f.put name x).body = f.body := rfl

@[simp] theorem body_save : f.save.body = f.body := rfl

@[simp] theorem lookup_save : f.save.lookup = f.lookup := rfl

theorem Linked.put (h : f.Linked) {x : Option (DbObject α)}
    (hx : ∀ o ∈ x, o.name = name ∧ o.xmlNode = (f.find name).map DbNode.id) :
    (f.put name x).Linked where
  toDistinct := h.toDistinct
  objects {n o} ho := by
    rw [lookup_put] at ho
    rcases update_eq_some.mp ho with ⟨rfl, hnew⟩ | ⟨-, hold⟩
    · exact hx o (Option.some.inj hnew)
    · exact h.objects hold
  covered {n} hn := by
    have hold := h.covered hn
    rw [existsName, lookup_put]
    by_cases heq : n = name
    · simp [heq]
    · rwa [Function.update_of_ne heq]

theorem Linked.save (h : f.Linked) : f.save.Sound := ⟨⟨h.toDistinct, h.objects, h.covered⟩, rfl⟩

theorem eq_of_id (h : f.Linked) (hnode : f.find name = some node) {x : DbNode β}
    (hx : x ∈ f.doc) (hid : x.id = node.id) : x = node :=
  List.inj_on_of_nodup_map h.ids hx (mem_of_find hnode) hid

theorem Linked.find_of_mem (h : f.Linked) (hnode : node ∈ f.doc) :
    f.find node.name = some node := by
  have hsome : (f.find node.name).isSome :=
    List.find?_isSome.mpr ⟨node, hnode, decide_eq_true rfl⟩
  obtain ⟨x, hx⟩ := Option.isSome_iff_exists.mp hsome
  rw [hx, List.inj_on_of_nodup_map h.names (mem_of_find hx) hnode (name_of_find hx)]

theorem nodeOf_eq_find (h : f.Linked) (ho : f.lookup name = some (some o)) :
    f.nodeOf name = f.find name := by
  simp only [nodeOf, ho, (h.objects ho).2]
  cases hfind : f.find name with
  | none => rfl
  | some node =>
      rw [Option.map_some, Option.bind_some]
      cases hid : f.doc.find? (·.id = node.id) with
      | none =>
          have hne := List.find?_eq_none.mp hid node (mem_of_find hfind)
          simp at hne
      | some x =>
          have hx : x.id = node.id := by simpa using List.find?_some hid
          rw [List.find?_append, hid, Option.some_or,
            eq_of_id h hfind (List.mem_of_find?_eq_some hid) hx]

/-! ## Operations as updates by name -/

section Rewrite

variable {change : DbNode β → DbNode β}

private theorem map_rewrite {γ : Type} (h : f.Linked) (hnode : f.find name = some node)
    (field : DbNode β → γ) (hfield : field (change node) = field node) {x : DbNode β}
    (hx : x ∈ f.doc) : field (if x.id = node.id then change x else x) = field x := by
  split
  case isTrue hid => rw [eq_of_id h hnode hx hid, hfield]
  case isFalse => rfl

theorem find_rewrite (h : f.Linked) (hnode : f.find name = some node)
    (hname : (change node).name = node.name) :
    (f.rewrite node.id change).find =
      Function.update f.find name (some (change node)) := by
  funext n
  have hfind : (f.rewrite node.id change).find n =
      (f.find n).map fun x => if x.id = node.id then change x else x := by
    refine find?_map_of_forall fun x hx => ?_
    rw [map_rewrite h hnode DbNode.name hname hx]
  rw [hfind]
  by_cases hn : n = name
  · subst hn
    simp [hnode]
  · rw [Function.update_of_ne hn]
    cases hother : f.find n with
    | none => rfl
    | some x =>
        have hid : x.id ≠ node.id := by
          intro hid
          have hsame := eq_of_id h hnode (mem_of_find hother) hid
          rw [hsame] at hother
          exact hn ((name_of_find hother).symm.trans (name_of_find hnode))
        simp [hid]

theorem Linked.rewrite (h : f.Linked) (hnode : f.find name = some node)
    (hname : (change node).name = node.name) (hid : (change node).id = node.id) :
    (f.rewrite node.id change).Linked := by
  have hids : (f.rewrite node.id change).doc.map DbNode.id = f.doc.map DbNode.id := by
    rw [DbFactory.rewrite, List.map_map]
    exact List.map_congr_left fun x hx => map_rewrite h hnode DbNode.id hid hx
  have hnames : (f.rewrite node.id change).doc.map DbNode.name = f.doc.map DbNode.name := by
    rw [DbFactory.rewrite, List.map_map]
    exact List.map_congr_left fun x hx => map_rewrite h hnode DbNode.name hname hx
  have hfind := find_rewrite h hnode hname
  have hfindId : ∀ n, ((f.rewrite node.id change).find n).map DbNode.id =
      (f.find n).map DbNode.id := by
    intro n
    rw [hfind]
    by_cases hn : n = name
    · simp [hn, hnode, hid]
    · rw [Function.update_of_ne hn]
  refine ⟨⟨hids ▸ h.ids, hnames ▸ h.names, fun x hx => ?_⟩, fun {n o} ho => ?_, fun {n} hn => ?_⟩
  · have hmem : x.id ∈ f.doc.map DbNode.id := hids ▸ List.mem_map_of_mem hx
    obtain ⟨y, hy, hxy⟩ := List.mem_map.mp hmem
    exact hxy ▸ h.lt y hy
  · rw [hfindId]
    exact h.objects ho
  · refine h.covered ?_
    rw [← Option.isSome_map, ← hfindId n, Option.isSome_map]
    exact hn

end Rewrite

theorem find_newChild (hnone : f.find name = none) (b : β) :
    (f.newChild name b).find = Function.update f.find name (some ⟨f.nodeCount, name, b⟩) := by
  funext n
  rw [find, newChild, List.find?_append]
  by_cases hn : n = name
  · subst hn
    rw [← find, hnone]
    simp
  · simp [hn, Ne.symm hn, find]

private theorem distinct_newChild (h : f.Linked) (hnone : f.find name = none) (b : β) :
    Distinct (f.newChild name b).doc (f.newChild name b).nodeCount := by
  have hnew : ∀ x ∈ f.doc, x.name ≠ name := by
    intro x hx
    simpa using List.find?_eq_none.mp hnone x hx
  refine ⟨?_, ?_, fun x hx => ?_⟩
  · rw [newChild, List.map_append, List.nodup_append]
    refine ⟨h.ids, by simp, fun i hi j hj => ?_⟩
    obtain ⟨x, hx, rfl⟩ := List.mem_map.mp hi
    obtain rfl : j = f.nodeCount := by simpa using hj
    exact (h.lt x hx).ne
  · rw [newChild, List.map_append, List.nodup_append]
    refine ⟨h.names, by simp, fun i hi j hj => ?_⟩
    obtain ⟨x, hx, rfl⟩ := List.mem_map.mp hi
    obtain rfl : j = name := by simpa using hj
    exact hnew x hx
  · rcases List.mem_append.mp hx with hx | hx
    · exact Nat.lt_succ_of_lt (h.lt x hx)
    · rw [List.mem_singleton.mp hx]
      exact Nat.lt_succ_self _

theorem Linked.newChild (h : f.Linked) (ho : f.lookup name = some (some o))
    (hnone : f.find name = none) (b : β) :
    ((f.newChild name b).put name (some { o with xmlNode := some f.nodeCount })).Linked := by
  have hfind := find_newChild hnone b
  refine ⟨distinct_newChild h hnone b, fun {n o'} ho' => ?_, fun {n} hn => ?_⟩
  · rw [lookup_put] at ho'
    rw [find_put, hfind]
    by_cases heq : n = name
    · subst heq
      rw [Function.update_self] at ho'
      obtain rfl := Option.some.inj (Option.some.inj ho')
      exact ⟨(h.objects ho).1, by simp⟩
    · rw [Function.update_of_ne heq] at ho' ⊢
      exact h.objects ho'
  · rw [find_put, hfind] at hn
    rw [existsName, lookup_put]
    by_cases heq : n = name
    · simp [heq]
    · rw [Function.update_of_ne heq] at hn ⊢
      exact h.covered hn

theorem body_of_find {x : DbNode β} (h : f'.find = Function.update f.find name (some x)) :
    f'.body = Function.update f.body name (some x.body) := by
  funext n
  rw [body, h]
  by_cases hn : n = name
  · simp [hn]
  · simp [hn, body]

structure Saves [DbRecord α β] (f : DbFactory α β) (name : CString) (o : DbObject α)
    (f' : DbFactory α β) : Prop where
  sound : f'.Sound
  body : f'.body = Function.update f.body name (some (DbRecord.write (f.body name) o.attrs))
  lookup : ∃ id, f'.lookup =
    Function.update f.lookup name (some (some { o with xmlNode := some id }))

/-- The name has an element and an object now, and nothing else has changed. -/
structure Writes (f : DbFactory α β) (name : CString) (f' : DbFactory α β) : Prop where
  sound : f'.Sound
  body : ∃ b, f'.body = Function.update f.body name (some b)
  lookup : ∃ o, f'.lookup = Function.update f.lookup name (some (some o))

theorem Writes.of_set {f'' : DbFactory α β} (h : Writes f' name f'') (hbody : f'.body = f.body)
    {x : Option (Option (DbObject α))} (hlookup : f'.lookup = Function.update f.lookup name x) :
    Writes f name f'' := by
  obtain ⟨b, hb⟩ := h.body
  obtain ⟨o, ho⟩ := h.lookup
  refine ⟨h.sound, ⟨b, hbody ▸ hb⟩, ⟨o, ?_⟩⟩
  rw [ho, hlookup, Function.update_idem]

theorem Writes.find (h : Writes f name f') : ∃ node, f'.find name = some node := by
  obtain ⟨b, hb⟩ := h.body
  have hname : f'.body name = some b := by rw [hb, Function.update_self]
  obtain ⟨node, hnode, -⟩ := Option.map_eq_some_iff.mp hname
  exact ⟨node, hnode⟩

theorem Writes.trans {f'' : DbFactory α β} (h : Writes f name f') (h' : Writes f' name f'') :
    Writes f name f'' := by
  obtain ⟨b, hb⟩ := h.body
  obtain ⟨b', hb'⟩ := h'.body
  obtain ⟨o, ho⟩ := h.lookup
  obtain ⟨o', ho'⟩ := h'.lookup
  refine ⟨h'.sound, ⟨b', ?_⟩, ⟨o', ?_⟩⟩
  · rw [hb', hb, Function.update_idem]
  · rw [ho', ho, Function.update_idem]

variable [DbRecord α β]

theorem Saves.writes (h : Saves f name o f') : Writes f name f' :=
  ⟨h.sound, ⟨_, h.body⟩, let ⟨_, hlookup⟩ := h.lookup; ⟨_, hlookup⟩⟩

theorem saveInstance_of_object (h : f.Linked) (ho : f.lookup name = some (some o)) :
    ∃ f', f.saveInstance name = .ok f' ∧ Saves f name o f' := by
  obtain ⟨rfl, hnode⟩ := h.objects ho
  cases hfind : f.find o.name with
  | none =>
      have hxml : o.xmlNode = none := by rw [hnode, hfind, Option.map_none]
      refine ⟨_, by simp only [saveInstance, ho, hxml]; rfl, ?_, ?_, ?_⟩
      · exact (h.newChild ho hfind _).save
      · rw [body_save, body_put, body_of_find (find_newChild hfind _), body, hfind,
          Option.map_none]
      · exact ⟨f.nodeCount, by rw [lookup_save, lookup_put]; rfl⟩
  | some node =>
      have hxml : o.xmlNode = some node.id := by rw [hnode, hfind, Option.map_some]
      have hname : o.name = node.name := (name_of_find hfind).symm
      refine ⟨_, by simp only [saveInstance, ho, hxml]; rfl, ?_, ?_, ?_⟩
      · exact (h.rewrite hfind hname rfl).save
      · rw [body_save, body_of_find (find_rewrite h hfind hname), body, hfind,
          Option.map_some]
      · refine ⟨node.id, ?_⟩
        rw [← hxml, Function.update_eq_self_iff.mpr ho.symm]
        rfl

theorem saveInstance_of_none (ho : ∀ o, f.lookup name ≠ some (some o)) :
    f.saveInstance name = .error f := by
  unfold saveInstance
  split
  case h_1 o h => exact absurd h (ho o)
  case h_2 => rfl
  case h_3 => rfl

omit [DbRecord α β]

theorem body_rewrite (h : f.Linked) (hfind : f.find name = some node) (change : β → β) :
    (f.rewrite node.id fun x => { x with body := change x.body }).body =
      Function.update f.body name (some (change node.body)) :=
  body_of_find (find_rewrite h hfind rfl)

theorem edit_of_object (h : f.Linked) (ho : f.lookup name = some (some o)) {b : β}
    (hb : f.body name = some b) (change : β → β) :
    ∃ f', f.edit name change = .ok f' ∧ f'.Linked ∧ f'.lookup = f.lookup ∧
      f'.body = Function.update f.body name (some (change b)) := by
  obtain ⟨node, hfind, rfl⟩ := Option.map_eq_some_iff.mp hb
  have hxml : o.xmlNode = some node.id := by rw [(h.objects ho).2, hfind, Option.map_some]
  exact ⟨_, by simp only [edit, ho, hxml], h.rewrite hfind rfl rfl, rfl,
    body_rewrite h hfind change⟩

theorem edit_then_save [DbRecord α β] (h : f.Sound) (ho : f.lookup name = some (some o)) {b : β}
    (hb : f.body name = some b) (change : β → β) :
    ∃ f₁ f₂, f.edit name change = .ok f₁ ∧ f₁.saveInstance name = .ok f₂ ∧ Writes f name f₂ ∧
      f₂.body = Function.update f.body name (some (DbRecord.write (some (change b)) o.attrs)) := by
  obtain ⟨f₁, hedit, hlinked, hlookup, hbody⟩ := edit_of_object h.toLinked ho hb change
  obtain ⟨f₂, hsave, hsaves⟩ := saveInstance_of_object hlinked (hlookup ▸ ho)
  have hbody₂ : f₂.body =
      Function.update f.body name (some (DbRecord.write (some (change b)) o.attrs)) := by
    rw [hsaves.body, hbody, Function.update_idem, Function.update_self]
  exact ⟨f₁, f₂, hedit, hsave, ⟨hsaves.sound, ⟨_, hbody₂⟩, hlookup ▸ hsaves.writes.lookup⟩,
    hbody₂⟩

theorem modify_of_object (h : f.Sound) (ho : f.lookup name = some (some o)) (change : α → α) :
    ∃ f', f.modify name change = .ok f' ∧ f'.Sound ∧ f'.body = f.body ∧
      f'.lookup =
        Function.update f.lookup name (some (some { o with attrs := change o.attrs })) := by
  have hobject := h.objects ho
  have hlinked : (f.put name (some { o with attrs := change o.attrs })).Linked := by
    refine h.toLinked.put fun o' ho' => ?_
    obtain rfl := Option.some.inj ho'
    exact hobject
  exact ⟨_, by simp only [modify, ho], ⟨hlinked, h.saved⟩, rfl, lookup_put _⟩

theorem modify_of_none (ho : ∀ o, f.lookup name ≠ some (some o)) (change : α → α) :
    f.modify name change = .error f := by
  unfold modify
  split
  case h_1 o h => exact absurd h (ho o)
  case h_2 => rfl
  case h_3 => rfl

theorem deleteInstance_of_none (hb : f.body name = none) : f.deleteInstance name = .ok f := by
  have hfind : f.find name = none := Option.map_eq_none_iff.mp hb
  rw [deleteInstance, hfind]

theorem deleteInstance_of_some (h : f.Linked) (hb : (f.body name).isSome) :
    ∃ f', f.deleteInstance name = .ok f' ∧ f'.Sound ∧
      f'.body = Function.update f.body name none ∧
      f'.lookup = Function.update f.lookup name none := by
  rw [isSome_body] at hb
  obtain ⟨node, hfind⟩ := Option.isSome_iff_exists.mp hb
  set unlinked := ({ f.unlinkNode node.id with all := f.all.filter (·.1 ≠ name) } :
    DbFactory α β) with hunlinked
  have hdoc : unlinked.doc = f.doc.filter fun x => x.name ≠ name := by
    refine List.filter_congr fun x hx => decide_eq_decide.mpr (not_congr ⟨fun hid => ?_, ?_⟩)
    · rw [eq_of_id h hfind hx hid, name_of_find hfind]
    · intro hname
      rw [List.inj_on_of_nodup_map h.names hx (mem_of_find hfind)
        (hname.trans (name_of_find hfind).symm)]
  have hfind' : unlinked.find = Function.update f.find name none := by
    funext n
    rw [find, hdoc, @find?_filter_key _ _ _ DbNode.name fun n => n ≠ name]
    by_cases hn : n = name <;> simp [hn, find]
  have hlookup : unlinked.lookup = Function.update f.lookup name none := by
    funext n
    rw [lookup, @find?_filter_key _ _ _ Prod.fst fun n => n ≠ name]
    by_cases hn : n = name <;> simp [hn, lookup]
  have hlinked : unlinked.Linked := by
    have hsub : unlinked.doc.Sublist f.doc := List.filter_sublist
    refine ⟨⟨h.ids.sublist (hsub.map _), h.names.sublist (hsub.map _),
      fun x hx => h.lt x (hsub.mem hx)⟩, fun {n o} ho => ?_, fun {n} hn => ?_⟩
    · rw [hlookup] at ho
      rw [hfind']
      by_cases heq : n = name
      · simp [heq] at ho
      · rw [Function.update_of_ne heq] at ho ⊢
        exact h.objects ho
    · rw [hfind'] at hn
      rw [existsName, hlookup]
      by_cases heq : n = name
      · simp [heq] at hn
      · rw [Function.update_of_ne heq] at hn ⊢
        exact h.covered hn
  refine ⟨unlinked.save, ?_, hlinked.save, ?_, hlookup⟩
  · simp only [deleteInstance, hfind, h.covered hb, if_true]
    rfl
  · funext n
    rw [body_save, body, hfind']
    by_cases hn : n = name <;> simp [hn, body]

theorem deleteInstance_cases (h : f.Linked) (name : CString) :
    ∃ f', f.deleteInstance name = .ok f' ∧
      (f' = f ∧ f.body name = none ∨
        f'.Sound ∧ f'.body = Function.update f.body name none ∧
          f'.lookup = Function.update f.lookup name none) := by
  cases hb : f.body name with
  | none => exact ⟨f, deleteInstance_of_none hb, Or.inl ⟨rfl, rfl⟩⟩
  | some b =>
      obtain ⟨f', hdelete, heffect⟩ := deleteInstance_of_some h (by rw [hb, Option.isSome_some])
      exact ⟨f', hdelete, Or.inr heffect⟩

/-! ## A database that is loaded -/

section Load

private theorem foldl_load (createInstance : DbNode β → Option (DbObject α))
    (l : List (DbNode β)) (f : DbFactory α β) :
    let f' := l.foldl (fun f node =>
      if f.existsName node.name then f else f.put node.name (createInstance node)) f
    f'.doc = f.doc ∧ f'.file = f.file ∧ f'.nodeCount = f.nodeCount ∧
      ∀ n, f'.lookup n = (f.lookup n).or ((l.find? (·.name = n)).map createInstance) := by
  induction l generalizing f with
  | nil => simp
  | cons node l ih =>
      simp only [List.foldl_cons]
      split
      case isTrue hold =>
        obtain ⟨hdoc, hfile, hcount, hlookup⟩ := ih f
        refine ⟨hdoc, hfile, hcount, fun n => ?_⟩
        rw [hlookup]
        by_cases hn : node.name = n
        · subst hn
          obtain ⟨x, hx⟩ := Option.isSome_iff_exists.mp hold
          simp [hx]
        · simp [hn]
      case isFalse hnew =>
        obtain ⟨hdoc, hfile, hcount, hlookup⟩ := ih (f.put node.name (createInstance node))
        refine ⟨hdoc, hfile, hcount, fun n => ?_⟩
        rw [hlookup, lookup_put]
        by_cases hn : node.name = n
        · subst hn
          have hnone : f.lookup node.name = none := by simpa [existsName] using hnew
          simp [hnone]
        · simp [hn, Ne.symm hn]

variable {createInstance : DbNode β → Option (DbObject α)} {file : List (DbNode β)}
  {nodeCount : Nat}

theorem file_load : (load file nodeCount createInstance).file = file :=
  (foldl_load createInstance file ⟨file, [], file, nodeCount, []⟩).2.1

theorem lookup_load (n : CString) : (load file nodeCount createInstance).lookup n =
    ((load file nodeCount createInstance).find n).map createInstance := by
  obtain ⟨hdoc, -, -, hlookup⟩ :=
    foldl_load createInstance file ⟨file, [], file, nodeCount, []⟩
  rw [load, hlookup, find, hdoc]
  rfl

theorem sound_load (h : Distinct file nodeCount)
    (hcreate : ∀ node o, createInstance node = some o →
      o.name = node.name ∧ o.xmlNode = some node.id) :
    (load file nodeCount createInstance).Sound := by
  obtain ⟨hdoc, hfile, hcount, -⟩ :=
    foldl_load createInstance file ⟨file, [], file, nodeCount, []⟩
  refine ⟨⟨?_, fun {n o} ho => ?_, fun {n} hn => ?_⟩, hfile.trans hdoc.symm⟩
  · rw [load, hdoc, hcount]
    exact h
  · rw [lookup_load] at ho
    obtain ⟨node, hfind, hnode⟩ := Option.map_eq_some_iff.mp ho
    obtain ⟨hname, hxml⟩ := hcreate node o hnode
    rw [hfind]
    exact ⟨hname.trans (name_of_find hfind), hxml⟩
  · rw [existsName, lookup_load, Option.isSome_map]
    exact hn

end Load

end DbFactory

end PacemakerCloud

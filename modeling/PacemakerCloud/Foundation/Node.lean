import PacemakerCloud.Foundation.CString
import PacemakerCloud.Foundation.Lists

/-!
# Parsed documents as C walks them

The nodes of a document as libxml2 hands them out, with everything a program sees
that follows `children` and `next` and compares names.  A loop over siblings runs
with a cursor of its own or with one that its body moves; following the cursor when
it has run off the end is a fault.
-/

namespace PacemakerCloud.Foundation

inductive Node where
  | element (name : CString) (attrs : List (CString × CString)) (children : List Node)
  | text (content : CString)
  | cdata (content : CString)
  | comment (content : CString)
  | pi (target content : CString)
  | entityRef (name : CString)

inductive NodeFault where
  | nullNode
  | nullString
  deriving DecidableEq, Repr

namespace Node

/-- `node->name`, which is null for a CDATA section. -/
def name : Node → Option CString
  | .element name _ _ => some name
  | .text _ => some "text".toList
  | .cdata _ => none
  | .comment _ => some "comment".toList
  | .pi target _ => some target
  | .entityRef name => some name

def children : Node → List Node
  | .element _ _ children => children
  | .text _ | .cdata _ | .comment _ | .pi _ _ | .entityRef _ => []

def isElement : Node → Bool
  | .element _ _ _ => true
  | .text _ | .cdata _ | .comment _ | .pi _ _ | .entityRef _ => false

def isText : Node → Bool
  | .text _ => true
  | .element _ _ _ | .cdata _ | .comment _ | .pi _ _ | .entityRef _ => false

def isCharacterData : Node → Bool
  | .text _ | .cdata _ => true
  | .element _ _ _ | .comment _ | .pi _ _ | .entityRef _ => false

def named (name : String) : Node → Bool
  | .element name' _ _ => name' = name.toList
  | .text _ | .cdata _ | .comment _ | .pi _ _ | .entityRef _ => false

def prop (name : String) : Node → Option CString
  | .element _ attrs _ => attrs.lookup name.toList
  | .text _ | .cdata _ | .comment _ | .pi _ _ | .entityRef _ => none

def nameIs (name : String) (node : Node) : Except NodeFault Bool :=
  match node.name with
  | none => .error .nullString
  | some name' => .ok (name' = name.toList)

theorem nameIs_eq_true {name : String} {node : Node} :
    node.nameIs name = .ok true ↔ node.name = some name.toList := by
  unfold nameIs
  cases node.name <;> simp

theorem nameIs_eq_false {name : String} {node : Node} :
    node.nameIs name = .ok false ↔ node.name ≠ none ∧ node.name ≠ some name.toList := by
  unfold nameIs
  cases node.name <;> simp

theorem named_of_children {name : String} {node : Node}
    (hname : node.name = some name.toList) (h : node.children ≠ []) :
    node.named name = true := by
  cases node with
  | element name' attrs children => simpa [Node.name, named] using hname
  | text | cdata | comment | pi | entityRef => exact absurd rfl h

theorem named_of_prop {name attr : String} {node : Node} {value : CString}
    (hname : node.name = some name.toList) (h : node.prop attr = some value) :
    node.named name = true := by
  cases node with
  | element name' attrs children => simpa [Node.name, named] using hname
  | text | cdata | comment | pi | entityRef => cases h

theorem name_of_named {name : String} {node : Node} (h : node.named name = true) :
    node.name = some name.toList := by
  cases node with
  | element name' attrs children => simpa [Node.name, named] using h
  | text | cdata | comment | pi | entityRef => cases h

theorem isCharacterData_of_isText {node : Node} (h : node.isText = true) :
    node.isCharacterData = true := by
  cases node with
  | text content => rfl
  | element | cdata | comment | pi | entityRef => cases h

theorem isElement_of_named {name : String} {node : Node} (h : node.named name = true) :
    node.isElement = true := by
  cases node with
  | element => rfl
  | text | cdata | comment | pi | entityRef => cases h

end Node

def FirstNamed (name : String) (nodes : List Node) (node : Node) : Prop :=
  ∃ before after, nodes = before ++ node :: after ∧
    (∀ n ∈ before, n.name ≠ none ∧ n.name ≠ some name.toList) ∧
    node.name = some name.toList

namespace FirstNamed

variable {name : String} {nodes : List Node} {node : Node}

theorem name_eq (h : FirstNamed name nodes node) : node.name = some name.toList := by
  obtain ⟨before, after, -, -, hname⟩ := h
  exact hname

theorem ne_nil (h : FirstNamed name nodes node) : nodes ≠ [] := by
  obtain ⟨before, after, rfl, -⟩ := h
  simp

theorem head?_flatMap {β : Type} {g : Node → List β} {y : β} (h : FirstNamed name nodes node)
    (hnamed : node.named name = true) (hy : (g node).head? = some y) :
    ((nodes.filter (·.named name)).flatMap g).head? = some y := by
  obtain ⟨before, after, rfl, hbefore, -⟩ := h
  apply head?_flatMap_filter _ hnamed hy
  intro n hn hn'
  exact absurd (Node.name_of_named hn') (hbefore n hn).2

end FirstNamed

/-! ## Loops over siblings -/

/-- How the body of a loop over siblings leaves its cursor. -/
inductive Visit (β : Type) where
  /-- On the node: the loop goes on with the next one. -/
  | next
  /-- On the null pointer, which the loop then follows. -/
  | lost
  /-- The loop is left. -/
  | done (result : β)
  deriving DecidableEq, Repr

/-- `for (cur = nodes; cur; cur = cur->next)`. -/
def forSiblings {β : Type} (body : Node → Except NodeFault (Visit β)) :
    List Node → Except NodeFault (Option β)
  | [] => .ok none
  | node :: rest =>
      match body node with
      | .error fault => .error fault
      | .ok .next => forSiblings body rest
      | .ok .lost => .error .nullNode
      | .ok (.done result) => .ok (some result)

section

variable {β : Type} {body : Node → Except NodeFault (Visit β)} {nodes : List Node}

theorem forSiblings_eq_some_iff {result : β} :
    forSiblings body nodes = .ok (some result) ↔
      ∃ before node after, nodes = before ++ node :: after ∧
        (∀ n ∈ before, body n = .ok .next) ∧ body node = .ok (.done result) := by
  induction nodes with
  | nil => simp [forSiblings]
  | cons node rest ih =>
      rw [forSiblings]
      constructor
      · intro h
        cases hbody : body node with
        | error fault => simp [hbody] at h
        | ok visit =>
            cases visit with
            | next =>
                simp only [hbody, ih] at h
                obtain ⟨before, found, after, rfl, hbefore, hfound⟩ := h
                exact ⟨node :: before, found, after, rfl, by simpa [hbody] using hbefore, hfound⟩
            | lost => simp [hbody] at h
            | done result' =>
                simp only [hbody] at h
                cases h
                exact ⟨[], node, rest, rfl, by simp, hbody⟩
      · rintro ⟨before, found, after, heq, hbefore, hfound⟩
        cases before with
        | nil =>
            obtain ⟨rfl, rfl⟩ := List.cons.inj heq
            simp [hfound]
        | cons first before =>
            obtain ⟨rfl, rfl⟩ := List.cons.inj heq
            rw [List.forall_mem_cons] at hbefore
            rw [hbefore.1]
            exact ih.mpr ⟨before, found, after, rfl, hbefore.2, hfound⟩

theorem forSiblings_eq_none_iff :
    forSiblings body nodes = .ok none ↔ ∀ node ∈ nodes, body node = .ok .next := by
  induction nodes with
  | nil => simp [forSiblings]
  | cons node rest ih =>
      rw [forSiblings, List.forall_mem_cons]
      cases hbody : body node with
      | error fault => simp
      | ok visit => cases visit <;> simp [ih]

theorem forSiblings_eq_find? {p : Node → Bool} {found : Node → Except NodeFault β}
    (hnext : ∀ node, p node = false → body node = .ok .next)
    (hdone : ∀ node, p node = true → body node = (found node).map .done) :
    forSiblings body nodes =
      match nodes.find? p with
      | none => .ok none
      | some node => (found node).map some := by
  induction nodes with
  | nil => rfl
  | cons node rest ih =>
      rw [forSiblings]
      cases hp : p node with
      | false => rw [hnext node hp, List.find?_cons_of_neg (by simp [hp]), ih]
      | true =>
          rw [hdone node hp, List.find?_cons_of_pos hp]
          cases hfound : found node with
          | error fault => simp [Except.map, hfound]
          | ok result => simp [Except.map, hfound]

def onNamed (name : String) (body : Node → Except NodeFault (Visit β)) (node : Node) :
    Except NodeFault (Visit β) :=
  match node.nameIs name with
  | .error fault => .error fault
  | .ok false => .ok .next
  | .ok true => body node

def visitInside (body : Node → Except NodeFault (Visit β)) (node : Node) :
    Except NodeFault (Visit β) :=
  match forSiblings body node.children with
  | .error fault => .error fault
  | .ok none => .ok .lost
  | .ok (some result) => .ok (.done result)

theorem onNamed_eq_next {name : String} {node : Node} :
    onNamed name body node = .ok .next ↔
      node.name ≠ none ∧ (node.name = some name.toList → body node = .ok .next) := by
  unfold onNamed
  cases hname : node.nameIs name with
  | error fault =>
      cases hnode : node.name with
      | none => simp
      | some name' => simp [Node.nameIs, hnode] at hname
  | ok is =>
      cases is with
      | false =>
          obtain ⟨hnamed, hother⟩ := Node.nameIs_eq_false.mp hname
          simp [hnamed, hother]
      | true => simp [Node.nameIs_eq_true.mp hname]

theorem onNamed_eq_done {name : String} {node : Node} {result : β} :
    onNamed name body node = .ok (.done result) ↔
      node.name = some name.toList ∧ body node = .ok (.done result) := by
  rw [← Node.nameIs_eq_true]
  unfold onNamed
  cases node.nameIs name with
  | error fault => simp
  | ok is => cases is <;> simp

theorem visitInside_ne_next {node : Node} : visitInside body node ≠ .ok .next := by
  unfold visitInside
  cases forSiblings body node.children with
  | error fault => simp
  | ok found => cases found <;> simp

theorem visitInside_eq_done {node : Node} {result : β} :
    visitInside body node = .ok (.done result) ↔
      forSiblings body node.children = .ok (some result) := by
  unfold visitInside
  cases forSiblings body node.children with
  | error fault => simp
  | ok found => cases found <;> simp

theorem forSiblings_onNamed_iff {name : String} {result : β}
    (hleft : ∀ node, body node ≠ .ok .next) :
    forSiblings (onNamed name body) nodes = .ok (some result) ↔
      ∃ node, FirstNamed name nodes node ∧ body node = .ok (.done result) := by
  simp only [forSiblings_eq_some_iff, onNamed_eq_next, onNamed_eq_done, hleft, imp_false]
  constructor
  · rintro ⟨before, node, after, hnodes, hbefore, hname, hbody⟩
    exact ⟨node, ⟨before, after, hnodes, hbefore, hname⟩, hbody⟩
  · rintro ⟨node, ⟨before, after, hnodes, hbefore, hname⟩, hbody⟩
    exact ⟨before, node, after, hnodes, hbefore, hname, hbody⟩

end

end PacemakerCloud.Foundation

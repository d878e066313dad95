import PacemakerCloud.Foundation.CString
import PacemakerCloud.Foundation.Lists

/-!
# XML documents

A document without namespaces, as libxml2 holds it, with the two ways it is read: node by
node in C, and by the location paths of XSLT.  Processing instructions count as comments.
-/

namespace PacemakerCloud.Foundation

inductive Xml where
  | element (name : CString) (attrs : List (CString × CString)) (children : List Xml)
  | text (content : CString)
  | comment (content : CString)

namespace Xml

def elem (name : String) (attrs : List (String × CString)) (children : List Xml) : Xml :=
  .element name.toList (attrs.map fun (attr, value) => (attr.toList, value)) children

def children : Xml → List Xml
  | .element _ _ children => children
  | .text _ | .comment _ => []

def isElement : Xml → Bool
  | .element _ _ _ => true
  | .text _ | .comment _ => false

def named (name : String) : Xml → Bool
  | .element name' _ _ => name' = name.toList
  | .text _ | .comment _ => false

def attr? (x : Xml) (name : String) : Option CString :=
  match x with
  | .element _ attrs _ => attrs.lookup name.toList
  | .text _ | .comment _ => none

/-- The value of `@name`, empty where the attribute is missing. -/
def attrText (x : Xml) (name : String) : CString := (x.attr? name).getD []

def elements (x : Xml) : List Xml := x.children.filter isElement

def childrenNamed (x : Xml) (name : String) : List Xml := x.children.filter (named name)

def select (x : Xml) : List String → List Xml
  | [] => [x]
  | name :: path => (x.childrenNamed name).flatMap fun child => child.select path

mutual

def stringValue : Xml → CString
  | .element _ _ children => stringValues children
  | .text content => content
  | .comment _ => []

def stringValues : List Xml → CString
  | [] => []
  | x :: xs => stringValue x ++ stringValues xs

end

mutual

def preorder : Xml → List Xml
  | .element name attrs children => .element name attrs children :: preorders children
  | .text content => [.text content]
  | .comment content => [.comment content]

def preorders : List Xml → List Xml
  | [] => []
  | x :: xs => preorder x ++ preorders xs

end

mutual

def attrValues (name : String) : Xml → List CString
  | .element _ attrs children =>
      (attrs.lookup name.toList).toList ++ attrValuesOf name children
  | .text _ | .comment _ => []

def attrValuesOf (name : String) : List Xml → List CString
  | [] => []
  | x :: xs => attrValues name x ++ attrValuesOf name xs

end

theorem attrValuesOf_eq (name : String) (xs : List Xml) :
    attrValuesOf name xs = xs.flatMap (attrValues name) := by
  induction xs with
  | nil => rfl
  | cons x xs ih => rw [attrValuesOf, ih, List.flatMap_cons]

theorem attrValues_elem (name tag : String) (attrs : List (String × CString))
    (children : List Xml) :
    (elem tag attrs children).attrValues name =
      ((elem tag attrs children).attr? name).toList ++ children.flatMap (attrValues name) := by
  rw [elem, attrValues, attrValuesOf_eq]
  rfl

/-- `xsl:value-of` a location path: its first node counts. -/
def valueOf (x : Xml) (path : List String) : CString :=
  match x.select path with
  | [] => []
  | first :: _ => first.stringValue

/-- `xmlSetProp` on the node at a path of child positions. -/
def setProp (name : String) (value : CString) : List Nat → Xml → Xml
  | [], .element tag attrs children =>
      .element tag (mapPut Prod.fst attrs (name.toList, value)) children
  | i :: path, .element tag attrs children =>
      .element tag attrs (children.modify i (setProp name value path))
  | _, .text content => .text content
  | _, .comment content => .comment content

theorem isElement_of_named {name : String} {x : Xml} (h : x.named name = true) :
    x.isElement = true := by
  cases x with
  | element => rfl
  | text => cases h
  | comment => cases h

theorem select_pair (x : Xml) (outer inner : String) :
    x.select [outer, inner] =
      (x.childrenNamed outer).flatMap fun child => child.childrenNamed inner := by
  simp [select]

theorem childrenNamed_eq_elements {x : Xml} {name : String}
    (h : ∀ child ∈ x.elements, child.named name = true) :
    x.childrenNamed name = x.elements := by
  refine List.filter_congr fun child hchild => ?_
  cases helement : child.isElement with
  | true => exact h child (List.mem_filter.mpr ⟨hchild, helement⟩)
  | false =>
      rw [Bool.eq_false_iff] at helement ⊢
      exact fun hnamed => helement (isElement_of_named hnamed)

end Xml

end PacemakerCloud.Foundation

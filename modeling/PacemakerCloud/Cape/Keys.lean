import Mathlib.Data.List.Infix
import PacemakerCloud.Cape.Actions

/-!
# Keys of the operation history

The key of an entry joins the name of a resource, a method and an interval by underscores.
A key that is not cut to its buffer is read from behind; of a name that fills the buffer it
holds nothing else.
-/

namespace PacemakerCloud

open Foundation

/-- The methods of the daemon; each may be recorded when its node is not running. -/
def Method.Logged (method : Method) : Prop :=
  method = .monitor ∨ method = .start ∨ method = .stop ∨ method = .delete

def keyMax : Nat := resourceNameMax + Cape.methodNameMax + Cape.opNameMax + 2

def keyText (rname : CString) (method : Method) (interval : Nat) : CString :=
  rname ++ '_' :: method.text ++ '_' :: printInt (toInt32 interval)

theorem opHistoryKey_eq (op : PeOperation) :
    Cape.opHistoryKey op = (keyText op.rname op.method op.interval).take keyMax :=
  rfl

/--
The first name leaves no room in its keys for a method, and what they hold of it is the
start of a key of the second.
-/
def Overruns (name name' : CString) : Prop :=
  keyMax ≤ name.length + 1 ∧ ∃ method interval, Method.Logged method ∧
    (name ++ ['_']).take keyMax <+: keyText name' method interval

theorem Method.Logged.not_mem_text {method : Method} (h : method.Logged) :
    '_' ∉ method.text := by
  rcases h with rfl | rfl | rfl | rfl <;> decide

theorem Method.Logged.text_eq {method : Method} (h : method.Logged) :
    ∃ first rest, method.text = first :: rest ∧ first ≠ '-' ∧ first.isDigit = false := by
  rcases h with rfl | rfl | rfl | rfl
  · exact ⟨'m', "onitor".toList, rfl, by decide, by decide⟩
  · exact ⟨'s', "tart".toList, rfl, by decide, by decide⟩
  · exact ⟨'s', "top".toList, rfl, by decide, by decide⟩
  · exact ⟨'d', "elete".toList, rfl, by decide, by decide⟩

theorem not_mem_printInt {value : Int} {c : Char} (h : c ≠ '-') (hdigit : c.isDigit = false) :
    c ∉ printInt value := by
  intro hmem
  rcases mem_printInt hmem with hc | hc
  · exact h hc
  · exact absurd (hdigit.symm.trans hc) (by decide)

/-! ## The name in a key -/

def dropField (text : CString) : CString :=
  ((text.reverse.dropWhile (· ≠ '_')).drop 1).reverse

theorem dropField_append {x y : CString} (h : '_' ∉ y) : dropField (x ++ '_' :: y) = x := by
  have hrest : (y.reverse ++ '_' :: x.reverse).dropWhile (· ≠ '_') = '_' :: x.reverse := by
    rw [List.dropWhile_append_of_pos]
    · rfl
    · intro c hc
      exact decide_eq_true fun heq => h (heq ▸ List.mem_reverse.mp hc)
  rw [dropField, List.reverse_append, List.reverse_cons, List.append_assoc,
    List.singleton_append, hrest]
  simp

def rnameOf (key : CString) : CString := dropField (dropField key)

theorem rnameOf_opHistoryKey {op : PeOperation} (hlogged : op.method.Logged)
    (hfits : (keyText op.rname op.method op.interval).length ≤ keyMax) :
    rnameOf (Cape.opHistoryKey op) = op.rname := by
  rw [opHistoryKey_eq, List.take_of_length_le hfits, rnameOf, keyText,
    dropField_append (not_mem_printInt (by decide) (by decide)),
    dropField_append hlogged.not_mem_text]

/-! ## Keys that are cut -/

theorem length_le_of_prefix {name name' : CString} {method : Method} {interval : Nat}
    {first : Char} (hlogged : method.Logged) (hfirst : first ≠ '-')
    (hdigit : first.isDigit = false)
    (h : name ++ ['_', first] <+: keyText name' method interval) :
    name.length ≤ name'.length := by
  obtain ⟨rest, hrest⟩ := h
  have hsep : '_' ∉ printInt (toInt32 interval) := not_mem_printInt (by decide) (by decide)
  have hnot : first ∉ printInt (toInt32 interval) := not_mem_printInt hfirst hdigit
  simp only [keyText, List.append_assoc, List.cons_append, List.nil_append] at hrest
  rcases List.append_eq_append_iff.mp hrest with ⟨z, rfl, -⟩ | ⟨z, rfl, hz⟩
  · simp
  cases z with
  | nil => simp
  | cons sep u =>
      have hu := (List.cons.inj hz).2
      -- the underscore after the longer name would be the one before the interval
      rcases List.append_eq_append_iff.mp hu with ⟨v, rfl, hv⟩ | ⟨v, hmethod, hv⟩
      · cases v with
        | nil =>
            have hinterval := (List.cons.inj hv).2
            exact absurd (hinterval ▸ List.mem_cons_self) hnot
        | cons sep' v =>
            have hinterval := (List.cons.inj hv).2
            exact absurd (hinterval ▸ by simp) hsep
      · cases v with
        | nil =>
            have hinterval := (List.cons.inj hv).2
            exact absurd (hinterval ▸ List.mem_cons_self) hnot
        | cons sep' v =>
            obtain ⟨rfl, -⟩ := List.cons.inj hv
            exact absurd (hmethod ▸ by simp) hlogged.not_mem_text

theorem prefix_take_keyText {name : CString} {method : Method} (interval : Nat)
    {first : Char} {rest : CString} (hmethod : method.text = first :: rest)
    (h : name.length + 1 < keyMax) :
    name ++ ['_', first] <+: (keyText name method interval).take keyMax := by
  refine List.prefix_take_iff.mpr ⟨?_, by simp; omega⟩
  exact ⟨rest ++ '_' :: printInt (toInt32 interval), by simp [keyText, hmethod]⟩

theorem name_of_key {name name' : CString} {method method' : Method} {interval interval' : Nat}
    (hlogged : method.Logged) (hlogged' : method'.Logged) (h : name.length + 1 < keyMax)
    (h' : name'.length + 1 < keyMax)
    (hkey : (keyText name method interval).take keyMax =
      (keyText name' method' interval').take keyMax) : name = name' := by
  obtain ⟨first, rest, hmethod, hfirst, hdigit⟩ := hlogged.text_eq
  obtain ⟨first', rest', hmethod', hfirst', hdigit'⟩ := hlogged'.text_eq
  have hprefix := prefix_take_keyText interval hmethod h
  have hprefix' := prefix_take_keyText interval' hmethod' h'
  have hle := length_le_of_prefix hlogged' hfirst hdigit
    ((hkey ▸ hprefix).trans (List.take_prefix _ _))
  have hle' := length_le_of_prefix hlogged hfirst' hdigit'
    ((hkey ▸ hprefix').trans (List.take_prefix _ _))
  have hname := (List.prefix_append name _).trans (hkey ▸ hprefix)
  have hname' := (List.prefix_append name' _).trans hprefix'
  exact (List.prefix_of_prefix_length_le hname hname' hle).eq_of_length
    (Nat.le_antisymm hle hle')

theorem take_keyText {name : CString} {method : Method} {interval : Nat}
    (h : keyMax ≤ name.length + 1) :
    (keyText name method interval).take keyMax = (name ++ ['_']).take keyMax := by
  have hsplit : keyText name method interval =
      (name ++ ['_']) ++ (method.text ++ '_' :: printInt (toInt32 interval)) := by
    simp [keyText]
  rw [hsplit, List.take_append_of_le_length (by simpa using h)]

/-- Keys of two names agree only if one of the names overruns its keys. -/
theorem keys_agree_iff {name name' : CString} (hne : name ≠ name') :
    (∃ method method' interval interval', Method.Logged method ∧ Method.Logged method' ∧
        (keyText name method interval).take keyMax =
          (keyText name' method' interval').take keyMax) ↔
      Overruns name name' ∨ Overruns name' name := by
  constructor
  · rintro ⟨method, method', interval, interval', hlogged, hlogged', hkey⟩
    by_cases h : keyMax ≤ name.length + 1
    · refine Or.inl ⟨h, method', interval', hlogged', ?_⟩
      rw [← take_keyText h, hkey]
      exact List.take_prefix _ _
    by_cases h' : keyMax ≤ name'.length + 1
    · refine Or.inr ⟨h', method, interval, hlogged, ?_⟩
      rw [← take_keyText h', ← hkey]
      exact List.take_prefix _ _
    exact absurd (name_of_key hlogged hlogged' (by omega) (by omega) hkey) hne
  · have hagree : ∀ {n n' : CString} {method : Method} {interval : Nat},
        keyMax ≤ n.length + 1 → (n ++ ['_']).take keyMax <+: keyText n' method interval →
        (keyText n .monitor 0).take keyMax = (keyText n' method interval).take keyMax := by
      intro n n' method interval hlength hprefix
      have htake := List.prefix_iff_eq_take.mp hprefix
      rw [List.length_take, Nat.min_eq_left (by simpa using hlength)] at htake
      rw [take_keyText hlength, htake]
    rintro (⟨hlength, method, interval, hlogged, hprefix⟩ |
      ⟨hlength, method, interval, hlogged, hprefix⟩)
    · exact ⟨.monitor, method, 0, interval, .inl rfl, hlogged, hagree hlength hprefix⟩
    · exact ⟨method, .monitor, interval, 0, hlogged, .inl rfl, (hagree hlength hprefix).symm⟩

end PacemakerCloud

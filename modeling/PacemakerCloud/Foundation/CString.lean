import Mathlib.Algebra.Order.Ring.Int
import Mathlib.Data.List.Infix

/-!
# Strings and integers of C

A C string is the list of its characters, one for each byte, without the
terminator.  The functions below follow the C library where the daemon relies
on it: substring search, bounded printing, and the conversion of decimal
numbers with its range error.
-/

namespace PacemakerCloud.Foundation

abbrev CString := List Char

/-- `strstr (haystack, needle) != NULL`. -/
def strstr (haystack needle : CString) : Bool := decide (needle <:+: haystack)

@[simp] theorem strstr_eq_true {haystack needle : CString} :
    strstr haystack needle = true ↔ needle <:+: haystack := by
  simp [strstr]

/-- `snprintf` into a buffer of `size` bytes, the terminator included. -/
def snprintf (size : Nat) (text : CString) : CString := text.take (size - 1)

theorem snprintf_of_fits {size : Nat} {text : CString} (h : text.length < size) :
    snprintf size text = text :=
  List.take_of_length_le (by omega)

theorem snprintf_eq_self_iff {size : Nat} (hsize : 0 < size) (text : CString) :
    snprintf size text = text ↔ text.length < size := by
  rw [snprintf, List.take_eq_self_iff]
  omega

/-! ## Words -/

def words (text : CString) : List CString :=
  (text.splitOn ' ').filter (· ≠ [])

theorem words_append_blank {word : CString} (hword : word ≠ []) (hblank : ' ' ∉ word)
    (rest : CString) : words (word ++ ' ' :: rest) = word :: words rest := by
  rw [words, List.splitOn_append_cons_self_of_not_mem hblank]
  simp [words, hword]

/-! ## Integers -/

/-- The value an assignment to a 32-bit `int` leaves there. -/
def toInt32 (value : Int) : Int := value.bmod (2 ^ 32)

/-- The value an assignment to a `uint32_t` leaves there. -/
def toUInt32 (value : Int) : Nat := (value % 2 ^ 32).toNat

def printInt : Int → CString
  | .ofNat n => Nat.toDigits 10 n
  | .negSucc n => '-' :: Nat.toDigits 10 (n + 1)

/-- A text is known from its parts before and after the last separator. -/
theorem append_separator_inj {c : Char} {x x' y y' : CString} (hy : c ∉ y) (hy' : c ∉ y') :
    x ++ c :: y = x' ++ c :: y' ↔ x = x' ∧ y = y' := by
  constructor
  · intro h
    rcases List.append_eq_append_iff.mp h with ⟨z, hx, hz⟩ | ⟨z, hx, hz⟩
    · cases z with
      | nil => simpa [hx] using hz
      | cons first z =>
          obtain ⟨-, rfl⟩ := List.cons.inj hz
          exact absurd (by simp) hy
    · cases z with
      | nil => simpa [hx] using hz.symm
      | cons first z =>
          obtain ⟨-, rfl⟩ := List.cons.inj hz
          exact absurd (by simp) hy'
  · rintro ⟨rfl, rfl⟩
    rfl

theorem mem_printInt {value : Int} {c : Char} (h : c ∈ printInt value) :
    c = '-' ∨ c.isDigit = true := by
  cases value with
  | ofNat n => exact Or.inr (Nat.isDigit_of_mem_toDigits (by decide) (by decide) h)
  | negSucc n =>
      rcases List.mem_cons.mp h with rfl | h
      · exact Or.inl rfl
      · exact Or.inr (Nat.isDigit_of_mem_toDigits (by decide) (by decide) h)

theorem printInt_inj {value value' : Int} : printInt value = printInt value' ↔ value = value' := by
  refine ⟨fun h => ?_, congrArg printInt⟩
  have hread : ∀ n m : Nat, Nat.toDigits 10 n = Nat.toDigits 10 m → n = m := by
    intro n m hdigits
    have hvalue := congrArg (fun digits => Nat.ofDigitChars 10 digits 0) hdigits
    simpa using hvalue
  have hsign : ∀ n : Nat, '-' ∉ Nat.toDigits 10 n := by
    intro n hmem
    exact absurd (Nat.isDigit_of_mem_toDigits (by decide) (by decide) hmem) (by decide)
  cases value with
  | ofNat n =>
      cases value' with
      | ofNat m => rw [hread n m h]
      | negSucc m =>
          rw [printInt, printInt] at h
          exact absurd (h ▸ List.mem_cons_self) (hsign n)
  | negSucc n =>
      cases value' with
      | ofNat m =>
          rw [printInt, printInt] at h
          exact absurd (h ▸ List.mem_cons_self) (hsign m)
      | negSucc m =>
          have hdigits := hread _ _ (List.cons.inj h).2
          rw [Nat.succ.inj hdigits]

theorem length_printInt_toInt32 (value : Int) : (printInt (toInt32 value)).length ≤ 11 := by
  have hlower : -2 ^ 31 ≤ toInt32 value := by
    rw [toInt32, Int.bmod_def]
    omega
  have hupper : toInt32 value < 2 ^ 31 := by
    rw [toInt32, Int.bmod_def]
    omega
  have hdigits : ∀ n : Nat, n ≤ 2 ^ 31 → (Nat.toDigits 10 n).length ≤ 10 := by
    intro n hn
    exact (Nat.length_toDigits_le_iff (by decide) (by decide)).mpr (by omega)
  cases hvalue : toInt32 value with
  | ofNat n =>
      rw [hvalue, Int.ofNat_eq_natCast] at hupper
      have hn := hdigits n (by omega)
      rw [printInt]
      omega
  | negSucc n =>
      have hn := hdigits (n + 1) (by omega)
      rw [printInt, List.length_cons]
      omega

theorem toInt32_inj {value value' : Nat} (h : value < 2 ^ 32) (h' : value' < 2 ^ 32) :
    toInt32 value = toInt32 value' ↔ value = value' := by
  rw [toInt32, toInt32, Int.bmod_def, Int.bmod_def]
  omega

/-! ## Decimal numbers -/

def longMax : Int := 2 ^ 63 - 1

def longMin : Int := -2 ^ 63

def isSpace (c : Char) : Bool :=
  c == ' ' || c == '\t' || c == '\n' || c == '\r' ||
    c == Char.ofNat 11 || c == Char.ofNat 12

structure Strtol where
  value : Int
  /-- Whether `endptr` moved, that is whether any digit was read. -/
  converted : Bool
  /-- Whether the call stored `ERANGE` in `errno`. -/
  erange : Bool
  deriving DecidableEq, Repr

def digitsValue (digits : CString) : Nat :=
  digits.foldl (fun value c => 10 * value + (c.toNat - '0'.toNat)) 0

/-- `strtol (text, &endptr, 10)`. -/
def strtol (text : CString) : Strtol :=
  let trimmed := text.dropWhile isSpace
  let (negative, rest) :=
    match trimmed with
    | '-' :: rest => (true, rest)
    | '+' :: rest => (false, rest)
    | _ => (false, trimmed)
  let digits := rest.takeWhile Char.isDigit
  if digits.isEmpty then ⟨0, false, false⟩
  else
    let magnitude : Int := digitsValue digits
    let value := if negative then -magnitude else magnitude
    if longMax < value then ⟨longMax, true, true⟩
    else if value < longMin then ⟨longMin, true, true⟩
    else ⟨value, true, false⟩

end PacemakerCloud.Foundation

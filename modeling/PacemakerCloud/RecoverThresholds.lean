import PacemakerCloud.RecoverWindow
import Mathlib.Data.List.TakeWhile

/-!
# What the thresholds of a record mean

`recover_init` reads both thresholds with `strtol`, checks for a range error
under an `errno` it does not clear, and stores the `long` in an `int`.  Here the
attributes speak about numbers of any size, and the record is compared with
them.
-/

namespace PacemakerCloud

open Foundation

/-! ## Numbers at the beginning of a text -/

/-- The text begins, after blanks and a sign, with the decimal number. -/
def BeginsWithNumber (text : CString) (value : Int) : Prop :=
  ∃ blanks sign digits rest : CString,
    text = blanks ++ (sign ++ (digits ++ rest)) ∧
    (∀ c ∈ blanks, isSpace c = true) ∧
    (∀ c ∈ digits, c.isDigit = true) ∧ digits ≠ [] ∧
    (∀ c ∈ rest.head?, c.isDigit = false) ∧
    (sign = ['-'] ∧ value = -digitsValue digits ∨
      (sign = [] ∨ sign = ['+']) ∧ value = digitsValue digits)

def splitSign : CString → Bool × CString
  | '-' :: rest => (true, rest)
  | '+' :: rest => (false, rest)
  | text => (false, text)

theorem splitSign_of_unsigned {text : CString} (hminus : ∀ rest, text ≠ '-' :: rest)
    (hplus : ∀ rest, text ≠ '+' :: rest) : splitSign text = (false, text) := by
  unfold splitSign
  split
  · next rest => exact absurd rfl (hminus rest)
  · next rest => exact absurd rfl (hplus rest)
  · rfl

theorem splitSign_of_isDigit {d : Char} (h : d.isDigit = true) (rest : CString) :
    splitSign (d :: rest) = (false, d :: rest) := by
  refine splitSign_of_unsigned ?_ ?_
  · rintro _ heq
    cases heq
    exact absurd h (by decide)
  · rintro _ heq
    cases heq
    exact absurd h (by decide)

def leadingNumber (text : CString) : Option Int :=
  let signed := splitSign (text.dropWhile isSpace)
  let digits := signed.2.takeWhile Char.isDigit
  if digits = [] then none
  else some (if signed.1 then -digitsValue digits else digitsValue digits)

theorem strtol_of_leadingNumber (text : CString) :
    strtol text =
      match leadingNumber text with
      | none => ⟨0, false, false⟩
      | some value =>
          if longMax < value then ⟨longMax, true, true⟩
          else if value < longMin then ⟨longMin, true, true⟩
          else ⟨value, true, false⟩ := by
  simp only [strtol, leadingNumber, List.isEmpty_iff]
  split
  · next rest htrimmed =>
      rw [htrimmed, splitSign]
      split <;> rfl
  · next rest htrimmed =>
      rw [htrimmed, splitSign]
      split <;> rfl
  · next hminus hplus =>
      rw [splitSign_of_unsigned hminus hplus]
      split <;> rfl

theorem splitSign_cases (text : CString) :
    (∃ rest, text = '-' :: rest ∧ splitSign text = (true, rest)) ∨
      ∃ sign rest, (sign = [] ∨ sign = ['+']) ∧ text = sign ++ rest ∧
        splitSign text = (false, rest) := by
  unfold splitSign
  split
  · next rest => exact Or.inl ⟨rest, rfl, rfl⟩
  · next rest => exact Or.inr ⟨['+'], rest, Or.inr rfl, rfl, rfl⟩
  · exact Or.inr ⟨[], text, Or.inl rfl, rfl, rfl⟩

private theorem isSpace_of_isDigit {c : Char} (h : c.isDigit = true) :
    isSpace c = false := by
  rw [Bool.eq_false_iff]
  intro hspace
  simp only [isSpace, Bool.or_eq_true, beq_iff_eq] at hspace
  rcases hspace with ((((rfl | rfl) | rfl) | rfl) | rfl) | rfl <;> exact absurd h (by decide)

private theorem takeWhile_digits {digits rest : CString}
    (hdigits : ∀ c ∈ digits, c.isDigit = true)
    (hrest : ∀ c ∈ rest.head?, c.isDigit = false) :
    (digits ++ rest).takeWhile Char.isDigit = digits := by
  have hstop : rest.takeWhile Char.isDigit = [] := by
    cases rest with
    | nil => rfl
    | cons c rest => simp [hrest c rfl]
  rw [List.takeWhile_append_of_pos hdigits, hstop, List.append_nil]

theorem leadingNumber_of_beginsWithNumber {text : CString} {value : Int}
    (h : BeginsWithNumber text value) : leadingNumber text = some value := by
  obtain ⟨blanks, sign, digits, rest, rfl, hblanks, hdigits, hne, hrest, hsign⟩ := h
  have htake := takeWhile_digits hdigits hrest
  rw [leadingNumber, List.dropWhile_append_of_pos hblanks]
  rcases hsign with ⟨rfl, rfl⟩ | ⟨rfl | rfl, rfl⟩
  · have hminus : isSpace '-' = false := by decide
    simp [hminus, splitSign, htake, hne]
  · -- without a sign the number begins with its first digit
    obtain ⟨d, ds, rfl⟩ := List.exists_cons_of_ne_nil hne
    have hd : d.isDigit = true := hdigits d (by simp)
    simp only [List.nil_append, List.cons_append] at htake ⊢
    simp [isSpace_of_isDigit hd, splitSign_of_isDigit hd, htake]
  · have hplus : isSpace '+' = false := by decide
    simp [hplus, splitSign, htake, hne]

private theorem beginsWithNumber_of_split {text sign rest : CString} {value : Int}
    (htext : text.dropWhile isSpace = sign ++ rest)
    (hne : rest.takeWhile Char.isDigit ≠ [])
    (hsign : sign = ['-'] ∧ value = -digitsValue (rest.takeWhile Char.isDigit) ∨
      (sign = [] ∨ sign = ['+']) ∧ value = digitsValue (rest.takeWhile Char.isDigit)) :
    BeginsWithNumber text value := by
  refine ⟨text.takeWhile isSpace, sign, rest.takeWhile Char.isDigit,
    rest.dropWhile Char.isDigit, ?_, fun c hc => List.mem_takeWhile_imp hc,
    fun c hc => List.mem_takeWhile_imp hc, hne, ?_, hsign⟩
  · rw [List.takeWhile_append_dropWhile, ← htext, List.takeWhile_append_dropWhile]
  · intro c hc
    have hstop := List.head?_dropWhile_not Char.isDigit rest
    rw [hc] at hstop
    exact hstop

theorem beginsWithNumber_of_leadingNumber {text : CString} {value : Int}
    (h : leadingNumber text = some value) : BeginsWithNumber text value := by
  simp only [leadingNumber] at h
  split at h
  · cases h
  · next hne =>
      rw [Option.some.injEq] at h
      rcases splitSign_cases (text.dropWhile isSpace) with
        ⟨rest, htext, hsplit⟩ | ⟨sign, rest, hsign, htext, hsplit⟩
      · rw [hsplit] at h hne
        have hminus : text.dropWhile isSpace = ['-'] ++ rest := htext
        exact beginsWithNumber_of_split hminus hne (Or.inl ⟨rfl, h.symm⟩)
      · rw [hsplit] at h hne
        exact beginsWithNumber_of_split htext hne (Or.inr ⟨hsign, h.symm⟩)

theorem beginsWithNumber_iff {text : CString} {value : Int} :
    BeginsWithNumber text value ↔ leadingNumber text = some value :=
  ⟨leadingNumber_of_beginsWithNumber, beginsWithNumber_of_leadingNumber⟩

/-! ## One threshold -/

def intMax : Int := 2 ^ 31 - 1

def AttributeNumber (attr : Option CString) (value : Int) : Prop :=
  ∃ text, attr = some text ∧ BeginsWithNumber text value

theorem AttributeNumber.unique {attr : Option CString} {v w : Int}
    (hv : AttributeNumber attr v) (hw : AttributeNumber attr w) : v = w := by
  obtain ⟨text, rfl, hv⟩ := hv
  obtain ⟨text', htext, hw⟩ := hw
  cases htext
  rw [beginsWithNumber_iff] at hv hw
  exact Option.some.inj (hv.symm.trans hw)

def IsThreshold (attr : Option CString) (value : Int) : Prop :=
  AttributeNumber attr value ∧ 1 ≤ value ∧ value ≤ intMax

/-- What is left of the number in an `int`, if `strtol` accepts it, is positive. -/
def StoredPositive (attr : Option CString) (value : Int) : Prop :=
  AttributeNumber attr value ∧ longMin ≤ value ∧ value ≤ longMax ∧
    0 < toInt32 value

theorem toInt32_of_threshold {value : Int} (h1 : 1 ≤ value) (h2 : value ≤ intMax) :
    toInt32 value = value := by
  rw [intMax] at h2
  rw [toInt32, Int.bmod_eq_of_le] <;> omega

theorem IsThreshold.storedPositive {attr : Option CString} {value : Int}
    (h : IsThreshold attr value) : StoredPositive attr value := by
  obtain ⟨hnumber, hmin, hmax⟩ := h
  have hstored := toInt32_of_threshold hmin hmax
  rw [intMax] at hmax
  refine ⟨hnumber, ?_, ?_, ?_⟩
  · rw [longMin]
    omega
  · rw [longMax]
    omega
  · omega

private theorem toInt32_longMax : toInt32 longMax = -1 := by decide

private theorem toInt32_longMin : toInt32 longMin = 0 := by decide

/--
`errno` plays no part where the stored value is positive: a zero and the two
limits of `long`, which an old `errno` rejects, are stored as no threshold as
well.
-/
theorem parseThreshold_of_storedPositive (errno : Int) {attr : Option CString}
    {value : Int} (h : StoredPositive attr value) :
    (parseThreshold errno attr).1 = toInt32 value := by
  obtain ⟨⟨text, rfl, hnumber⟩, hmin, hmax, hpos⟩ := h
  have hmax_ne : value ≠ longMax := by
    rintro rfl
    exact absurd hpos (by rw [toInt32_longMax]; decide)
  have hmin_ne : value ≠ longMin := by
    rintro rfl
    exact absurd hpos (by rw [toInt32_longMin]; decide)
  have hzero : value ≠ 0 := by
    rintro rfl
    exact absurd hpos (by decide)
  have hstrtol : strtol text = ⟨value, true, false⟩ := by
    rw [strtol_of_leadingNumber, beginsWithNumber_iff.mp hnumber]
    simp only [if_neg (Int.not_lt.mpr hmax), if_neg (Int.not_lt.mpr hmin)]
  simp [parseThreshold, hstrtol, hmax_ne, hmin_ne, hzero]

theorem storedPositive_of_parseThreshold {errno : Int} {attr : Option CString}
    (h : 0 < (parseThreshold errno attr).1) : ∃ value, StoredPositive attr value := by
  cases attr with
  | none => exact absurd h (by simp [parseThreshold])
  | some text =>
      rw [parseThreshold, strtol_of_leadingNumber] at h
      cases hnumber : leadingNumber text with
      | none => simp [hnumber] at h
      | some value =>
          simp only [hnumber] at h
          split at h
          · simp at h
          · split at h
            · simp at h
            · next hmax hmin =>
                refine ⟨value, ⟨text, rfl, beginsWithNumber_iff.mpr hnumber⟩,
                  Int.not_lt.mp hmin, Int.not_lt.mp hmax, ?_⟩
                simp only [Bool.false_eq_true, if_false] at h
                split at h
                · simp at h
                · exact h

/-! ## The record -/

section

variable {σ : Type}

def Recover.Enabled (r : Recover σ) : Prop := 0 < r.numFailures ∧ 0 < r.failurePeriod

variable [Stopwatch σ]

theorem recoverStateSet_of_not_enabled {r : Recover σ} (h : ¬ r.Enabled) (now : Nat)
    (state : RecoverState) :
    .escalate ∉ (recoverStateSet r now state).2 ∧ ¬ (recoverStateSet r now state).1.Enabled := by
  have hsets := recoverStateSet_sets r now state
  generalize recoverStateSet r now state = result at hsets ⊢
  cases hsets with
  | same => exact ⟨by simp, h⟩
  | changed => exact ⟨by simp, h⟩
  | restarted _ _ hnum hperiod =>
      rw [Recover.Enabled, hnum, hperiod]
      exact ⟨by simp, h⟩
  | escalated _ _ _ _ henabled => exact absurd henabled h

theorem not_escalate_of_not_enabled {r : Recover σ} (h : ¬ r.Enabled)
    (calls : List StateSetCall) :
    ∀ e ∈ stateSetRecords r calls, .escalate ∉ e.invoked := by
  induction calls generalizing r with
  | nil => simp [stateSetRecords]
  | cons c calls ih =>
      have hstep := recoverStateSet_of_not_enabled h c.time c.state
      intro e he
      rcases List.mem_cons.mp he with rfl | he
      · exact hstep.1
      · exact ih hstep.2 e he

structure AsAttributesSay (r : Recover σ) (failures period : Option CString) : Prop where
  enabled_iff : r.Enabled ↔
    (∃ n, IsThreshold failures n) ∧ ∃ p, IsThreshold period p
  thresholds : ∀ n p, IsThreshold failures n → IsThreshold period p →
    r.numFailures = n ∧ r.failurePeriod = p
  otherwise : ¬ ((∃ n, IsThreshold failures n) ∧ ∃ p, IsThreshold period p) →
    ∀ calls, ∀ e ∈ stateSetRecords r calls, .escalate ∉ e.invoked

theorem recoverInit_enabled_iff (errno : Int) (failures period : Option CString) :
    (recoverInit errno failures period : Recover σ).Enabled ↔
      (∃ n, StoredPositive failures n) ∧ ∃ p, StoredPositive period p := by
  constructor
  · rintro ⟨hn, hp⟩
    exact ⟨storedPositive_of_parseThreshold hn, storedPositive_of_parseThreshold hp⟩
  · rintro ⟨⟨n, hn⟩, p, hp⟩
    constructor
    · change 0 < (parseThreshold errno failures).1
      rw [parseThreshold_of_storedPositive errno hn]
      exact hn.2.2.2
    · change 0 < (parseThreshold _ period).1
      rw [parseThreshold_of_storedPositive _ hp]
      exact hp.2.2.2

theorem recoverInit_thresholds {errno : Int} {failures period : Option CString}
    {n p : Int} (hn : IsThreshold failures n) (hp : IsThreshold period p) :
    (recoverInit errno failures period : Recover σ).numFailures = n ∧
      (recoverInit errno failures period : Recover σ).failurePeriod = p := by
  constructor
  · change (parseThreshold errno failures).1 = n
    rw [parseThreshold_of_storedPositive errno hn.storedPositive,
      toInt32_of_threshold hn.2.1 hn.2.2]
  · change (parseThreshold _ period).1 = p
    rw [parseThreshold_of_storedPositive _ hp.storedPositive,
      toInt32_of_threshold hp.2.1 hp.2.2]

/--
The record does what its attributes say, unless both numbers are positive when
they are cut to an `int` while one of them is not a threshold.
-/
theorem thresholds_as_said_iff (errno : Int) (failures period : Option CString) :
    AsAttributesSay (recoverInit errno failures period : Recover σ) failures period ↔
      ∀ n p, StoredPositive failures n → StoredPositive period p →
        (1 ≤ n ∧ n ≤ intMax) ∧ 1 ≤ p ∧ p ≤ intMax := by
  have henabled : (recoverInit errno failures period : Recover σ).Enabled ↔ _ :=
    recoverInit_enabled_iff errno failures period
  constructor
  · intro hsay n p hn hp
    obtain ⟨⟨n', hn'⟩, p', hp'⟩ := hsay.enabled_iff.mp (henabled.mpr ⟨⟨n, hn⟩, p, hp⟩)
    rw [hn.1.unique hn'.1, hp.1.unique hp'.1]
    exact ⟨hn'.2, hp'.2⟩
  · intro hfits
    have hsaid : (recoverInit errno failures period : Recover σ).Enabled ↔
        (∃ n, IsThreshold failures n) ∧ ∃ p, IsThreshold period p := by
      rw [henabled]
      constructor
      · rintro ⟨⟨n, hn⟩, p, hp⟩
        obtain ⟨hnfits, hpfits⟩ := hfits n p hn hp
        exact ⟨⟨n, hn.1, hnfits⟩, p, hp.1, hpfits⟩
      · rintro ⟨⟨n, hn⟩, p, hp⟩
        exact ⟨⟨n, hn.storedPositive⟩, p, hp.storedPositive⟩
    refine ⟨hsaid, fun n p hn hp => recoverInit_thresholds hn hp, ?_⟩
    intro hnone
    exact not_escalate_of_not_enabled (mt hsaid.mp hnone)

end

/-- A threshold of 2^32 + 1 failures is one of a single failure. -/
theorem thresholds_wrap :
    let r : Recover Ring := recoverInit 0 (some "4294967297".toList) (some "1".toList)
    r.Enabled ∧ r.numFailures = 1 ∧
      (¬ ∃ n, IsThreshold (some "4294967297".toList) n) ∧
      stateSetRecords r [⟨0, .failed⟩] =
        [⟨0, .unknown, .failed, [.stateChanging .unknown .failed, .escalate]⟩] := by
  refine ⟨⟨by decide, by decide⟩, by decide, ?_, by decide⟩
  rintro ⟨n, ⟨text, htext, hnumber⟩, -, hmax⟩
  cases htext
  have hn : leadingNumber "4294967297".toList = some 4294967297 := by decide
  rw [beginsWithNumber_iff.mp hnumber] at hn
  cases hn
  exact absurd hmax (by decide)

end PacemakerCloud

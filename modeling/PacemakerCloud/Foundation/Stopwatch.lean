import Mathlib.Data.List.Basic
import Mathlib.Logic.Function.Basic

/-!
# The stopwatch of the event library

The recovery code counts failures on a stopwatch of the event library.  The
library is not part of the repository, so the stopwatch is an interface here:
`Taken` records which splits a sequence of calls has taken since the watch was
last started, and `LawfulStopwatch` is what the library promises to answer about
them.  `Ring` is a stopwatch that keeps this promise.
-/

namespace PacemakerCloud.Foundation

/-- The calls the recovery code makes.  Times are in microseconds. -/
class Stopwatch (σ : Type) where
  create : σ
  /-- Keep at most this many splits, the newest overwriting the oldest. -/
  splitCtl : σ → Nat → σ
  start : σ → Nat → σ
  split : σ → Nat → σ
  splitLast : σ → Int
  timeSplitGet : σ → Int → Int → Nat

/-- `Taken sw n ts`: on `sw`, set to keep `n` splits, the splits `ts` were taken. -/
inductive Taken {σ : Type} [Stopwatch σ] : σ → Nat → List Nat → Prop
  | create (n : Nat) :
      Taken (Stopwatch.splitCtl (Stopwatch.create : σ) n) n []
  | split {sw : σ} {n : Nat} {ts : List Nat} (t : Nat) :
      Taken sw n ts → Taken (Stopwatch.split sw t) n (ts ++ [t])
  | start {sw : σ} {n : Nat} {ts : List Nat} (t : Nat) :
      Taken sw n ts → Taken (Stopwatch.start sw t) n []

/-- What the library promises about the splits that are still kept. -/
class LawfulStopwatch (σ : Type) [Stopwatch σ] : Prop where
  /-- The index of the newest split. -/
  splitLast_eq {sw : σ} {n : Nat} {ts : List Nat} :
    Taken sw n ts → ts ≠ [] →
      Stopwatch.splitLast sw = (ts.length : Int) - 1
  /-- The time between two kept splits. -/
  timeSplitGet_eq {sw : σ} {n : Nat} {ts : List Nat} {i j : Nat}
      (hi : i < ts.length) (hj : j < ts.length) :
    Taken sw n ts → i ≠ j → ts.length ≤ i + n → ts.length ≤ j + n →
      ts[j] ≤ ts[i] →
        Stopwatch.timeSplitGet sw (i : Int) (j : Int) = ts[i] - ts[j]

class StartedStopwatch (σ : Type) [Stopwatch σ] where
  started : σ → Nat
  started_splitCtl (sw : σ) (n : Nat) : started (Stopwatch.splitCtl sw n) = started sw
  started_split (sw : σ) (t : Nat) : started (Stopwatch.split sw t) = started sw
  started_start (sw : σ) (t : Nat) : started (Stopwatch.start sw t) = t
  /-- The time from a split to itself is the time from the start to the split. -/
  timeSplitGet_self {sw : σ} {n : Nat} {ts : List Nat} {i : Nat} (hi : i < ts.length) :
    Taken sw n ts → ts.length ≤ i + n → started sw ≤ ts[i] →
      Stopwatch.timeSplitGet sw (i : Int) (i : Int) = ts[i] - started sw

/-! ## A ring of splits -/

/-- The last `size` splits, split number `i` in slot `i % size`. -/
structure Ring where
  size : Nat
  started : Nat
  entries : Nat
  slot : Nat → Nat

instance : Stopwatch Ring where
  create := ⟨0, 0, 0, fun _ => 0⟩
  splitCtl sw n := { sw with size := n }
  start sw t := { sw with started := t, entries := 0 }
  split sw t :=
    { sw with
      entries := sw.entries + 1
      slot := Function.update sw.slot (sw.entries % sw.size) t }
  splitLast sw := (sw.entries : Int) - 1
  timeSplitGet sw recent older :=
    if recent = older then sw.slot (recent.toNat % sw.size) - sw.started
    else sw.slot (recent.toNat % sw.size) - sw.slot (older.toNat % sw.size)

/-- The ring still holds every split that is at most `size` splits old. -/
private theorem Ring.slot_of_taken {sw : Ring} {n : Nat} {ts : List Nat}
    (h : Taken sw n ts) :
    sw.size = n ∧ sw.entries = ts.length ∧
      ∀ i (hi : i < ts.length), ts.length ≤ i + n →
        sw.slot (i % n) = ts[i] := by
  induction h with
  | create n => exact ⟨rfl, rfl, by simp⟩
  | @split sw n ts t _ ih =>
      obtain ⟨rfl, hentries, hslot⟩ := ih
      refine ⟨rfl, by simp [Stopwatch.split, hentries], ?_⟩
      intro i hi hrecent
      simp only [Stopwatch.split, hentries]
      simp only [List.length_append, List.length_singleton] at hi hrecent
      by_cases hnew : i = ts.length
      · subst hnew
        simp
      · have hi' : i < ts.length := by omega
        -- two splits less than `size` apart never share a slot
        have hslots : i % sw.size ≠ ts.length % sw.size := by
          intro hmod
          have hdvd : sw.size ∣ ts.length - i :=
            Nat.dvd_of_mod_eq_zero (Nat.sub_mod_eq_zero_of_mod_eq hmod.symm)
          have := Nat.le_of_dvd (by omega) hdvd
          omega
        rw [Function.update_of_ne hslots, hslot i hi' (by omega),
          List.getElem_append_left hi']
  | start t _ ih =>
      obtain ⟨rfl, -, -⟩ := ih
      exact ⟨rfl, rfl, by simp⟩

instance : LawfulStopwatch Ring where
  splitLast_eq h _ := by
    rw [Stopwatch.splitLast]
    simp only [instStopwatchRing, (Ring.slot_of_taken h).2.1]
  timeSplitGet_eq {sw n ts i j} hi hj h hne hirecent hjrecent _ := by
    obtain ⟨hsize, -, hslot⟩ := Ring.slot_of_taken h
    have hne' : (i : Int) ≠ (j : Int) := by omega
    rw [Stopwatch.timeSplitGet]
    simp only [instStopwatchRing, if_neg hne', Int.toNat_natCast, hsize]
    rw [hslot i hi hirecent, hslot j hj hjrecent]

instance : StartedStopwatch Ring where
  started sw := sw.started
  started_splitCtl _ _ := rfl
  started_split _ _ := rfl
  started_start _ _ := rfl
  timeSplitGet_self {sw n ts i} hi h hrecent _ := by
    obtain ⟨hsize, -, hslot⟩ := Ring.slot_of_taken h
    rw [Stopwatch.timeSplitGet]
    simp only [instStopwatchRing, if_true, Int.toNat_natCast, hsize]
    rw [hslot i hi hrecent]

end PacemakerCloud.Foundation

import Mathlib.Data.List.Basic

/-!
# Logs of writes

A log is a list of events, the newest first: a value is written under a key, or all keys
are dropped that a predicate selects.  What a map holds under a key after the events of a
log is a function of the trail of the key, its writes since it was last dropped.
-/

namespace PacemakerCloud.Foundation

inductive LogEvent (κ ν : Type*) where
  | write (key : κ) (value : ν)
  | drop (selects : κ → Bool)

variable {κ ν γ : Type*}

def writeCount : List (LogEvent κ ν) → Nat
  | [] => 0
  | .write _ _ :: log => writeCount log + 1
  | .drop _ :: log => writeCount log

/-- The first value of the run of equal results that ends with `v`; `older` came before. -/
def runStart [DecidableEq γ] (f : ν → γ) (v : ν) (older : List (Nat × ν)) : ν :=
  ((older.takeWhile fun x => f x.2 = f v).getLast?.map Prod.snd).getD v

theorem runStart_cons [DecidableEq γ] (f : ν → γ) (v : ν) (n : Nat) (v' : ν)
    (older : List (Nat × ν)) :
    runStart f v ((n, v') :: older) = if f v' = f v then runStart f v' older else v := by
  by_cases h : f v' = f v
  · simp only [runStart, List.takeWhile_cons, h, decide_true, if_true]
    rw [List.getLast?_cons]
    cases (older.takeWhile fun x => f x.2 = f v).getLast? <;> rfl
  · simp [runStart, h]

variable [DecidableEq κ]

/-- The writes under a key since it was last dropped, the newest first, with their indices. -/
def trail (k : κ) : List (LogEvent κ ν) → List (Nat × ν)
  | [] => []
  | .write k' v :: log => if k' = k then (writeCount log, v) :: trail k log else trail k log
  | .drop selects :: log => if selects k then [] else trail k log

theorem trail_write_self (k : κ) (v : ν) (log : List (LogEvent κ ν)) :
    trail k (.write k v :: log) = (writeCount log, v) :: trail k log :=
  if_pos rfl

theorem trail_write_of_ne {k k' : κ} (h : k' ≠ k) (v : ν) (log : List (LogEvent κ ν)) :
    trail k (.write k' v :: log) = trail k log :=
  if_neg h

theorem trail_ne_nil_iff {k : κ} {log : List (LogEvent κ ν)} :
    trail k log ≠ [] ↔ ∃ newer v older, log = newer ++ .write k v :: older ∧
      ∀ selects, .drop selects ∈ newer → selects k = false := by
  induction log with
  | nil => simp [trail]
  | cons event log ih =>
      constructor
      · intro h
        cases event with
        | write k' v =>
            by_cases hk : k' = k
            · exact ⟨[], v, log, by simp [hk], by simp⟩
            · rw [trail_write_of_ne hk] at h
              obtain ⟨newer, v', older, rfl, hnewer⟩ := ih.mp h
              exact ⟨.write k' v :: newer, v', older, rfl, by simpa using hnewer⟩
        | drop selects =>
            simp only [trail] at h
            split at h
            · exact absurd rfl h
            case isFalse hselects =>
              obtain ⟨newer, v', older, rfl, hnewer⟩ := ih.mp h
              refine ⟨.drop selects :: newer, v', older, rfl, fun selects' hmem => ?_⟩
              rcases List.mem_cons.mp hmem with heq | hmem
              · cases heq
                exact Bool.eq_false_iff.mpr hselects
              · exact hnewer selects' hmem
      · rintro ⟨newer, v, older, heq, hnewer⟩
        cases newer with
        | nil =>
            obtain ⟨rfl, -⟩ := List.cons.inj heq
            rw [trail_write_self]
            simp
        | cons first newer =>
            obtain ⟨rfl, rfl⟩ := List.cons.inj heq
            have hrest : trail k (newer ++ .write k v :: older) ≠ [] :=
              ih.mpr ⟨newer, v, older, rfl, fun selects hmem => hnewer selects (.tail _ hmem)⟩
            cases event with
            | write k' v' =>
                by_cases hk : k' = k
                · rw [hk, trail_write_self]
                  simp
                · rwa [trail_write_of_ne hk]
            | drop selects =>
                rw [trail, hnewer selects (.head _)]
                exact hrest

theorem index_lt_writeCount {k : κ} {log : List (LogEvent κ ν)} {n : Nat} {v : ν}
    (h : (n, v) ∈ trail k log) : n < writeCount log := by
  induction log with
  | nil => cases h
  | cons event log ih =>
      cases event with
      | write k' v' =>
          simp only [trail] at h
          rw [writeCount]
          split at h
          · rcases List.mem_cons.mp h with heq | h
            · obtain ⟨rfl, -⟩ := Prod.mk.inj heq
              omega
            · exact Nat.lt_succ_of_lt (ih h)
          · exact Nat.lt_succ_of_lt (ih h)
      | drop selects =>
          simp only [trail] at h
          split at h
          · cases h
          · exact ih h

theorem key_of_index {k k' : κ} {log : List (LogEvent κ ν)} {n : Nat} {v v' : ν}
    (h : (n, v) ∈ trail k log) (h' : (n, v') ∈ trail k' log) : k = k' := by
  induction log with
  | nil => cases h
  | cons event log ih =>
      cases event with
      | write key value =>
          -- the newest index is that of the key written last
          have hnewest : ∀ {k v}, (n, v) ∈ trail k (.write key value :: log) →
              key = k ∧ n = writeCount log ∨ (n, v) ∈ trail k log := by
            intro k v h
            simp only [trail] at h
            split at h
            case isTrue hkey =>
              rcases List.mem_cons.mp h with heq | h
              · exact Or.inl ⟨hkey, (Prod.mk.inj heq).1⟩
              · exact Or.inr h
            case isFalse => exact Or.inr h
          rcases hnewest h with ⟨rfl, rfl⟩ | hold
          · rcases hnewest h' with ⟨rfl, -⟩ | hold'
            · rfl
            · exact absurd (index_lt_writeCount hold') (Nat.lt_irrefl _)
          · rcases hnewest h' with ⟨-, rfl⟩ | hold'
            · exact absurd (index_lt_writeCount hold) (Nat.lt_irrefl _)
            · exact ih hold hold'
      | drop selects =>
          simp only [trail] at h h'
          split at h
          · cases h
          · split at h'
            · cases h'
            · exact ih h h'

end PacemakerCloud.Foundation

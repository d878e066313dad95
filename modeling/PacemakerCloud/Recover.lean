import PacemakerCloud.Foundation.CString
import PacemakerCloud.Foundation.Stopwatch

/-!
# Recovery records

`recover.c`: the state of an assembly or of a resource, and the decision what to
do when it fails.  A record that has thresholds for escalation counts its
failures on a stopwatch; without them every failure is answered by a restart.
-/

namespace PacemakerCloud

open Foundation

inductive RecoverState where
  | unknown
  | running
  | failed
  | stopped
  | unrecoverable
  deriving DecidableEq, Repr

inductive RecoverCall where
  | stateChanging (before after : RecoverState)
  | restart
  | escalate
  deriving DecidableEq, Repr

/--
`struct recover`.  The stopwatch exists only where both thresholds are positive,
which is the only place where it is used.
-/
structure Recover (σ : Type) where
  state : RecoverState
  numFailures : Int
  failurePeriod : Int
  sw : Option σ
  sw_isSome : 0 < numFailures → 0 < failurePeriod → sw.isSome

def eRange : Int := 34

/--
One threshold of `recover_init`: the number, and `errno` as the conversion
leaves it.  `errno` is not cleared before, so an old value can reject a zero or
an extreme number.
-/
def parseThreshold (errno : Int) : Option CString → Int × Int
  | none => (-1, errno)
  | some text =>
      let result := strtol text
      let errno := if result.erange then eRange else errno
      if (errno = eRange ∧ (result.value = longMax ∨ result.value = longMin)) ∨
          (errno ≠ 0 ∧ result.value = 0) ∨ result.converted = false then
        (-1, errno)
      else (toInt32 result.value, errno)

section

variable {σ : Type} [Stopwatch σ]

/-- `recover_init`, with `errno` as the calls before it left it. -/
def recoverInit (errno : Int)
    (escalationFailures escalationPeriod : Option CString) : Recover σ :=
  let failures := parseThreshold errno escalationFailures
  let period := parseThreshold failures.2 escalationPeriod
  { state := .unknown
    numFailures := failures.1
    failurePeriod := period.1
    sw :=
      if 0 < period.1 ∧ 0 < failures.1 then
        some (Stopwatch.splitCtl Stopwatch.create failures.1.toNat)
      else none
    sw_isSome := by
      intro hfailures hperiod
      simp [hfailures, hperiod] }

theorem recoverInit_sw {errno : Int}
    {escalationFailures escalationPeriod : Option CString} {r : Recover σ}
    (hr : r = recoverInit errno escalationFailures escalationPeriod)
    (hn : 0 < r.numFailures) (hp : 0 < r.failurePeriod) :
    r.sw = some (Stopwatch.splitCtl Stopwatch.create r.numFailures.toNat) := by
  subst hr
  exact if_pos ⟨hp, hn⟩

def usInSec : Nat := 1000000

/--
`recover_state_set`: the record afterwards and the callbacks it invoked, in
order.  The stopwatch takes a split for every counted failure and is started
again by an escalation.  The code compares seconds in single precision; here the
comparison is exact.
-/
def recoverStateSet (r : Recover σ) (now : Nat) (state : RecoverState) :
    Recover σ × List RecoverCall :=
  if r.state = state then (r, [])
  else
    let changing := RecoverCall.stateChanging r.state state
    let r' := { r with state := state }
    if state ≠ .failed then (r', [changing])
    else if h : 0 < r.numFailures ∧ 0 < r.failurePeriod then
      let sw := Stopwatch.split (r.sw.get (r.sw_isSome h.1 h.2)) now
      let last := Stopwatch.splitLast sw
      let counted := { r' with sw := some sw, sw_isSome := fun _ _ => rfl }
      if r.numFailures - 1 ≤ last ∧
          (Stopwatch.timeSplitGet sw last (last - (r.numFailures - 1)) : Int) ≤
            r.failurePeriod * usInSec then
        ({ r' with
            sw := some (Stopwatch.start sw now)
            sw_isSome := fun _ _ => rfl }, [changing, .escalate])
      else (counted, [changing, .restart])
    else (r', [changing, .restart])

theorem recoverStateSet_same {r : Recover σ} {now : Nat} {state : RecoverState}
    (h : r.state = state) : recoverStateSet r now state = (r, []) := by
  simp [recoverStateSet, h]

theorem recoverStateSet_of_ne_failed {r : Recover σ} {now : Nat}
    {state : RecoverState} (h : r.state ≠ state) (hfailed : state ≠ .failed) :
    recoverStateSet r now state =
      ({ r with state := state }, [.stateChanging r.state state]) := by
  simp [recoverStateSet, h, hfailed]

theorem recoverStateSet_failed_cases {r : Recover σ} (now : Nat)
    (h : r.state ≠ .failed) :
    ∃ r' : Recover σ, r'.state = .failed ∧ r'.numFailures = r.numFailures ∧
      r'.failurePeriod = r.failurePeriod ∧
      (recoverStateSet r now .failed =
          (r', [.stateChanging r.state .failed, .restart]) ∨
        (0 < r.numFailures ∧ 0 < r.failurePeriod) ∧
          recoverStateSet r now .failed =
            (r', [.stateChanging r.state .failed, .escalate])) := by
  simp only [recoverStateSet, h, if_false, ne_eq, not_true]
  split
  · next henabled =>
      split
      · refine ⟨_, ?_, ?_, ?_, Or.inr ⟨henabled, rfl⟩⟩ <;> rfl
      · refine ⟨_, ?_, ?_, ?_, Or.inl rfl⟩ <;> rfl
  · refine ⟨_, ?_, ?_, ?_, Or.inl rfl⟩ <;> rfl

inductive StateSet (r : Recover σ) : RecoverState → Recover σ × List RecoverCall → Prop where
  | same {state : RecoverState} (hsame : r.state = state) : StateSet r state (r, [])
  | changed {state : RecoverState} (hne : r.state ≠ state) (hfailed : state ≠ .failed) :
      StateSet r state ({ r with state := state }, [.stateChanging r.state state])
  | restarted {r' : Recover σ} (hne : r.state ≠ .failed) (hstate : r'.state = .failed)
      (hnum : r'.numFailures = r.numFailures) (hperiod : r'.failurePeriod = r.failurePeriod) :
      StateSet r .failed (r', [.stateChanging r.state .failed, .restart])
  | escalated {r' : Recover σ} (hne : r.state ≠ .failed) (hstate : r'.state = .failed)
      (hnum : r'.numFailures = r.numFailures) (hperiod : r'.failurePeriod = r.failurePeriod)
      (henabled : 0 < r.numFailures ∧ 0 < r.failurePeriod) :
      StateSet r .failed (r', [.stateChanging r.state .failed, .escalate])

theorem recoverStateSet_sets (r : Recover σ) (now : Nat) (state : RecoverState) :
    StateSet r state (recoverStateSet r now state) := by
  by_cases hsame : r.state = state
  · rw [recoverStateSet_same hsame]
    exact .same hsame
  by_cases hfailed : state = .failed
  · subst hfailed
    obtain ⟨r', hstate, hnum, hperiod, heq | ⟨henabled, heq⟩⟩ :=
      recoverStateSet_failed_cases now hsame
    · rw [heq]
      exact .restarted hsame hstate hnum hperiod
    · rw [heq]
      exact .escalated hsame hstate hnum hperiod henabled
  · rw [recoverStateSet_of_ne_failed hsame hfailed]
    exact .changed hsame hfailed

def ThresholdReached (r : Recover σ) (sw : σ) : Prop :=
  r.numFailures - 1 ≤ Stopwatch.splitLast sw ∧
    (Stopwatch.timeSplitGet sw (Stopwatch.splitLast sw)
      (Stopwatch.splitLast sw - (r.numFailures - 1)) : Int) ≤ r.failurePeriod * usInSec

theorem recoverStateSet_of_thresholdReached {r : Recover σ} {sw : σ} {now : Nat}
    (hstate : r.state ≠ .failed) (henabled : 0 < r.numFailures ∧ 0 < r.failurePeriod)
    (hsw : r.sw = some sw) (h : ThresholdReached r (Stopwatch.split sw now)) :
    recoverStateSet r now .failed =
      ({ r with
          state := .failed
          sw := some (Stopwatch.start (Stopwatch.split sw now) now)
          sw_isSome := fun _ _ => rfl },
        [.stateChanging r.state .failed, .escalate]) := by
  unfold ThresholdReached at h
  simp [recoverStateSet, hstate, henabled, hsw, h]

theorem recoverStateSet_of_not_thresholdReached {r : Recover σ} {sw : σ} {now : Nat}
    (hstate : r.state ≠ .failed) (henabled : 0 < r.numFailures ∧ 0 < r.failurePeriod)
    (hsw : r.sw = some sw) (h : ¬ ThresholdReached r (Stopwatch.split sw now)) :
    recoverStateSet r now .failed =
      ({ r with
          state := .failed
          sw := some (Stopwatch.split sw now)
          sw_isSome := fun _ _ => rfl },
        [.stateChanging r.state .failed, .restart]) := by
  unfold ThresholdReached at h
  simp only [recoverStateSet, hstate, henabled, hsw, Option.get_some, if_neg h]
  simp

theorem recoverStateSet_state (r : Recover σ) (now : Nat) (state : RecoverState) :
    (recoverStateSet r now state).1.state = state := by
  have hsets := recoverStateSet_sets r now state
  generalize recoverStateSet r now state = result at hsets ⊢
  cases hsets with
  | same hsame => exact hsame
  | changed => rfl
  | restarted _ hstate => exact hstate
  | escalated _ hstate => exact hstate

end

end PacemakerCloud

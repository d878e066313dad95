import PacemakerCloud.RecoverWindow

/-!
# A threshold of one failure

With `num_failures = 1` the code asks for the time from the newest split to
itself, which the library answers with the time since the stopwatch was started:
by `recover_init`, and then by each escalation.  The first failure and the ones
after it are therefore held against different things.
-/

namespace PacemakerCloud

open Foundation

def failureTimes (state : RecoverState) : List StateSetCall → List Nat
  | [] => []
  | c :: cs =>
      if state ≠ .failed ∧ c.state = .failed then c.time :: failureTimes c.state cs
      else failureTimes c.state cs

def Within (period : Int) (s t : Nat) : Prop := (t : Int) - s ≤ period * usInSec

instance (period : Int) (s t : Nat) : Decidable (Within period s t) :=
  inferInstanceAs (Decidable (_ ≤ _))

section

variable {σ : Type} [Stopwatch σ] [StartedStopwatch σ]

structure Single (r : Recover σ) (period : Int) (start : Nat) : Prop where
  numFailures_eq : r.numFailures = 1
  failurePeriod_eq : r.failurePeriod = period
  taken : ∃ sw ts, r.sw = some sw ∧ Taken sw 1 ts ∧ StartedStopwatch.started sw = start

theorem Single.of_state {r : Recover σ} {period : Int} {start : Nat}
    (h : Single r period start) (state : RecoverState) :
    Single { r with state := state } period start :=
  ⟨h.numFailures_eq, h.failurePeriod_eq, h.taken⟩

theorem single_recoverInit {errno : Int} {escalationFailures escalationPeriod : Option CString}
    {r : Recover σ} (hr : r = recoverInit errno escalationFailures escalationPeriod)
    (hn : r.numFailures = 1) (hp : 1 ≤ r.failurePeriod) :
    Single r r.failurePeriod (StartedStopwatch.started (Stopwatch.create : σ)) := by
  have hsw := recoverInit_sw hr (by omega) (by omega)
  rw [hn] at hsw
  exact ⟨hn, rfl, _, [], hsw, Taken.create 1, StartedStopwatch.started_splitCtl _ _⟩

variable [LawfulStopwatch σ]

theorem Single.failed {r : Recover σ} {period : Int} {start now : Nat}
    (h : Single r period start) (hp : 1 ≤ period) (hstart : start ≤ now)
    (hstate : r.state ≠ .failed) :
    (Within period start now ∧
      (recoverStateSet r now .failed).2 = [.stateChanging r.state .failed, .escalate] ∧
      Single (recoverStateSet r now .failed).1 period now) ∨
    (¬ Within period start now ∧
      (recoverStateSet r now .failed).2 = [.stateChanging r.state .failed, .restart]) := by
  obtain ⟨hn, rfl, sw, ts, hsw, htaken, rfl⟩ := h
  have htaken' := Taken.split now htaken
  have hlast : Stopwatch.splitLast (Stopwatch.split sw now) = (ts.length : Int) := by
    rw [LawfulStopwatch.splitLast_eq htaken' (by simp)]
    simp
  have hself : Stopwatch.timeSplitGet (Stopwatch.split sw now) (ts.length : Int)
      (ts.length : Int) = now - StartedStopwatch.started sw := by
    have := StartedStopwatch.timeSplitGet_self (i := ts.length) (by simp) htaken'
      (by simp) (by simpa [StartedStopwatch.started_split] using hstart)
    simpa [StartedStopwatch.started_split] using this
  have hthresholds : 0 < r.numFailures ∧ 0 < r.failurePeriod := by omega
  have htest : ThresholdReached r (Stopwatch.split sw now) ↔
      Within r.failurePeriod (StartedStopwatch.started sw) now := by
    have hindex : (ts.length : Int) - (r.numFailures - 1) = ts.length := by omega
    rw [ThresholdReached, hlast, hindex, hself, Within]
    omega
  by_cases hwithin : Within r.failurePeriod (StartedStopwatch.started sw) now
  · refine Or.inl ⟨hwithin, ?_⟩
    rw [recoverStateSet_of_thresholdReached hstate hthresholds hsw (htest.mpr hwithin)]
    exact ⟨rfl, hn, rfl, _, _, rfl, Taken.start now htaken',
      StartedStopwatch.started_start _ _⟩
  · refine Or.inr ⟨hwithin, ?_⟩
    rw [recoverStateSet_of_not_thresholdReached hstate hthresholds hsw
      (mt htest.mp hwithin)]

theorem Single.every_failure_escalates {period : Int} (hp : 1 ≤ period)
    (calls : List StateSetCall) (htimes : calls.Pairwise (·.time ≤ ·.time))
    {r : Recover σ} {start : Nat} (h : Single r period start)
    (hstart : ∀ c ∈ calls, start ≤ c.time) :
    (∀ e ∈ stateSetRecords r calls, e.EntersFailed → .escalate ∈ e.invoked) ↔
      (start :: failureTimes r.state calls).IsChain (Within period) := by
  -- induction on the calls; `start` is the last escalation as long as all failures escalate
  induction calls generalizing r start with
  | nil => simp [stateSetRecords, failureTimes]
  | cons c calls ih =>
      obtain ⟨hlater, htail⟩ := List.pairwise_cons.mp htimes
      have hstart' : ∀ c' ∈ calls, start ≤ c'.time := fun c' hc' =>
        hstart c' (List.mem_cons_of_mem c hc')
      have hstate := recoverStateSet_state r c.time c.state
      simp only [stateSetRecords, List.forall_mem_cons, failureTimes]
      by_cases henters : r.state ≠ .failed ∧ c.state = .failed
      · obtain ⟨hne, hfailed⟩ := henters
        rw [if_pos ⟨hne, hfailed⟩, List.isChain_cons_cons]
        rw [hfailed] at hstate ⊢
        rcases h.failed hp (hstart c (by simp)) hne with
          ⟨hwithin, hinvoked, hnext⟩ | ⟨hlate, hinvoked⟩
        · have htail := ih htail hnext hlater
          rw [hstate] at htail
          rw [← htail, hinvoked]
          simp [hwithin]
        · simp [hinvoked, hlate, StateSetRecord.EntersFailed, hne]
      · rw [if_neg henters]
        have hnext : Single (recoverStateSet r c.time c.state).1 period start := by
          by_cases hsame : r.state = c.state
          · rw [recoverStateSet_same hsame]
            exact h
          · have hfailed : c.state ≠ .failed := fun hfailed =>
              henters ⟨hfailed ▸ hsame, hfailed⟩
            rw [recoverStateSet_of_ne_failed hsame hfailed]
            exact h.of_state c.state
        have htail := ih htail hnext hstart'
        rw [hstate] at htail
        rw [← htail]
        simp [StateSetRecord.EntersFailed, henters]

/--
With a threshold of one failure, every failure escalates exactly when the first
one comes within the period of `recover_init` and each later one within the
period of the failure before it.
-/
theorem every_failure_escalates_iff_within (errno : Int)
    (escalationFailures escalationPeriod : Option CString) {r : Recover σ}
    (hr : r = recoverInit errno escalationFailures escalationPeriod)
    (hn : r.numFailures = 1) (hp : 1 ≤ r.failurePeriod)
    (calls : List StateSetCall) (htimes : calls.Pairwise (·.time ≤ ·.time))
    (hcreated : ∀ c ∈ calls, StartedStopwatch.started (Stopwatch.create : σ) ≤ c.time) :
    (∀ e ∈ stateSetRecords r calls, e.EntersFailed → .escalate ∈ e.invoked) ↔
      (StartedStopwatch.started (Stopwatch.create : σ) ::
        failureTimes r.state calls).IsChain (Within r.failurePeriod) :=
  (single_recoverInit hr hn hp).every_failure_escalates hp calls htimes hcreated

end

/-- Two failures, each within the second. -/
theorem every_failure_escalates_iff_within_second :
    let r : Recover Ring := recoverInit 0 (some "1".toList) (some "1".toList)
    let calls : List StateSetCall :=
      [⟨500000, .failed⟩, ⟨600000, .running⟩, ⟨1500000, .failed⟩]
    ∀ e ∈ stateSetRecords r calls, e.EntersFailed → .escalate ∈ e.invoked :=
  (every_failure_escalates_iff_within 0 (some "1".toList) (some "1".toList)
    (r := (recoverInit 0 (some "1".toList) (some "1".toList) : Recover Ring)) rfl
    (by decide) (by decide)
    [⟨500000, .failed⟩, ⟨600000, .running⟩, ⟨1500000, .failed⟩] (by decide)
    (by decide)).mpr (by decide)

/-- The second failure comes more than a second after the first. -/
theorem late_failure_restarts :
    let r : Recover Ring := recoverInit 0 (some "1".toList) (some "1".toList)
    r.numFailures = 1 ∧ r.failurePeriod = 1 ∧
      stateSetRecords r [⟨500000, .failed⟩, ⟨600000, .running⟩, ⟨3000000, .failed⟩] =
        [⟨500000, .unknown, .failed, [.stateChanging .unknown .failed, .escalate]⟩,
          ⟨600000, .failed, .running, [.stateChanging .failed .running]⟩,
          ⟨3000000, .running, .failed, [.stateChanging .running .failed, .restart]⟩] := by
  decide

end PacemakerCloud

import PacemakerCloud.Recover

/-!
# The escalation window

Which failures escalate, over a whole sequence of `recover_state_set` calls on
one record.  The code compares the newest split of an overwriting ring with the
split `num_failures - 1` before it.  The window speaks about the calls
themselves: the failures entered since the last escalation, and the age of the
one that is `num_failures` back.
-/

namespace PacemakerCloud

open Foundation

structure StateSetCall where
  time : Nat
  state : RecoverState
  deriving DecidableEq, Repr

structure StateSetRecord where
  time : Nat
  before : RecoverState
  after : RecoverState
  invoked : List RecoverCall
  deriving DecidableEq, Repr

def StateSetRecord.EntersFailed (e : StateSetRecord) : Prop :=
  e.before ≠ .failed ∧ e.after = .failed

instance (e : StateSetRecord) : Decidable e.EntersFailed :=
  inferInstanceAs (Decidable (_ ∧ _))

/--
The times of the entries into `RECOVER_STATE_FAILED` since the last escalation,
oldest first, after further calls.
-/
def countedFailures (counted : List Nat) : List StateSetRecord → List Nat
  | [] => counted
  | e :: es =>
      if RecoverCall.escalate ∈ e.invoked then countedFailures [] es
      else if e.EntersFailed then countedFailures (counted ++ [e.time]) es
      else countedFailures counted es

/--
There are `numFailures` failures, and the `numFailures`-th most recent of them
is at most `failurePeriod` seconds old.
-/
def WindowReached (numFailures failurePeriod : Int) (failures : List Nat)
    (now : Nat) : Prop :=
  numFailures ≤ failures.length ∧
    ∃ nth, failures.reverse[numFailures.toNat - 1]? = some nth ∧
      (now : Int) - nth ≤ failurePeriod * usInSec

section

variable {σ : Type} [Stopwatch σ]

def stateSetRecords (r : Recover σ) : List StateSetCall → List StateSetRecord
  | [] => []
  | c :: cs =>
      ⟨c.time, r.state, c.state, (recoverStateSet r c.time c.state).2⟩ ::
        stateSetRecords (recoverStateSet r c.time c.state).1 cs

structure Counting (r : Recover σ) (numFailures failurePeriod : Int)
    (failures : List Nat) : Prop where
  numFailures_eq : r.numFailures = numFailures
  failurePeriod_eq : r.failurePeriod = failurePeriod
  taken : ∃ sw, r.sw = some sw ∧ Taken sw numFailures.toNat failures

variable [LawfulStopwatch σ]

private theorem timeSplitGet_window {sw : σ} {n : Nat} {failures : List Nat}
    {now : Nat} (hn : 2 ≤ n) (htaken : Taken sw n (failures ++ [now]))
    (hpast : ∀ t ∈ failures, t ≤ now) (hlen : n ≤ failures.length + 1) :
    ∃ nth, (failures ++ [now]).reverse[n - 1]? = some nth ∧ nth ≤ now ∧
      Stopwatch.timeSplitGet sw (failures.length : Int)
        ((failures.length : Int) - ((n : Int) - 1)) = now - nth := by
  have hj : failures.length + 1 - n < failures.length := by omega
  have hj' : failures.length + 1 - n < (failures ++ [now]).length := by
    simp only [List.length_append, List.length_singleton]
    omega
  have hi' : failures.length < (failures ++ [now]).length := by simp
  have hindex : ((failures.length : Int) - ((n : Int) - 1)) =
      ((failures.length + 1 - n : Nat) : Int) := by omega
  have hnth : (failures ++ [now])[failures.length + 1 - n] =
      failures[failures.length + 1 - n] := List.getElem_append_left hj
  have hle : failures[failures.length + 1 - n] ≤ now :=
    hpast _ (List.getElem_mem hj)
  refine ⟨failures[failures.length + 1 - n], ?_, hle, ?_⟩
  · rw [List.getElem?_reverse (by simpa using (by omega : n - 1 < failures.length + 1))]
    rw [show (failures ++ [now]).length - 1 - (n - 1) =
      failures.length + 1 - n by
        simp only [List.length_append, List.length_singleton]
        omega]
    rw [List.getElem?_eq_getElem hj', hnth]
  · rw [hindex]
    have htime := LawfulStopwatch.timeSplitGet_eq hi' hj' htaken (by omega)
      (by simp only [List.length_append, List.length_singleton]; omega)
      (by simp only [List.length_append, List.length_singleton]; omega)
      (by simpa [hnth] using hle)
    simpa [hnth] using htime

private theorem recoverStateSet_failed {r : Recover σ} {n p : Int}
    {failures : List Nat} {now : Nat} (hn : 2 ≤ n) (hp : 1 ≤ p)
    (hcount : Counting r n p failures) (hpast : ∀ t ∈ failures, t ≤ now)
    (hstate : r.state ≠ .failed) :
    (WindowReached n p (failures ++ [now]) now ∧
      (recoverStateSet r now .failed).2 =
        [.stateChanging r.state .failed, .escalate] ∧
      Counting (recoverStateSet r now .failed).1 n p []) ∨
    (¬ WindowReached n p (failures ++ [now]) now ∧
      (recoverStateSet r now .failed).2 =
        [.stateChanging r.state .failed, .restart] ∧
      Counting (recoverStateSet r now .failed).1 n p (failures ++ [now])) := by
  obtain ⟨rfl, rfl, sw, hsw, htaken⟩ := hcount
  have htaken' := Taken.split now htaken
  have hlast := LawfulStopwatch.splitLast_eq htaken' (by simp)
  have hlast' : Stopwatch.splitLast (Stopwatch.split sw now) =
      (failures.length : Int) := by
    rw [hlast]
    simp
  have hthresholds : 0 < r.numFailures ∧ 0 < r.failurePeriod := by omega
  -- the test the code makes is the window
  have htest : ThresholdReached r (Stopwatch.split sw now) ↔
      WindowReached r.numFailures r.failurePeriod (failures ++ [now]) now := by
    rw [ThresholdReached, hlast']
    by_cases hlen : r.numFailures - 1 ≤ (failures.length : Int)
    · obtain ⟨nth, hnth, hle, htime⟩ := timeSplitGet_window
        (n := r.numFailures.toNat) (by omega) htaken' hpast (by omega)
      rw [Int.toNat_of_nonneg (by omega)] at htime
      have hcast : ((now - nth : Nat) : Int) = (now : Int) - nth := by omega
      rw [htime, hcast]
      simp only [WindowReached, hnth, Option.some.injEq, exists_eq_left',
        List.length_append, List.length_singleton]
      omega
    · simp only [WindowReached, List.length_append, List.length_singleton]
      omega
  by_cases hwindow :
      WindowReached r.numFailures r.failurePeriod (failures ++ [now]) now
  · refine Or.inl ⟨hwindow, ?_⟩
    rw [recoverStateSet_of_thresholdReached hstate hthresholds hsw (htest.mpr hwindow)]
    exact ⟨rfl, rfl, rfl, _, rfl, Taken.start now htaken'⟩
  · refine Or.inr ⟨hwindow, ?_⟩
    rw [recoverStateSet_of_not_thresholdReached hstate hthresholds hsw
      (mt htest.mp hwindow)]
    exact ⟨rfl, rfl, rfl, _, rfl, htaken'⟩

structure DecidedBy (n p : Int) (failures : List Nat) (e : StateSetRecord) : Prop where
  entered : e.EntersFailed →
    e.invoked.count .restart + e.invoked.count .escalate = 1 ∧
    (.escalate ∈ e.invoked ↔ WindowReached n p (failures ++ [e.time]) e.time)
  otherwise : ¬ e.EntersFailed → .restart ∉ e.invoked ∧ .escalate ∉ e.invoked

private theorem Counting.step {r : Recover σ} {n p : Int} {failures : List Nat} (hn : 2 ≤ n)
    (hp : 1 ≤ p) (hcount : Counting r n p failures) {time : Nat} {state : RecoverState}
    (hpast : ∀ t ∈ failures, t ≤ time) {e : StateSetRecord}
    (he : e = ⟨time, r.state, state, (recoverStateSet r time state).2⟩) :
    DecidedBy n p failures e ∧
      Counting (recoverStateSet r time state).1 n p (countedFailures failures [e]) := by
  by_cases hsame : r.state = state
  · rw [recoverStateSet_same hsame] at he ⊢
    subst he
    constructor
    · constructor <;> simp [StateSetRecord.EntersFailed, hsame]
    · simpa [countedFailures, StateSetRecord.EntersFailed, hsame] using hcount
  by_cases hfailed : state = .failed
  · subst hfailed
    rcases recoverStateSet_failed hn hp hcount hpast hsame with
      ⟨hwindow, hinvoked, hnext⟩ | ⟨hwindow, hinvoked, hnext⟩
    · rw [hinvoked] at he
      subst he
      constructor
      · constructor <;> simp [StateSetRecord.EntersFailed, hsame, hwindow]
      · simpa [countedFailures] using hnext
    · rw [hinvoked] at he
      subst he
      constructor
      · constructor <;> simp [StateSetRecord.EntersFailed, hsame, hwindow]
      · simpa [countedFailures, StateSetRecord.EntersFailed, hsame] using hnext
  · rw [recoverStateSet_of_ne_failed hsame hfailed] at he ⊢
    subst he
    constructor
    · constructor <;> simp [StateSetRecord.EntersFailed, hfailed]
    · have hnext : Counting { r with state := state } n p failures :=
        ⟨hcount.numFailures_eq, hcount.failurePeriod_eq, hcount.taken⟩
      simpa [countedFailures, StateSetRecord.EntersFailed, hfailed] using hnext

theorem countedFailures_cons (failures : List Nat) (e : StateSetRecord)
    (es : List StateSetRecord) :
    countedFailures failures (e :: es) = countedFailures (countedFailures failures [e]) es := by
  simp only [countedFailures]
  split_ifs <;> rfl

theorem mem_countedFailures_singleton {failures : List Nat} {e : StateSetRecord} {t : Nat}
    (h : t ∈ countedFailures failures [e]) : t ∈ failures ∨ t = e.time := by
  simp only [countedFailures] at h
  split_ifs at h
  · cases h
  · simpa using h
  · exact Or.inl h

private theorem stateSetRecords_decide {n p : Int} (hn : 2 ≤ n) (hp : 1 ≤ p)
    (calls : List StateSetCall) (htimes : calls.Pairwise (·.time ≤ ·.time))
    {r : Recover σ} {failures : List Nat} (hcount : Counting r n p failures)
    (hpast : ∀ t ∈ failures, ∀ c ∈ calls, t ≤ c.time)
    {before : List StateSetRecord} {e : StateSetRecord}
    {later : List StateSetRecord}
    (h : stateSetRecords r calls = before ++ e :: later) :
    DecidedBy n p (countedFailures failures before) e := by
  -- induction on the calls; the counted failures and the stopwatch move together
  induction calls generalizing r failures before with
  | nil => simp [stateSetRecords] at h
  | cons c calls ih =>
      obtain ⟨hhead, htail⟩ := List.pairwise_cons.mp htimes
      have hnow : ∀ t ∈ failures, t ≤ c.time := fun t ht => hpast t ht c (by simp)
      cases before with
      | nil =>
          obtain ⟨rfl, -⟩ := List.cons.inj h
          exact (hcount.step hn hp hnow rfl).1
      | cons first before =>
          obtain ⟨hfirst, h⟩ := List.cons.inj h
          rw [countedFailures_cons]
          refine ih htail (hcount.step hn hp hnow hfirst.symm).2 (fun t ht c' hc' => ?_) h
          rcases mem_countedFailures_singleton ht with hold | rfl
          · exact hpast t hold c' (List.mem_cons_of_mem c hc')
          · rw [← hfirst]
            exact hhead c' hc'

omit [LawfulStopwatch σ] in
private theorem recoverInit_counting (errno : Int)
    (escalationFailures escalationPeriod : Option CString) {r : Recover σ}
    (hr : r = recoverInit errno escalationFailures escalationPeriod)
    (hn : 0 < r.numFailures) (hp : 0 < r.failurePeriod) :
    Counting r r.numFailures r.failurePeriod [] :=
  ⟨rfl, rfl, _, recoverInit_sw hr hn hp, Taken.create _⟩

/--
The escalation window.  In every sequence of calls at non-decreasing times on a
record with thresholds, a call that enters `RECOVER_STATE_FAILED` invokes one of
the two callbacks, and it is `escalate` exactly when the window is reached; no
other call invokes either of them.
-/
theorem escalates_iff_window_reached (errno : Int)
    (escalationFailures escalationPeriod : Option CString) {r : Recover σ}
    (hr : r = recoverInit errno escalationFailures escalationPeriod)
    (hn : 2 ≤ r.numFailures) (hp : 1 ≤ r.failurePeriod)
    (calls : List StateSetCall) (htimes : calls.Pairwise (·.time ≤ ·.time))
    (before : List StateSetRecord) (e : StateSetRecord)
    (later : List StateSetRecord)
    (h : stateSetRecords r calls = before ++ e :: later) :
    (e.EntersFailed →
      e.invoked.count .restart + e.invoked.count .escalate = 1 ∧
      (.escalate ∈ e.invoked ↔
        WindowReached r.numFailures r.failurePeriod
          (countedFailures [] before ++ [e.time]) e.time)) ∧
    (¬ e.EntersFailed → .restart ∉ e.invoked ∧ .escalate ∉ e.invoked) := by
  have hcount := recoverInit_counting errno escalationFailures escalationPeriod hr
    (by omega) (by omega)
  obtain ⟨hentered, hotherwise⟩ :=
    stateSetRecords_decide hn hp calls htimes hcount (by simp) h
  exact ⟨hentered, hotherwise⟩

end

/-- Two failures within the second and one repeated report of a failure. -/
theorem escalates_iff_window_reached_second_failure :
    let r : Recover Ring := recoverInit 0 (some "2".toList) (some "1".toList)
    let calls : List StateSetCall :=
      [⟨0, .failed⟩, ⟨100, .failed⟩, ⟨200, .running⟩, ⟨1000000, .failed⟩]
    let e : StateSetRecord :=
      ⟨1000000, .running, .failed,
        [.stateChanging .running .failed, .escalate]⟩
    e.EntersFailed ∧
      WindowReached r.numFailures r.failurePeriod
        (countedFailures [] ((stateSetRecords r calls).take 3) ++ [1000000])
        1000000 :=
  ⟨by decide,
    ((escalates_iff_window_reached 0 (some "2".toList) (some "1".toList)
      (r := (recoverInit 0 (some "2".toList) (some "1".toList) : Recover Ring))
      rfl (by decide) (by decide)
      [⟨0, .failed⟩, ⟨100, .failed⟩, ⟨200, .running⟩, ⟨1000000, .failed⟩]
      (by decide) _
      ⟨1000000, .running, .failed,
        [.stateChanging .running .failed, .escalate]⟩ [] (by decide)).1
      (by decide)).2.mp (by decide)⟩

end PacemakerCloud

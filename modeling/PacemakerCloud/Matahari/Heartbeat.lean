import PacemakerCloud.Matahari

/-!
# Heartbeats of a Matahari assembly

The age of the last heartbeat is checked while the assembly is running, but not when it
becomes running because an object connects or a timer runs out.  And a sequence number is
compared with the wrapped successor of the last one, so that around the wrap a gap is missed
and a duplicate is taken for a gap.
-/

namespace PacemakerCloud

open Foundation

namespace Matahari

variable {σ : Type} {m : Matahari σ} {object : MhObject} {sequence : UInt32}

def Timed (m : Matahari σ) : Prop :=
  m.hbState = .ok → m.lastHeartbeat.ended = none ∧ m.lastAccepted = some m.lastHeartbeat.begun

theorem Timed.elapsed (h : m.Timed) (hok : m.hbState = .ok) (now : Nat) :
    m.lastHeartbeat.elapsed now = now - m.lastHeartbeat.begun := by
  simp [GTimer.elapsed, (h hok).1]

theorem timed_of_ne_ok (h : m.hbState ≠ .ok) : m.Timed := fun hok => absurd hok h

theorem heartbeatRecv_cases (m : Matahari σ) (sequence : UInt32) :
    (m.hbState = .ok → ¬ m.lastSequence + 1 < sequence ∧
          m.now - m.lastHeartbeat.begun ≤ healthcheckTimeout) ∧
        m.heartbeatRecv sequence = { m with
          lastSequence := sequence
          hbState := .ok
          lastHeartbeat := .start m.now
          lastAccepted := some m.now } ∨
      (m.hbState = .ok ∧ m.lastSequence + 1 < sequence) ∧
        m.heartbeatRecv sequence = { m with hbState := .seqBad } ∨
      (m.hbState = .ok ∧ ¬ m.lastSequence + 1 < sequence ∧
          healthcheckTimeout < m.now - m.lastHeartbeat.begun) ∧
        m.heartbeatRecv sequence = { m with
          lastSequence := sequence
          lastHeartbeat := m.lastHeartbeat.stop m.now
          hbState := .notReceived } := by
  have helapsed : (m.lastHeartbeat.stop m.now).elapsed m.now = m.now - m.lastHeartbeat.begun := rfl
  unfold heartbeatRecv
  rw [helapsed]
  by_cases hok : m.hbState = .ok
  · by_cases hgap : m.lastSequence + 1 < sequence
    · simp [hok, hgap]
    · by_cases hlate : healthcheckTimeout < m.now - m.lastHeartbeat.begun
      · simp [hok, hgap, hlate]
      · refine Or.inl ⟨fun _ => ⟨hgap, Nat.not_lt.mp hlate⟩, ?_⟩
        simp [hok, hgap, hlate]
  · exact Or.inl ⟨fun h => absurd h hok, by simp [hok]⟩

theorem heartbeatRecv_timed (m : Matahari σ) (sequence : UInt32) :
    (m.heartbeatRecv sequence).Timed := by
  rcases heartbeatRecv_cases m sequence with ⟨-, heq⟩ | ⟨-, heq⟩ | ⟨-, heq⟩
  · rw [heq]
    exact fun _ => ⟨rfl, rfl⟩
  · exact timed_of_ne_ok (by simp [heq])
  · exact timed_of_ne_ok (by simp [heq])

theorem heartbeatRecv_elapsed (hok : (m.heartbeatRecv sequence).hbState = .ok) :
    (m.heartbeatRecv sequence).lastHeartbeat.elapsed (m.heartbeatRecv sequence).now = 0 := by
  rcases heartbeatRecv_cases m sequence with ⟨-, heq⟩ | ⟨-, heq⟩ | ⟨-, heq⟩
  · simp [heq, GTimer.elapsed, GTimer.start]
  · simp [heq] at hok
  · simp [heq] at hok

section

variable [Stopwatch σ]

theorem recoverSet_cases (m : Matahari σ) (state : RecoverState) :
    (m.recoverSet state).recover.state = state ∧ (m.recoverSet state).now = m.now ∧
      (m.recoverSet state = { m with recover := (m.recoverSet state).recover } ∨
        state = .failed ∧ (m.recoverSet state).hbState = .init) := by
  unfold recoverSet
  have hsets := recoverStateSet_sets m.recover m.now state
  generalize recoverStateSet m.recover m.now state = result at hsets ⊢
  cases hsets with
  | same hsame => exact ⟨hsame, rfl, Or.inl rfl⟩
  | changed => exact ⟨rfl, rfl, Or.inl rfl⟩
  | restarted _ hstate => exact ⟨hstate, rfl, Or.inr ⟨rfl, rfl⟩⟩
  | escalated _ hstate => exact ⟨hstate, rfl, Or.inl rfl⟩

theorem recoverSet_timed (h : m.Timed) (state : RecoverState) : (m.recoverSet state).Timed := by
  obtain ⟨-, -, heq | ⟨-, hinit⟩⟩ := recoverSet_cases m state
  · rw [heq]
    exact h
  · exact timed_of_ne_ok (by simp [hinit])

theorem checkState_cases (m : Matahari σ) :
    m.recover.state = .running ∧
        (m.hbState = .ok → healthcheckTimeout < m.lastHeartbeat.elapsed m.now) ∧
        m.checkState.recover.state = .failed ∧ m.checkState.hbState ≠ .ok ∨
      (m.recover.state ≠ .running ∧ m.hbState = .ok ∧ ∀ object, m.connected object = true) ∧
        m.checkState = (m.recoverSet .running).timerAdd ∨
      (m.recover.state = .running →
          m.hbState = .ok ∧ m.lastHeartbeat.elapsed m.now ≤ healthcheckTimeout) ∧
        (m.recover.state ≠ .running → m.hbState = .ok →
          ∃ object, m.connected object = false) ∧ m.checkState = m := by
  by_cases hrunning : m.recover.state = .running
  · by_cases hfresh : m.hbState = .ok ∧ m.lastHeartbeat.elapsed m.now ≤ healthcheckTimeout
    · refine Or.inr (Or.inr ⟨fun _ => hfresh, fun hne => absurd hrunning hne, ?_⟩)
      simp [checkState, checkAge, hrunning, hfresh, Nat.not_lt.mpr hfresh.2]
    · have hage : m.checkAge.hbState ≠ .ok := by
        unfold checkAge
        split
        · simp
        · next hold =>
            intro hok
            exact hfresh ⟨hok, Nat.not_lt.mp fun hlt => hold ⟨hok, hlt⟩⟩
      obtain ⟨hstate, -, hrest⟩ := recoverSet_cases m.checkAge .failed
      refine Or.inl ⟨hrunning, fun hok => Nat.not_le.mp fun hle => hfresh ⟨hok, hle⟩, ?_⟩
      simp only [checkState, hrunning, if_true, hage, ne_eq, not_false_eq_true]
      refine ⟨hstate, ?_⟩
      rcases hrest with heq | ⟨-, hinit⟩
      · rw [heq]
        exact hage
      · simp [hinit]
  · by_cases hstarts : m.hbState = .ok ∧ m.connected .rsc ∧ m.connected .serv ∧ m.connected .host
    · refine Or.inr (Or.inl ⟨⟨hrunning, hstarts.1, fun object => ?_⟩, ?_⟩)
      · cases object <;> simp [hstarts]
      · simp [checkState, hrunning, hstarts]
    · refine Or.inr (Or.inr ⟨fun h => absurd h hrunning, fun _ hok => ?_, ?_⟩)
      · by_contra hnone
        simp only [not_exists, Bool.not_eq_false] at hnone
        exact hstarts ⟨hok, hnone _, hnone _, hnone _⟩
      · simp [checkState, hrunning, hstarts]

theorem checkState_timed (h : m.Timed) : m.checkState.Timed := by
  rcases checkState_cases m with ⟨-, -, -, hne⟩ | ⟨-, heq⟩ | ⟨-, -, heq⟩
  · exact timed_of_ne_ok hne
  · rw [heq]
    exact recoverSet_timed h .running
  · rw [heq]
    exact h

theorem heartbeatCheckTmo_timed (h : m.Timed) : m.heartbeatCheckTmo.Timed := by
  unfold heartbeatCheckTmo
  split
  · exact checkState_timed h
  · exact checkState_timed h

theorem dispatch_timed (h : m.Timed) (e : Event) : (m.dispatch e).Timed := by
  cases e with
  | heartbeat sequence => exact checkState_timed (heartbeatRecv_timed m sequence)
  | connect object =>
      simp only [dispatch, connect]
      split
      · exact h
      · exact checkState_timed (m := { m with connected := _ }) h
  | heartbeatCheckTmo position =>
      simp only [dispatch, runTimer]
      split
      · split
        · exact heartbeatCheckTmo_timed (m := { m with timers := _ }) h
        · exact h
      · exact h
  | instanceState state =>
      simp only [dispatch, instanceStateCompletion]
      split
      · exact h
      · exact recoverSet_timed h .unknown
  | lose object => exact h
  | transportDisconnect => exact timed_of_ne_ok (by simp [dispatch, transportDisconnect,
      stateOnlineToOffline])

theorem Reachable.timed (h : m.Reachable) : m.Timed := by
  obtain ⟨recover, start, garbage, events, time, rfl⟩ := h
  refine List.foldlRecOn (motive := Timed) events step (timed_of_ne_ok (by simp [create])) ?_
  intro m h e _
  exact dispatch_timed (m := m.wait e.1) h e.2

/-! ## Fresh heartbeats -/

/-- A running assembly has sent a heartbeat lately. -/
def Fresh (m : Matahari σ) : Prop :=
  m.recover.state = .running →
    m.hbState = .ok ∧ ∃ t, m.lastAccepted = some t ∧ m.now - t ≤ healthcheckTimeout

def Checks (m : Matahari σ) : Event → Prop
  | .heartbeat _ => True
  | .connect object => m.connected object = false
  | .heartbeatCheckTmo position => ∃ timer ∈ m.timers[position]?, timer.2 ≤ m.now
  | .instanceState _ | .lose _ | .transportDisconnect => False

instance decidableChecks (m : Matahari σ) : ∀ e, Decidable (m.Checks e)
  | .heartbeat _ => .isTrue trivial
  | .connect _ => inferInstanceAs (Decidable (_ = _))
  | .heartbeatCheckTmo _ => inferInstanceAs (Decidable (∃ timer ∈ _, _))
  | .instanceState _ | .lose _ | .transportDisconnect => .isFalse id

/--
An assembly that is not running, and that has its heartbeat and all objects after the event,
got the heartbeat in time.
-/
def StartsFresh (m : Matahari σ) : Event → Prop
  | .connect object =>
      m.recover.state ≠ .running → m.hbState = .ok →
        (∀ other, other ≠ object → m.connected other = true) →
          m.lastHeartbeat.elapsed m.now ≤ healthcheckTimeout
  | .heartbeatCheckTmo _ =>
      m.recover.state ≠ .running → m.hbState = .ok → (∀ object, m.connected object = true) →
        m.lastHeartbeat.elapsed m.now ≤ healthcheckTimeout
  | .heartbeat _ | .instanceState _ | .lose _ | .transportDisconnect => True

theorem fresh_checkState_iff (h : m.Timed) :
    m.checkState.Fresh ↔
      (m.recover.state ≠ .running → m.hbState = .ok → (∀ object, m.connected object = true) →
        m.lastHeartbeat.elapsed m.now ≤ healthcheckTimeout) := by
  rcases checkState_cases m with ⟨hrunning, -, hfailed, -⟩ | ⟨⟨hne, hok, hall⟩, heq⟩ |
    ⟨hrunning, hmissing, heq⟩
  · refine iff_of_true (fun hstate => ?_) fun hne => absurd hrunning hne
    rw [hfailed] at hstate
    cases hstate
  · obtain ⟨hstate, -, hset | ⟨hfailed, -⟩⟩ := recoverSet_cases m .running
    · have hage := h.elapsed hok m.now
      rw [heq, hset]
      constructor
      · intro hfresh _ _ _
        obtain ⟨-, t, ht, hle⟩ := hfresh hstate
        obtain rfl := Option.some.inj ((h hok).2.symm.trans ht)
        rwa [hage]
      · intro hcond _
        exact ⟨hok, _, (h hok).2, hage ▸ hcond hne hok hall⟩
    · cases hfailed
  · rw [heq]
    refine iff_of_true (fun hstate => ?_) fun hne hok hall => ?_
    · obtain ⟨hok, hle⟩ := hrunning hstate
      exact ⟨hok, _, (h hok).2, h.elapsed hok m.now ▸ hle⟩
    · obtain ⟨object, hobject⟩ := hmissing hne hok
      rw [hall object] at hobject
      cases hobject

theorem heartbeatCheckTmo_fresh_iff (m : Matahari σ) :
    m.heartbeatCheckTmo.Fresh ↔ m.checkState.Fresh := by
  unfold heartbeatCheckTmo
  split <;> rfl

theorem fresh_dispatch_iff (h : m.Timed) {e : Event} (hchecks : m.Checks e) :
    (m.dispatch e).Fresh ↔ m.StartsFresh e := by
  cases e with
  | heartbeat sequence =>
      refine iff_of_true ((fresh_checkState_iff (heartbeatRecv_timed m sequence)).mpr ?_) trivial
      intro _ hok _
      rw [heartbeatRecv_elapsed hok]
      exact Nat.zero_le _
  | connect object =>
      have hconnected : m.connected object = false := hchecks
      simp only [dispatch, connect, hconnected, Bool.false_eq_true, if_false]
      refine (fresh_checkState_iff
        (m := { m with connected := Function.update m.connected object true }) h).trans ?_
      refine imp_congr_right fun _ => imp_congr_right fun _ => imp_congr_left ?_
      constructor
      · intro hall other hother
        simpa [hother] using hall other
      · intro hall other
        by_cases hother : other = object
        · simp [hother]
        · simpa [hother] using hall other hother
  | heartbeatCheckTmo position =>
      obtain ⟨timer, htimer, hdue⟩ := hchecks
      simp only [dispatch, runTimer, Option.mem_def.mp htimer, hdue, if_true]
      rw [heartbeatCheckTmo_fresh_iff]
      exact fresh_checkState_iff (m := { m with timers := m.timers.eraseIdx position }) h
  | instanceState state => cases hchecks
  | lose object => cases hchecks
  | transportDisconnect => cases hchecks

/--
After each of the three handlers a running assembly has a fresh heartbeat, exactly if it was
running before or its heartbeat is not too old to start.
-/
theorem fresh_after_check_iff {e : Event} (h : m.Reachable) (hchecks : m.Checks e) :
    (m.dispatch e).Fresh ↔ m.StartsFresh e :=
  fresh_dispatch_iff h.timed hchecks

def starting (sequence : UInt32) (time : Nat) : Matahari Ring :=
  ([(0, .connect .host), (0, .heartbeat sequence), (usInSec, .connect .serv)].foldl step
    (create (recoverInit 0 none none) 0 0)).wait time

theorem fresh_after_check_starting :
    (starting 7 usInSec).StartsFresh (.connect .rsc) ∧
      ((starting 7 usInSec).dispatch (.connect .rsc)).recover.state = .running ∧
      ((starting 7 usInSec).dispatch (.connect .rsc)).Fresh := by
  have hstarts : (starting 7 usInSec).StartsFresh (.connect .rsc) := fun _ _ _ => by
    decide +kernel
  exact ⟨hstarts, by decide +kernel,
    (fresh_after_check_iff ⟨_, _, _, _, _, rfl⟩ (by decide +kernel)).mpr hstarts⟩

/-- The last object connects 100 seconds after the only heartbeat. -/
theorem stale_heartbeat_starts :
    ∃ m : Matahari Ring, m.Reachable ∧ m.Checks (.connect .rsc) ∧
      ((m.dispatch (.connect .rsc)).recover.state = .running ∧
        (m.dispatch (.connect .rsc)).lastAccepted = some 0 ∧
        100 * usInSec ≤ (m.dispatch (.connect .rsc)).now) ∧
      ¬ (m.dispatch (.connect .rsc)).Fresh := by
  have hstate : ((starting 7 (100 * usInSec)).dispatch (.connect .rsc)).recover.state = .running ∧
      ((starting 7 (100 * usInSec)).dispatch (.connect .rsc)).lastAccepted = some 0 ∧
      100 * usInSec ≤ ((starting 7 (100 * usInSec)).dispatch (.connect .rsc)).now := by
    decide +kernel
  refine ⟨starting 7 (100 * usInSec), ⟨_, _, _, _, _, rfl⟩, by decide +kernel, hstate, ?_⟩
  intro hfresh
  obtain ⟨-, t, ht, hle⟩ := hfresh hstate.1
  obtain rfl := Option.some.inj (hstate.2.1.symm.trans ht)
  have htimeout : healthcheckTimeout < 100 * usInSec := by decide
  have hnow := hstate.2.2
  omega

end

/-! ## Sequence numbers -/

/-- A missed heartbeat is noticed; the next one, or the last one again, is not taken for one. -/
def Judges (m : Matahari σ) (k : Nat) : Prop :=
  (2 ≤ k → (m.heartbeatRecv (m.lastSequence + .ofNat k)).hbState = .seqBad) ∧
    (k ≤ 1 → (m.heartbeatRecv (m.lastSequence + .ofNat k)).hbState ≠ .seqBad)

/-- Neither a gap across the wrap nor a duplicate of the largest number. -/
def Unwrapped (s : UInt32) (k : Nat) : Prop :=
  (2 ≤ k → s.toNat + k < 2 ^ 32 ∨ s.toNat + 1 = 2 ^ 32) ∧ (k = 0 → s.toNat + 1 ≠ 2 ^ 32)

theorem succ_lt_add_iff (s : UInt32) {k : Nat} (hk : k < 2 ^ 31) :
    s + 1 < s + .ofNat k ↔
      2 ≤ k ∧ (s.toNat + k < 2 ^ 32 ∨ s.toNat + 1 = 2 ^ 32) ∨ k = 0 ∧ s.toNat + 1 = 2 ^ 32 := by
  have hs := s.toNat_lt
  have hofNat : (UInt32.ofNat k).toNat = k := UInt32.toNat_ofNat_of_lt' (hk.trans (by decide))
  rw [UInt32.lt_iff_toNat_lt, UInt32.toNat_add, UInt32.toNat_add, hofNat, UInt32.toNat_one]
  omega

theorem seqBad_iff (hok : m.hbState = .ok) :
    (m.heartbeatRecv sequence).hbState = .seqBad ↔ m.lastSequence + 1 < sequence := by
  rcases heartbeatRecv_cases m sequence with ⟨hcond, heq⟩ | ⟨hcond, heq⟩ | ⟨hcond, heq⟩
  · simp [heq, hcond hok]
  · simp [heq, hcond]
  · simp [heq, hcond]

theorem judges_iff (hok : m.hbState = .ok) {k : Nat} (hk : k < 2 ^ 31) :
    m.Judges k ↔ Unwrapped m.lastSequence k := by
  have hbad := (seqBad_iff hok).trans (succ_lt_add_iff m.lastSequence hk)
  unfold Judges Unwrapped
  rw [ne_eq, hbad]
  omega

section

variable [Stopwatch σ]

def beat (m : Matahari σ) (b : Nat × Nat) : Matahari σ :=
  m.step (b.1, .heartbeat (m.lastSequence + .ofNat b.2))

/-- Every heartbeat is in time and is the next one, or the last one again. -/
def Timely : Matahari σ → List (Nat × Nat) → Prop
  | _, [] => True
  | m, b :: beats => b.2 ≤ 1 ∧ m.now + b.1 - m.lastHeartbeat.begun ≤ healthcheckTimeout ∧
      Timely (m.beat b) beats

def StaysOk : Matahari σ → List (Nat × Nat) → Prop
  | m, [] => m.hbState = .ok
  | m, b :: beats => m.hbState = .ok ∧ StaysOk (m.beat b) beats

def AllUnwrapped : UInt32 → List (Nat × Nat) → Prop
  | _, [] => True
  | s, b :: beats => Unwrapped s b.2 ∧ AllUnwrapped (s + .ofNat b.2) beats

theorem StaysOk.ok {beats : List (Nat × Nat)} (h : m.StaysOk beats) : m.hbState = .ok := by
  cases beats with
  | nil => exact h
  | cons b beats => exact h.1

theorem checkState_of_ne_ok (h : m.hbState ≠ .ok) :
    m.checkState.hbState ≠ .ok ∧
      (m.recover.state = .running → m.checkState.recover.state = .failed) := by
  rcases checkState_cases m with ⟨-, -, hfailed, hne⟩ | ⟨⟨-, hok, -⟩, -⟩ | ⟨hrunning, -, heq⟩
  · exact ⟨hne, fun _ => hfailed⟩
  · exact absurd hok h
  · rw [heq]
    exact ⟨h, fun hstate => absurd (hrunning hstate).1 h⟩

theorem checkState_of_fresh (hok : m.hbState = .ok)
    (hfresh : m.lastHeartbeat.elapsed m.now ≤ healthcheckTimeout) :
    m.checkState.hbState = .ok ∧ m.checkState.lastSequence = m.lastSequence ∧
      (m.recover.state = .running → m.checkState.recover.state = .running) := by
  rcases checkState_cases m with ⟨-, hlate, -⟩ | ⟨⟨hne, -⟩, heq⟩ | ⟨-, -, heq⟩
  · exact absurd (hlate hok) (Nat.not_lt.mpr hfresh)
  · obtain ⟨-, -, hset | ⟨hfailed, -⟩⟩ := recoverSet_cases m .running
    · rw [heq, hset]
      exact ⟨hok, rfl, fun hrunning => absurd hrunning hne⟩
    · cases hfailed
  · rw [heq]
    exact ⟨hok, rfl, id⟩

theorem heartbeat_cases (hok : m.hbState = .ok) (sequence : UInt32) :
    ((¬ m.lastSequence + 1 < sequence ∧ m.now - m.lastHeartbeat.begun ≤ healthcheckTimeout) ∧
        (m.dispatch (.heartbeat sequence)).hbState = .ok ∧
        (m.dispatch (.heartbeat sequence)).lastSequence = sequence ∧
        (m.recover.state = .running →
          (m.dispatch (.heartbeat sequence)).recover.state = .running)) ∨
      ((m.lastSequence + 1 < sequence ∨ healthcheckTimeout < m.now - m.lastHeartbeat.begun) ∧
        (m.dispatch (.heartbeat sequence)).hbState ≠ .ok ∧
        (m.recover.state = .running →
          (m.dispatch (.heartbeat sequence)).recover.state = .failed)) := by
  have hdispatch : m.dispatch (.heartbeat sequence) = (m.heartbeatRecv sequence).checkState := rfl
  rw [hdispatch]
  rcases heartbeatRecv_cases m sequence with ⟨hcond, heq⟩ | ⟨hcond, heq⟩ | ⟨hcond, heq⟩
  · refine Or.inl ⟨hcond hok, ?_⟩
    have hnow : (m.heartbeatRecv sequence).hbState = .ok := by rw [heq]
    obtain ⟨hhb, hseq, hstate⟩ :=
      checkState_of_fresh hnow (heartbeatRecv_elapsed hnow ▸ Nat.zero_le _)
    exact ⟨hhb, hseq.trans (by rw [heq]), fun hrunning => hstate (by rw [heq]; exact hrunning)⟩
  · obtain ⟨hne, hstate⟩ := checkState_of_ne_ok (m := m.heartbeatRecv sequence) (by simp [heq])
    exact Or.inr ⟨Or.inl hcond.2, hne, fun hrunning => hstate (by rw [heq]; exact hrunning)⟩
  · obtain ⟨hne, hstate⟩ := checkState_of_ne_ok (m := m.heartbeatRecv sequence) (by simp [heq])
    exact Or.inr ⟨Or.inr hcond.2.2, hne, fun hrunning => hstate (by rw [heq]; exact hrunning)⟩

theorem staysOk_iff {beats : List (Nat × Nat)} (hok : m.hbState = .ok) (htimely : m.Timely beats) :
    m.StaysOk beats ↔ AllUnwrapped m.lastSequence beats := by
  induction beats generalizing m with
  | nil => exact iff_of_true hok trivial
  | cons b beats ih =>
      obtain ⟨hnext, htime, hrest⟩ := htimely
      have hgap := succ_lt_add_iff m.lastSequence (k := b.2) (by omega)
      rcases heartbeat_cases (m := m.wait b.1) hok (m.lastSequence + .ofNat b.2) with
        ⟨⟨hseq, -⟩, hbeat, hlast, -⟩ | ⟨hbad, hbeat, -⟩
      · have hunwrapped : Unwrapped m.lastSequence b.2 :=
          ⟨fun hk => by omega, fun hk heq => hseq (hgap.mpr (Or.inr ⟨hk, heq⟩))⟩
        have hih := ih (m := m.beat b) hbeat hrest
        rw [show (m.beat b).lastSequence = m.lastSequence + .ofNat b.2 from hlast] at hih
        exact and_congr (iff_of_true hok hunwrapped) hih
      · have hseq := hbad.resolve_right (Nat.not_lt.mpr htime)
        refine iff_of_false (fun h => hbeat h.2.ok) fun h => ?_
        rcases hgap.mp hseq with ⟨hk, -⟩ | ⟨hk, heq⟩
        · omega
        · exact h.1.2 hk heq

theorem failed_iff (hok : m.hbState = .ok) (hrunning : m.recover.state = .running) {k : Nat}
    (hk : k < 2 ^ 31) (hgap : 2 ≤ k) :
    (m.dispatch (.heartbeat (m.lastSequence + .ofNat k))).recover.state = .failed ↔
      Unwrapped m.lastSequence k ∨ healthcheckTimeout < m.now - m.lastHeartbeat.begun := by
  have hunwrapped : Unwrapped m.lastSequence k ↔
      m.lastSequence + 1 < m.lastSequence + .ofNat k := by
    rw [succ_lt_add_iff _ hk]
    unfold Unwrapped
    omega
  rw [hunwrapped]
  rcases heartbeat_cases hok (m.lastSequence + .ofNat k) with ⟨hgood, -, -, hstate⟩ |
    ⟨hbad, -, hstate⟩
  · rw [hstate hrunning]
    refine iff_of_false (by simp) ?_
    rintro (hseq | hlate)
    · exact hgood.1 hseq
    · exact Nat.not_lt.mpr hgood.2 hlate
  · exact iff_of_true (hstate hrunning) hbad

/--
Gaps and duplicates are told apart exactly away from the wrap; so a run of heartbeats in time
stays `HEARTBEAT_OK`, and a missed one fails a running assembly, exactly there.
-/
theorem gaps_detected_iff (hok : m.hbState = .ok) :
    (∀ k < 2 ^ 31, m.Judges k ↔ Unwrapped m.lastSequence k) ∧
      (∀ beats, m.Timely beats → (m.StaysOk beats ↔ AllUnwrapped m.lastSequence beats)) ∧
      (m.recover.state = .running → ∀ k < 2 ^ 31, 2 ≤ k →
        ((m.dispatch (.heartbeat (m.lastSequence + .ofNat k))).recover.state = .failed ↔
          Unwrapped m.lastSequence k ∨ healthcheckTimeout < m.now - m.lastHeartbeat.begun)) := by
  refine ⟨fun k hk => judges_iff hok hk, fun beats htimely => staysOk_iff hok htimely, ?_⟩
  intro hrunning k hk hgap
  exact failed_iff hok hrunning hk hgap

def running (sequence : UInt32) : Matahari Ring := (starting sequence 0).dispatch (.connect .rsc)

theorem gaps_detected_running :
    ((running 7).dispatch (.heartbeat 10)).recover.state = .failed ∧
      (running 7).StaysOk [(usInSec, 1), (usInSec, 0), (usInSec, 1)] := by
  have hgaps := gaps_detected_iff (m := running 7) (by decide +kernel)
  refine ⟨(hgaps.2.2 (by decide +kernel) 3 (by decide) (by decide)).mpr (Or.inl ?_),
    (hgaps.2.1 _ ?_).mpr ?_⟩
  · exact ⟨fun _ => by decide +kernel, fun h => absurd h (by decide)⟩
  · simp only [Timely]
    decide +kernel
  · simp only [AllUnwrapped, Unwrapped]
    decide +kernel

/-- A gap across the wrap is missed, and a duplicate of the largest number fails the assembly. -/
theorem gap_missed_at_wrap :
    ((running 4294967294).hbState = .ok ∧
      ((running 4294967294).heartbeatRecv 0).hbState = .ok ∧
      ((running 4294967294).dispatch (.heartbeat 0)).recover.state = .running) ∧
    (running 4294967295).hbState = .ok ∧
      ((running 4294967295).heartbeatRecv 4294967295).hbState = .seqBad ∧
      ((running 4294967295).dispatch (.heartbeat 4294967295)).recover.state = .failed := by
  decide +kernel

end

end Matahari

end PacemakerCloud

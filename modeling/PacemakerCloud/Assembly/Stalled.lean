import PacemakerCloud.Assembly.Disconnect
import PacemakerCloud.Assembly.Serial

/-!
# A queue that is not served

`assembly_ssh_exec` gives up on a command whose channel it cannot open: it neither takes the command
off the queue nor adds its own job again.  The transport still counts as scheduled, so commands
that are queued later do not start it either; only the timeout of a command ends this, and it
drops the queue.
-/

namespace PacemakerCloud

open Foundation

namespace Assembly

variable {σ : Type}

def Busy (a : Assembly σ) : Prop :=
  ∀ t, a.transport = some t → (a.trans t).queue ≠ [] → (a.trans t).scheduled = true

variable {a a' : Assembly σ} {s t : Nat} {env : Env} {outputs : List Output}

/-! ## Scheduling -/

theorem busy_of_not_connected (h : a.Commands) (hnot : ∀ t, ¬ a.Connected t) : a.Busy := by
  intro t ht hqueue
  obtain ⟨s, hs⟩ := List.exists_mem_of_ne_nil _ hqueue
  exact absurd (h.queue_connected hs) (hnot t)

theorem busy_of_queue_nil (h : a.queue = []) : a.Busy := by
  intro t ht hqueue
  rw [queue_eq ht] at h
  exact absurd h hqueue

theorem busy_of_callbacks_nil (h : a.callbacks = []) : a.Busy := by
  intro t ht hqueue
  rw [callbacks_eq ht, List.map_eq_nil_iff] at h
  exact absurd h hqueue

theorem transportSchedule_busy (h : a.transport = some t) : (a.transportSchedule t).Busy := by
  intro t' ht' hqueue
  unfold transportSchedule at ht' hqueue ⊢
  cases hq : (a.trans t).queue with
  | nil =>
      simp only [hq, modifyTrans] at ht' hqueue
      obtain rfl : t = t' := Option.some.inj (h.symm.trans ht')
      simp at hqueue
  | cons s rest =>
      simp only [hq, jobAdd, modifyTrans] at ht' ⊢
      obtain rfl : t = t' := Option.some.inj (h.symm.trans ht')
      simp

theorem enqueue_busy (h : a.transport = some t) (callback : SshCallback) (command : CString) :
    (a.enqueue t callback command).Busy := by
  unfold enqueue
  split
  · next hscheduled =>
      intro t' ht' _
      obtain rfl : t = t' := Option.some.inj (h.symm.trans ht')
      simpa [addCommand, modifyTrans] using hscheduled
  · exact transportSchedule_busy h

theorem sshKeepaliveSend_busy (h : a.Busy) (t : Nat) : (a.sshKeepaliveSend t).Busy := by
  intro t' ht' hqueue
  by_cases ht : t' = t
  · subst ht
    simpa [sshKeepaliveSend, modifyTrans, timerAdd] using
      h t' ht' (by simpa [sshKeepaliveSend, modifyTrans, timerAdd] using hqueue)
  · simpa [sshKeepaliveSend, modifyTrans, timerAdd, ht] using
      h t' ht' (by simpa [sshKeepaliveSend, modifyTrans, timerAdd, ht] using hqueue)

theorem Ends.transport (h : Ends a a' outputs) : a'.transport = a.transport := by
  cases h with
  | kept hkeeps _ => exact hkeeps.transport
  | down htransport _ _ => exact htransport

/-! ## Every handler leaves a transport with commands scheduled -/

variable [Stopwatch σ]

theorem recoverSet_queue_nil (hconnected : a.Connected t) (hqueue : a.queue = []) (now : Nat)
    (state : RecoverState) : (a.recoverSet now state).1.queue = [] := by
  obtain ⟨r, -, -, -, ⟨outs, heq, -, -⟩ | ⟨-, -, heq⟩⟩ := a.recoverSet_cases now state
  · rw [heq]
    exact hqueue
  · rw [heq]
    exact (restart_queue (a := { a with recover := r }) (t := t) hconnected).1

theorem timeout_queue_nil (h : a.Sound) {handle : Nat} (hs : (handle, .sshTimeout s) ∈ a.timers)
    (htimeout : (a.timerDel handle).timeout s env = .ok (a', outputs)) : a'.queue = [] := by
  obtain ⟨-, t, hmem⟩ := h.commands.timeout_queued hs
  have hconnected := h.commands.queue_connected hmem
  have ht : ((a.timerDel handle).sshOps s).transport = t := (h.commands.queue_op hmem).2
  have hconnected' : ((a.timerDel handle).flush t).Connected t :=
    Connected.flush (a := a.timerDel handle) hconnected
  have hempty : ((a.timerDel handle).flush t).queue = [] := by
    rw [queue_eq hconnected'.1.1, flush_queue]
  have hflush : (a.timerDel handle).sshTimeoutFlush s = (a.timerDel handle).flush t := by
    simp only [sshTimeoutFlush, ht, Assembly.flush]
  simp only [timeout, hflush] at htimeout
  split at htimeout
  · simp only [unhealthy, hconnected'.1.1, Except.ok.injEq] at htimeout
    have hset := recoverSet_queue_nil (a := ((a.timerDel handle).flush t).transportFailed t)
      (t := t) hconnected' hempty env.now .failed
    rwa [htimeout] at hset
  · simp only [Except.ok.injEq] at htimeout
    have hset := recoverSet_queue_nil hconnected' hempty env.now .failed
    rwa [htimeout] at hset

theorem up_busy (hconnected : a.Connected t) (h : a.up env = .ok (a', outputs)) : a'.Busy := by
  obtain ⟨hset, -⟩ := recoverSet_keeps a env.now .running (by simp)
  simp only [up, assemblyHealthcheck,
    transportExecute_eq (hset.connected.mpr hconnected)] at h
  cases h
  exact enqueue_busy (hset.transport.trans hconnected.1.1) _ _

theorem handshake_busy (hlive : a.Live t) (hnot : ¬ a.Connected t) (hsound' : a'.Sound)
    (h : a.handshake env = .ok (a', outputs)) : a'.Busy := by
  have hclosed : ∀ {state : SshState}, state ≠ .sessionConnected → ∀ t',
      ¬ (a.modifyTrans t ({ · with sshState := state })).Connected t' := by
    rintro state hstate t' ⟨⟨htransport, -⟩, hconnected⟩
    obtain rfl : t' = t := hlive.eq htransport
    exact hstate (by simpa [modifyTrans] using hconnected)
  simp only [handshake, hlive.1] at h
  cases hout : connectOutcome env (a.trans t).sshState with
  | again state =>
      simp only [hout] at h
      cases h
      have hstate : state ≠ .sessionConnected := by
        rcases connectOutcome_again hout with rfl | rfl | rfl <;> simp
      exact busy_of_not_connected hsound'.commands (hclosed hstate)
  | failed =>
      simp only [hout] at h
      cases h
      exact busy_of_not_connected hsound'.commands (hclosed (by simp))
  | assertion => simp [hout] at h
  | keepalive =>
      simp only [hout] at h
      refine up_busy (t := t) ?_ h
      simpa [Connected, Live, sshKeepaliveSend, modifyTrans, timerAdd] using hlive
  | connected => exact absurd ⟨hlive, connectOutcome_connected hout⟩ hnot

theorem exec_busy (hbusy : a.Busy) (hconnected : a.Connected (a.sshOps s).transport)
    (howned : a.KeepalivesOwned) (h : a.exec s env = .ok (a', outputs)) : a'.Busy := by
  rcases exec_eq_ok h with ⟨state, sshRc, -, rfl, rfl⟩ | ⟨-, rfl, rfl⟩ |
    ⟨sshRc, b, -, hcompleted, rfl⟩
  · exact hbusy
  · exact hbusy
  · have hdequeue := Keeps.sshOpDequeue a s
    have hends := completed_ends (hdequeue.keepalives howned)
      (hdequeue.connected.mpr hconnected) hcompleted
    exact transportSchedule_busy (hends.transport.trans hconnected.1.1)

theorem reactJob_busy (hbusy : a.Busy) (hdialing : a.Dialing) (hsound : a.Sound)
    {job : AssemblyJob} (hjob : job ∈ a.jobs)
    (hreact : (a.jobDel job).reactJob env job = .ok (a', outputs)) : a'.Busy := by
  have hsound' := (reactJob_sound hsound hjob hreact).1
  have hcommands := hsound.commands.jobDel job
  cases job with
  | myInstanceStateGet =>
      have hpending : a.pipeline ≠ 0 := fun h => (pipeline_eq_zero.mp h).1 hjob
      obtain ⟨-, hempty, -⟩ := poll_sound hcommands
        (hsound.pipeline.jobDel_zero hjob (by simp)) (hsound.pipeline.polling (Or.inl hjob))
        (hsound.not_running hpending) hreact
      exact busy_of_callbacks_nil hempty
  | connectExecute =>
      have hpending : a.pipeline ≠ 0 := fun h => (pipeline_eq_zero.mp h).2.1 hjob
      obtain ⟨t, hlive⟩ := hsound.pipeline.connecting (Or.inl hjob)
      simp only [reactJob] at hreact
      split at hreact
      · next b hconnect =>
          cases hreact
          obtain ⟨-, hempty⟩ := connectExecute_sound hcommands
            (hsound.pipeline.jobDel_zero hjob (by simp)) (t := t) hlive
            (hsound.not_connected hpending t) (hsound.not_running hpending) hconnect
          exact busy_of_callbacks_nil hempty
      · cases hreact
  | sshAssemblyConnect =>
      have hpending : a.pipeline ≠ 0 := fun h => (pipeline_eq_zero.mp h).2.2.1 hjob
      obtain ⟨t, hlive⟩ := hsound.pipeline.connecting (Or.inr hjob)
      exact handshake_busy (a := a.jobDel _) (t := t) hlive (hsound.not_connected hpending t)
        hsound' hreact
  | assemblySshExec s =>
      have hmem := List.mem_of_mem_head? (hsound.commands.exec_queue hjob).1
      have hconnected := hsound.commands.queue_connected hmem
      exact exec_busy (a := a.jobDel _) hbusy hconnected hdialing.keepalives hreact

theorem reactTimer_busy (hbusy : a.Busy) (hsound : a.Sound) {handle : Nat}
    {timer : AssemblyTimer} (htimer : (handle, timer) ∈ a.timers)
    (hreact : (a.timerDel handle).reactTimer env timer = .ok (a', outputs)) : a'.Busy := by
  cases timer with
  | myInstanceStateGet =>
      have hpending : a.pipeline ≠ 0 := fun h => (pipeline_eq_zero.mp h).2.2.2 handle htimer
      obtain ⟨-, hempty, -⟩ := poll_sound (hsound.commands.timerDel handle)
        (hsound.pipeline.timerDel_zero htimer)
        (hsound.pipeline.polling (Or.inr ⟨handle, htimer⟩)) (hsound.not_running hpending) hreact
      exact busy_of_callbacks_nil hempty
  | sshTimeout s => exact busy_of_queue_nil (timeout_queue_nil hsound htimer hreact)
  | sshKeepaliveSend t =>
      cases hreact
      exact sshKeepaliveSend_busy (a := a.timerDel handle) hbusy t
  | assemblyHealthcheck =>
      obtain ⟨t, hconnected, -⟩ := hsound.commands.health_connected htimer
      have hconnected' : (a.timerDel handle).Connected t := hconnected
      simp only [reactTimer, assemblyHealthcheck, transportExecute_eq hconnected'] at hreact
      cases hreact
      exact enqueue_busy hconnected'.1.1 _ _

/-! ## A queue that is not served -/

omit [Stopwatch σ] in
theorem Sound.exec_of_actions (h : a.Sound) (hactions : a.actions ≠ []) {job : AssemblyJob}
    (hjob : job ∈ a.jobs) : ∃ s, job = .assemblySshExec s := by
  have hzero : a.pipeline = 0 := by
    by_contra hpending
    exact hactions (h.actions_of_pending hpending)
  obtain ⟨hpoll, hconnect, hshake, -⟩ := pipeline_eq_zero.mp hzero
  cases job with
  | myInstanceStateGet => exact absurd hjob hpoll
  | connectExecute => exact absurd hjob hconnect
  | sshAssemblyConnect => exact absurd hjob hshake
  | assemblySshExec s => exact ⟨s, rfl⟩

omit [Stopwatch σ] in
theorem enqueue_idle (hscheduled : (a.trans t).scheduled = true) (hidle : a.Idle)
    (callback : SshCallback) (command : CString) : (a.enqueue t callback command).Idle := by
  unfold enqueue
  rw [if_pos hscheduled]
  exact hidle

omit [Stopwatch σ] in
theorem Busy.scheduled (h : a.Busy) (hconnected : a.Connected t) (hactions : a.actions ≠ []) :
    (a.trans t).scheduled = true := by
  refine h t hconnected.1.1 fun hqueue => hactions ?_
  simp [actions, callbacks_eq hconnected.1.1, hqueue]

theorem reactTimer_stalled (hbusy : a.Busy) (hsound : a.Sound) (hidle : a.Idle)
    (hactions : a.actions ≠ []) {handle : Nat} {timer : AssemblyTimer}
    (htimer : (handle, timer) ∈ a.timers)
    (hreact : (a.timerDel handle).reactTimer env timer = .ok (a', outputs)) :
    a'.actions = [] ∨ a'.Idle := by
  cases timer with
  | myInstanceStateGet =>
      have hpending : a.pipeline ≠ 0 := fun h => (pipeline_eq_zero.mp h).2.2.2 handle htimer
      exact absurd (hsound.actions_of_pending hpending) hactions
  | sshTimeout s => exact Or.inl (timeout_sound hsound htimer hreact).2.1
  | sshKeepaliveSend t =>
      cases hreact
      exact Or.inr hidle
  | assemblyHealthcheck =>
      obtain ⟨t, hconnected, -⟩ := hsound.commands.health_connected htimer
      have hconnected' : (a.timerDel handle).Connected t := hconnected
      simp only [reactTimer, assemblyHealthcheck, transportExecute_eq hconnected'] at hreact
      cases hreact
      exact Or.inr (enqueue_idle (a := a.timerDel handle)
        (hbusy.scheduled hconnected hactions) hidle _ _)

theorem reactTimer_completes_none (hsound : a.Sound) {handle : Nat} {timer : AssemblyTimer}
    (htimer : (handle, timer) ∈ a.timers)
    (hreact : (a.timerDel handle).reactTimer env timer = .ok (a', outputs)) (o : Nat)
    (sshRc : Int) : .actionCompleted o sshRc ∉ outputs := by
  have hquiet : ∀ {xs : List Output}, (∀ x ∈ xs, x.Quiet) → .actionCompleted o sshRc ∉ xs :=
    fun h hmem => h _ hmem
  cases timer with
  | myInstanceStateGet =>
      have hpending : a.pipeline ≠ 0 := fun h => (pipeline_eq_zero.mp h).2.2.2 handle htimer
      obtain ⟨-, -, houtputs⟩ := poll_sound (hsound.commands.timerDel handle)
        (hsound.pipeline.timerDel_zero htimer)
        (hsound.pipeline.polling (Or.inr ⟨handle, htimer⟩)) (hsound.not_running hpending) hreact
      exact hquiet houtputs
  | sshTimeout s =>
      obtain ⟨-, -, houtputs | rfl⟩ := timeout_sound hsound htimer hreact
      · exact hquiet houtputs
      · simp
  | sshKeepaliveSend t =>
      cases hreact
      simp
  | assemblyHealthcheck =>
      simp only [reactTimer] at hreact
      split at hreact
      · cases hreact
        simp
      · cases hreact

end Assembly

end PacemakerCloud

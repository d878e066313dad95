import PacemakerCloud.Assembly.Pipeline

/-!
# What the handlers of an assembly do

Every handler keeps the invariant of the assembly, and does one of three things
to the queued operations: it leaves them alone, completes one of them, or drops
them all with the transport.
-/

namespace PacemakerCloud

open Foundation

def Output.Quiet : Output → Prop
  | .stateChanging | .address _ => True
  | .restarted | .actionCompleted _ _ => False

namespace Assembly

variable {σ : Type} {a a' : Assembly σ} {env : Env} {outputs : List Output}

inductive Effect (a a' : Assembly σ) : List Output → Prop where
  | kept {outputs : List Output} (hquiet : ∀ x ∈ outputs, x.Quiet)
      (hactions : a'.actions = a.actions) : Effect a a' outputs
  | completed {o : Nat} {sshRc : Int}
      (hactions : a.actions = o :: a'.actions) :
      Effect a a' [.actionCompleted o sshRc]
  | restarted (hactions : a'.actions = []) :
      Effect a a' [.stateChanging, .restarted]

/-! ## Connecting -/

theorem connectExecute_sound (hcommands : a.Commands) (hzero : a.pipeline = 0)
    {t : Nat} (hlive : a.Live t) (hnot : ¬ a.Connected t)
    (hdown : a.recover.state ≠ .running) (h : a.connectExecute env = .ok a') :
    a'.Sound ∧ a'.callbacks = [] := by
  have hempty : (a.trans t).queue = [] :=
    List.eq_nil_iff_forall_not_mem.mpr
      fun s hs => hnot (hcommands.queue_connected hs)
  simp only [connectExecute, hlive.1] at h
  split at h
  · cases h
    refine ⟨⟨(hcommands.setSshState hnot _).jobAdd (by simp), ?_,
      fun hr => absurd hr hdown⟩, ?_⟩
    · refine Pipeline.connectJob (t := t) ?_ ?_ ?_ (Or.inr rfl)
      · exact hzero
      · simpa [Live, modifyTrans] using hlive
      · simp [Connected, modifyTrans]
    · simp [callbacks, jobAdd, modifyTrans, hlive.1, hempty]
  · cases h
    exact ⟨⟨hcommands.jobAdd (by simp), Pipeline.connectJob hzero hlive hnot (Or.inl rfl),
      fun hr => absurd hr hdown⟩, by simp [callbacks, jobAdd, hlive.1, hempty]⟩

/-! ## The end of a command -/

@[simp] theorem pipeline_execAgain (a : Assembly σ) (s : Nat) (state : SshExecState)
    (sshRc : Int) : (a.execAgain s state sshRc).pipeline = a.pipeline := by
  simp [Assembly.pipeline, execAgain, modifySshOp, jobAdd, List.count_append]


theorem Sound.dequeue (h : a.Sound) {s : Nat} (hs : .assemblySshExec s ∈ a.jobs) :
    ((a.jobDel (.assemblySshExec s)).sshOpDequeue s).Commands ∧
      ((a.jobDel (.assemblySshExec s)).sshOpDequeue s).Idle ∧
      ((a.jobDel (.assemblySshExec s)).sshOpDequeue s).pipeline = 0 ∧
      ((a.jobDel (.assemblySshExec s)).sshOpDequeue s).Connected
        (a.sshOps s).transport ∧
      a.callbacks = (a.sshOps s).callback ::
        ((a.jobDel (.assemblySshExec s)).sshOpDequeue s).callbacks ∧
      ((a.jobDel (.assemblySshExec s)).sshOpDequeue s).timers.countP
        (·.2 = .assemblyHealthcheck) = a.timers.countP (·.2 = .assemblyHealthcheck) := by
  have hhead := (h.commands.exec_queue hs).1
  have hmem := List.mem_of_mem_head? hhead
  have hconnected := h.commands.queue_connected hmem
  have hidle := h.commands.idle_jobDel hs
  refine ⟨(h.commands.jobDel _).dequeue hidle, hidle, ?_, ?_, ?_, ?_⟩
  · have hle : ((a.jobDel (.assemblySshExec s)).sshOpDequeue s).pipeline ≤ a.pipeline :=
      pipeline_le_of_sublist List.erase_sublist List.filter_sublist
    have hzero := h.pipeline.connected hconnected
    omega
  · simpa [Connected, Live, sshOpDequeue, modifyTrans, timerDel, jobDel]
      using hconnected
  · exact callbacks_dequeue (a := a.jobDel (.assemblySshExec s)) hconnected.1.1 rfl hhead
  · refine countP_timerDel (a := a.jobDel (.assemblySshExec s)) fun timer htimer => ?_
    rw [(h.commands.timer_own hmem).2 timer htimer]
    simp

@[simp] theorem callbacks_healthcheckTimerAdd (a : Assembly σ) (t : Nat) :
    (a.healthcheckTimerAdd t).callbacks = a.callbacks := by
  simp only [callbacks, healthcheckTimerAdd, modifyTrans, timerAdd]
  cases a.transport with
  | none => rfl
  | some t' => by_cases h : t' = t <;> simp [h]

/-! ## The health check and the keepalive -/

theorem assemblyHealthcheck_sound (h : a.Sound) {handle : Nat}
    (hs : (handle, .assemblyHealthcheck) ∈ a.timers)
    (hcheck : (a.timerDel handle).assemblyHealthcheck = .ok a') :
    a'.Sound ∧ a'.actions = a.actions := by
  obtain ⟨t, hconnected, -⟩ := h.commands.health_connected hs
  have hcommands := h.commands.timerDel handle
  have hconnected' : (a.timerDel handle).Connected t := hconnected
  rw [assemblyHealthcheck, transportExecute_eq hconnected'] at hcheck
  cases hcheck
  refine ⟨⟨hcommands.enqueue hconnected' _ _, Pipeline.of_zero ?_,
    fun hrunning => ⟨⟨t, by simpa using hconnected'⟩, ?_⟩⟩, ?_⟩
  · have hle := pipeline_timerDel_le a handle
    have hzero := h.pipeline.connected hconnected
    rw [pipeline_enqueue]
    omega
  · -- the timer that fired was the only health check
    rw [enqueue_recover] at hrunning
    obtain ⟨-, hone⟩ := h.healthy hrunning
    have hlt : (a.timerDel handle).timers.countP (·.2 = .assemblyHealthcheck) < _ :=
      countP_filter_lt hs (by simp) (by simp)
    have hsame : (a.timerDel handle).callbacks = a.callbacks := rfl
    rw [healthchecks_enqueue hcommands hconnected'.1]
    simp only [healthchecks, hsame, List.count_singleton_self] at hone ⊢
    omega
  · rw [actions_enqueue hcommands hconnected'.1]
    exact List.append_nil _

theorem sshKeepaliveSend_sound (h : a.Sound) {handle t : Nat}
    (hs : (handle, .sshKeepaliveSend t) ∈ a.timers) :
    ((a.timerDel handle).sshKeepaliveSend t).Sound ∧
      ((a.timerDel handle).sshKeepaliveSend t).pipeline = a.pipeline ∧
      ((a.timerDel handle).sshKeepaliveSend t).callbacks = a.callbacks := by
  have hown : ∀ timer, (handle, timer) ∈ a.timers → timer = .sshKeepaliveSend t :=
    fun timer htimer => h.commands.timer_unique htimer hs
  have hpolls : (a.timerDel handle).timers.countP (·.2 = .myInstanceStateGet) = _ :=
    countP_timerDel fun timer ht => by simp [hown timer ht]
  have hchecks : (a.timerDel handle).timers.countP (·.2 = .assemblyHealthcheck) = _ :=
    countP_timerDel fun timer ht => by simp [hown timer ht]
  have hlive : ∀ t', ((a.timerDel handle).sshKeepaliveSend t).Live t' ↔ a.Live t' := by
    intro t'
    by_cases h : t' = t <;>
      simp [Live, sshKeepaliveSend, modifyTrans, timerAdd, timerDel, h]
  have hconnected : ∀ t', ((a.timerDel handle).sshKeepaliveSend t).Connected t' ↔
      a.Connected t' := by
    intro t'
    by_cases h : t' = t <;>
      simp [Connected, Live, sshKeepaliveSend, modifyTrans, timerAdd, timerDel, h]
  have hcallbacks : ((a.timerDel handle).sshKeepaliveSend t).callbacks = a.callbacks := by
    simp only [callbacks, sshKeepaliveSend, modifyTrans, timerAdd, timerDel]
    cases a.transport with
    | none => rfl
    | some t' => by_cases h : t' = t <;> simp [h]
  have hpipeline : ((a.timerDel handle).sshKeepaliveSend t).pipeline = a.pipeline := by
    simp only [Assembly.pipeline, ← hpolls, sshKeepaliveSend, modifyTrans, timerAdd,
      List.countP_append]
    simp [timerDel]
  refine ⟨⟨(h.commands.timerDel handle).sshKeepaliveSend t,
    h.pipeline.congr hpipeline hlive (fun t' => (hconnected t').mp) (fun _ _ => id) ?_,
    h.healthy.congr rfl (fun t' => (hconnected t').mpr) ?_⟩, hpipeline, hcallbacks⟩
  · intro handle' hmem
    simp only [sshKeepaliveSend, modifyTrans, timerAdd, List.mem_append] at hmem
    rcases hmem with hmem | hmem
    · exact List.mem_of_mem_filter hmem
    · simp at hmem
  · rw [healthchecks, hcallbacks, healthchecks, ← hchecks]
    simp [sshKeepaliveSend, modifyTrans, timerAdd, List.countP_append]

variable [Stopwatch σ]

/-! ## Polling and the handshake -/

theorem poll_sound (hcommands : a.Commands) (hzero : a.pipeline = 0)
    (hnone : ∀ t, ¬ a.Live t) (hdown : a.recover.state ≠ .running)
    (h : a.poll env = .ok (a', outputs)) :
    a'.Sound ∧ a'.callbacks = [] ∧ ∀ x ∈ outputs, x.Quiet := by
  have hempty := hcommands.callbacks_of_not_connected fun t hc => hnone t hc.1
  cases pollStep_of_poll h with
  | unanswered =>
      exact ⟨⟨hcommands, Pipeline.of_zero hzero, fun hr => absurd hr hdown⟩, hempty,
        by simp⟩
  | active address =>
      refine ⟨⟨hcommands.transportConnect hnone, ?_, fun hr => absurd hr hdown⟩,
        by simp [transportConnect, callbacks, jobAdd], by simp [Output.Quiet]⟩
      refine Pipeline.connectJob (t := a.transCount) ?_ ?_ ?_ (Or.inl rfl)
      · exact hzero
      · simp [Live]
      · simp [Connected]
  | pending =>
      obtain ⟨r, hstate, -, -, ⟨outputs, heq, houtputs, -⟩ | ⟨hfailed, -⟩⟩ :=
        a.recoverSet_cases env.now .unknown
      · rw [heq]
        refine ⟨⟨(hcommands.of_recover r).timerAdd (by simp) (by simp),
          Pipeline.pollTimer hzero hnone, fun hr => ?_⟩, hempty, ?_⟩
        · cases hstate.symm.trans hr
        · rcases houtputs with rfl | rfl <;> simp [Output.Quiet]
      · cases hfailed

theorem up_sound (hcommands : a.Commands) (hzero : a.pipeline = 0) {t : Nat}
    (hconnected : a.Connected t) (hnone : a.healthchecks = 0)
    (h : a.up env = .ok (a', outputs)) :
    a'.Sound ∧ a'.callbacks = a.callbacks ++ [.healthcheck] ∧
      ∀ x ∈ outputs, x.Quiet := by
  obtain ⟨r, hstate, -, -, ⟨outs, heq, houts, -⟩ | ⟨hfailed, -⟩⟩ :=
    a.recoverSet_cases env.now .running
  · have hcommands' := hcommands.of_recover r
    have hconnected' : ({ a with recover := r } : Assembly σ).Connected t := hconnected
    simp only [up, heq, assemblyHealthcheck, transportExecute_eq hconnected'] at h
    cases h
    refine ⟨⟨hcommands'.enqueue hconnected' _ _, Pipeline.of_zero ?_, fun _ => ⟨⟨t, ?_⟩,
      ?_⟩⟩, callbacks_enqueue hcommands' hconnected'.1 _ _, ?_⟩
    · rw [pipeline_enqueue]
      exact hzero
    · rw [connected_enqueue]
      exact hconnected'
    · rw [healthchecks_enqueue hcommands' hconnected'.1]
      have hzero' : ({ a with recover := r } : Assembly σ).healthchecks = 0 := hnone
      simp [hzero']
    · rcases houts with rfl | rfl <;> simp [Output.Quiet]
  · cases hfailed

theorem connectOutcome_again {state state' : SshState}
    (h : connectOutcome env state = .again state') :
    state' = .sessionInit ∨ state' = .sessionStartup ∨
      state' = .userauthPublickeyFromfile := by
  have hauth : connectUserauth env = .again state' →
      state' = .userauthPublickeyFromfile := by
    unfold connectUserauth
    cases env.userauth <;> simp [eq_comm]
  have hstartup : connectStartup env = .again state' →
      state' = .sessionStartup ∨ state' = .userauthPublickeyFromfile := by
    unfold connectStartup
    cases env.sessionStartup <;> simp +contextual [eq_comm, hauth]
  cases state with
  | sessionInit =>
      simp only [connectOutcome] at h
      split at h
      · exact Or.inr (hstartup h)
      · cases h
        exact Or.inl rfl
  | sessionStartup => exact Or.inr (hstartup h)
  | userauthPublickeyFromfile => exact Or.inr (Or.inr (hauth h))
  | keepaliveConfig | sessionConnected | sessionConnecting => cases h

theorem connectOutcome_connected {state : SshState}
    (h : connectOutcome env state = .connected) : state = .sessionConnected := by
  have hauth : connectUserauth env ≠ .connected := by
    unfold connectUserauth
    cases env.userauth <;> simp
  have hstartup : connectStartup env ≠ .connected := by
    unfold connectStartup
    cases env.sessionStartup <;> simp [hauth]
  cases state <;> simp only [connectOutcome, hauth, hstartup, reduceCtorEq] at h ⊢
  split at h
  · exact hstartup h
  · cases h

theorem handshake_sound (hcommands : a.Commands) (hzero : a.pipeline = 0)
    {t : Nat} (hlive : a.Live t) (hnot : ¬ a.Connected t)
    (hdown : a.recover.state ≠ .running) (h : a.handshake env = .ok (a', outputs)) :
    a'.Sound ∧ a'.actions = [] ∧ ∀ x ∈ outputs, x.Quiet := by
  have hqueue : (a.trans t).queue = [] :=
    List.eq_nil_iff_forall_not_mem.mpr
      fun s hs => hnot (hcommands.queue_connected hs)
  have hempty : a.callbacks = [] := by simp [callbacks_eq hlive.1, hqueue]
  simp only [handshake, hlive.1] at h
  cases hout : connectOutcome env (a.trans t).sshState with
  | again state =>
      simp only [hout] at h
      cases h
      refine ⟨⟨(hcommands.setSshState hnot _).jobAdd (by simp), ?_,
        fun hr => absurd hr hdown⟩, ?_, by simp⟩
      · refine Pipeline.connectJob (t := t) ?_ ?_ ?_ (Or.inr rfl)
        · exact hzero
        · simpa [Live, modifyTrans] using hlive
        · rcases connectOutcome_again hout with rfl | rfl | rfl <;>
            simp [Connected, modifyTrans]
      · simp [actions, callbacks, jobAdd, modifyTrans, hlive.1, hqueue]
  | failed =>
      simp only [hout] at h
      cases h
      refine ⟨⟨hcommands.setSshState hnot _, Pipeline.of_zero hzero,
        fun hr => absurd hr hdown⟩, ?_, by simp⟩
      simp [actions, callbacks, modifyTrans, hlive.1, hqueue]
  | assertion => simp [hout] at h
  | keepalive =>
      simp only [hout] at h
      have hnot' : ¬ (a.sshKeepaliveSend t).Connected t := by
        simpa [Connected, Live, sshKeepaliveSend, modifyTrans, timerAdd] using hnot
      have hnone : a.timers.countP (·.2 = .assemblyHealthcheck) = 0 := by
        rw [List.countP_eq_zero]
        rintro ⟨handle, timer⟩ hmem htimer
        obtain rfl : timer = .assemblyHealthcheck := of_decide_eq_true htimer
        obtain ⟨t', hc, -⟩ := hcommands.health_connected hmem
        exact hnot (Option.some.inj (hc.1.1.symm.trans hlive.1) ▸ hc)
      obtain ⟨hsound, hcallbacks, hquiet⟩ :=
        up_sound (t := t) ((hcommands.sshKeepaliveSend t).setSshState hnot' _) (by
          simpa [Assembly.pipeline, sshKeepaliveSend, modifyTrans, timerAdd,
            List.countP_append] using hzero) (by
          simpa [Connected, Live, sshKeepaliveSend, modifyTrans, timerAdd] using hlive)
          (by simp [healthchecks, callbacks, sshKeepaliveSend, modifyTrans, timerAdd,
            List.countP_append, hnone, hlive.1, hqueue]) h
      refine ⟨hsound, ?_, hquiet⟩
      rw [actions, hcallbacks]
      simp [callbacks, sshKeepaliveSend, modifyTrans, timerAdd, hlive.1, hqueue,
        SshCallback.op?]
  | connected => exact absurd ⟨hlive, connectOutcome_connected hout⟩ hnot

/-! ## Running a command -/

theorem exec_eq_ok {s : Nat} (h : a.exec s env = .ok (a', outputs)) :
    (∃ state sshRc, execOutcome env (a.sshOps s) = .again state sshRc ∧
        a' = a.execAgain s state sshRc ∧ outputs = []) ∨
      (execOutcome env (a.sshOps s) = .openFailed ∧ a' = a ∧ outputs = []) ∨
      ∃ sshRc b, execOutcome env (a.sshOps s) = .complete sshRc ∧
        (a.sshOpDequeue s).completed (a.sshOps s).callback env sshRc =
          .ok (b, outputs) ∧
        a' = b.transportSchedule (a.sshOps s).transport := by
  by_cases hstate :
      (a.trans (a.sshOps s).transport).sshState = .sessionConnected
  · simp only [exec, hstate, ne_eq, not_true, if_false] at h
    cases hout : execOutcome env (a.sshOps s) with
    | again state sshRc =>
        simp only [hout] at h
        cases h
        exact Or.inl ⟨state, sshRc, rfl, rfl, rfl⟩
    | openFailed =>
        simp only [hout] at h
        cases h
        exact Or.inr (Or.inl ⟨rfl, rfl, rfl⟩)
    | assertion => simp [hout] at h
    | complete sshRc =>
        simp only [hout] at h
        cases hcompleted : (a.sshOpDequeue s).completed (a.sshOps s).callback env
            sshRc with
        | error fault => simp [hcompleted] at h
        | ok result =>
            simp only [hcompleted] at h
            cases h
            exact Or.inr (Or.inr ⟨sshRc, result.1, rfl, by rw [hcompleted], rfl⟩)
  · simp [exec, hstate] at h

theorem healthcheck_sound {b : Assembly σ} (h : a.Sound) (hcommands : b.Commands)
    (hidle : b.Idle) (hzero : b.pipeline = 0) {t : Nat} (hconnected : b.Connected t)
    (hrecover : b.recover = a.recover)
    (hcallbacks : a.callbacks = .healthcheck :: b.callbacks)
    (htimers : b.timers.countP (·.2 = .assemblyHealthcheck) =
      a.timers.countP (·.2 = .assemblyHealthcheck)) {sshRc : Int}
    (hcompleted : b.completed .healthcheck env sshRc = .ok (a', outputs)) :
    a'.Sound ∧ a'.Idle ∧
      ((∀ x ∈ outputs, x = .stateChanging) ∧ a'.callbacks = b.callbacks ∨
        outputs = [.stateChanging, .restarted] ∧ a'.callbacks = []) := by
  simp only [completed] at hcompleted
  split at hcompleted
  · simp only [unhealthy, hconnected.1.1] at hcompleted
    cases hcompleted
    have hzero' : (b.transportFailed t).pipeline = 0 :=
      Nat.le_zero.mp (hzero ▸ pipeline_timerDel_le b _)
    obtain ⟨hsound, hidle', hcases⟩ :=
      (hcommands.timerDel _).fail (t := t) hconnected hzero' env.now
    exact ⟨hsound, hidle' hidle, hcases.imp And.symm And.symm⟩
  split at hcompleted
  · next hrunning =>
      simp only [hconnected.1.1] at hcompleted
      cases hcompleted
      -- the answered health check was the only one
      obtain ⟨-, hone⟩ := h.healthy (hrecover ▸ hrunning)
      have hcount : a.callbacks.count .healthcheck =
          b.callbacks.count .healthcheck + 1 := by
        rw [hcallbacks, List.count_cons_self]
      have hno : b.timers.countP (·.2 = .assemblyHealthcheck) = 0 ∧
          b.callbacks.count .healthcheck = 0 := by
        simp only [healthchecks] at hone
        omega
      have hnone : ∀ handle, (handle, .assemblyHealthcheck) ∉ b.timers :=
        fun handle hmem => List.countP_eq_zero.mp hno.1 _ hmem (by simp)
      refine ⟨⟨hcommands.healthcheckTimerAdd hconnected hnone, Pipeline.of_zero ?_,
        fun _ => ⟨⟨t, ?_⟩, ?_⟩⟩, hidle, Or.inl ⟨by simp, ?_⟩⟩
      · simpa [Assembly.pipeline, healthcheckTimerAdd, modifyTrans, timerAdd,
          List.countP_append] using hzero
      · simpa [Connected, Live, healthcheckTimerAdd, modifyTrans, timerAdd]
          using hconnected
      · rw [healthchecks, callbacks_healthcheckTimerAdd, hno.2]
        simp [healthcheckTimerAdd, modifyTrans, timerAdd, List.countP_append, hno.1]
      · exact callbacks_healthcheckTimerAdd b t
  · next hdown =>
      cases hcompleted
      exact ⟨⟨hcommands, Pipeline.of_zero hzero, fun hr => absurd hr hdown⟩, hidle,
        Or.inl ⟨by simp, rfl⟩⟩

theorem exec_sound (h : a.Sound) {s : Nat} (hs : .assemblySshExec s ∈ a.jobs)
    (hexec : (a.jobDel (.assemblySshExec s)).exec s env = .ok (a', outputs)) :
    a'.Sound ∧ Effect a a' outputs := by
  have hmem := List.mem_of_mem_head? (h.commands.exec_queue hs).1
  have hconnected := h.commands.queue_connected hmem
  have hle := pipeline_jobDel_le a (.assemblySshExec s)
  have hzero := h.pipeline.connected hconnected
  rcases exec_eq_ok hexec with ⟨state, sshRc, -, rfl, rfl⟩ | ⟨-, rfl, rfl⟩ |
    ⟨sshRc, b, -, hcompleted, rfl⟩
  · have hcallbacks := callbacks_execAgain (a := a.jobDel (.assemblySshExec s)) s state
      sshRc
    refine ⟨⟨h.commands.execAgain hs _ _, Pipeline.of_zero ?_,
      h.healthy.congr rfl (fun _ => id) ?_⟩, Effect.kept (by simp) ?_⟩
    · rw [pipeline_execAgain]
      omega
    · rw [healthchecks, hcallbacks]
      rfl
    · rw [actions, hcallbacks]
      rfl
  · exact ⟨⟨h.commands.jobDel _, Pipeline.of_zero (by omega), h.healthy⟩,
      Effect.kept (by simp) rfl⟩
  · obtain ⟨hcommands, hidle, hnothing, hconnected', hcallbacks, htimers⟩ :=
      h.dequeue hs
    change ((a.jobDel (.assemblySshExec s)).sshOpDequeue s).completed
      (a.sshOps s).callback env sshRc = _ at hcompleted
    cases hcallback : (a.sshOps s).callback with
    | resourceAction o =>
        simp only [hcallback, completed] at hcompleted
        cases hcompleted
        rw [hcallback] at hcallbacks
        refine ⟨Sound.schedule ⟨hcommands, Pipeline.of_zero hnothing,
          h.healthy.congr rfl ?_ ?_⟩ hidle _, Effect.completed ?_⟩
        · intro t ht
          obtain rfl : t = (a.sshOps s).transport :=
            Option.some.inj (ht.1.1.symm.trans hconnected.1.1)
          exact hconnected'
        · simp [healthchecks, htimers, hcallbacks]
        · simp [actions, hcallbacks, SshCallback.op?]
    | healthcheck =>
        rw [hcallback] at hcallbacks hcompleted
        obtain ⟨hsound, hidle', ⟨hquiet, hkept⟩ | ⟨rfl, hnone⟩⟩ :=
          healthcheck_sound h hcommands hidle hnothing hconnected' rfl hcallbacks
            htimers hcompleted
        · refine ⟨hsound.schedule hidle' _, Effect.kept ?_ ?_⟩
          · intro x hx
            rw [hquiet x hx]
            trivial
          · simp [actions, hkept, hcallbacks, List.filterMap_cons, SshCallback.op?]
        · exact ⟨hsound.schedule hidle' _, Effect.restarted (by simp [actions, hnone])⟩

/-! ## Timeouts -/

theorem fail_empty (hcommands : a.Commands) {t : Nat} (hconnected : a.Connected t)
    (hzero : a.pipeline = 0) (hempty : a.callbacks = [])
    (h : a.recoverSet env.now .failed = (a', outputs)) :
    a'.Sound ∧ a'.actions = [] ∧
      ((∀ x ∈ outputs, x.Quiet) ∨ outputs = [.stateChanging, .restarted]) := by
  obtain ⟨hsound, -, hcases⟩ := hcommands.fail hconnected hzero env.now
  rw [h, hempty] at hcases
  rw [h] at hsound
  rcases hcases with ⟨hcallbacks, houtputs⟩ | ⟨hcallbacks, houtputs⟩
  · refine ⟨hsound, by simp [actions, hcallbacks], Or.inl fun x hx => ?_⟩
    rw [houtputs x hx]
    trivial
  · exact ⟨hsound, by simp [actions, hcallbacks], Or.inr houtputs⟩

theorem timeout_sound (h : a.Sound) {handle s : Nat}
    (hs : (handle, .sshTimeout s) ∈ a.timers)
    (htimeout : (a.timerDel handle).timeout s env = .ok (a', outputs)) :
    a'.Sound ∧ a'.actions = [] ∧
      ((∀ x ∈ outputs, x.Quiet) ∨ outputs = [.stateChanging, .restarted]) := by
  obtain ⟨-, t, hmem⟩ := h.commands.timeout_queued hs
  have hconnected := h.commands.queue_connected hmem
  have ht : ((a.timerDel handle).sshOps s).transport = t :=
    (h.commands.queue_op hmem).2
  obtain ⟨hcommands, -⟩ := (h.commands.timerDel handle).flush (t := t) hconnected.1
  have hconnected' : ((a.timerDel handle).flush t).Connected t :=
    Connected.flush (a := a.timerDel handle) hconnected
  have hempty : ((a.timerDel handle).flush t).callbacks = [] := by
    simp [callbacks_eq hconnected'.1.1]
  have hzero : ((a.timerDel handle).flush t).pipeline = 0 := by
    have hle := (pipeline_flush_le (a.timerDel handle) t).trans
      (pipeline_timerDel_le a handle)
    have hconn := h.pipeline.connected hconnected
    omega
  have hflush : (a.timerDel handle).sshTimeoutFlush s = (a.timerDel handle).flush t := by
    simp only [sshTimeoutFlush, ht, Assembly.flush]
  simp only [timeout, hflush] at htimeout
  split at htimeout
  · simp only [unhealthy, hconnected'.1.1, Except.ok.injEq] at htimeout
    exact fail_empty (hcommands.timerDel _) (t := t) hconnected'
      (Nat.le_zero.mp (hzero ▸ pipeline_timerDel_le _ _)) hempty htimeout
  · simp only [Except.ok.injEq] at htimeout
    exact fail_empty hcommands hconnected' hzero hempty htimeout

/-! ## The reactions -/

theorem reactJob_sound (h : a.Sound) {job : AssemblyJob} (hjob : job ∈ a.jobs)
    (hreact : (a.jobDel job).reactJob env job = .ok (a', outputs)) :
    a'.Sound ∧ Effect a a' outputs := by
  have hcommands := h.commands.jobDel job
  cases job with
  | myInstanceStateGet =>
      have hpending : a.pipeline ≠ 0 := fun h => (pipeline_eq_zero.mp h).1 hjob
      obtain ⟨hsound, hempty, hquiet⟩ := poll_sound hcommands
        (h.pipeline.jobDel_zero hjob (by simp)) (h.pipeline.polling (Or.inl hjob))
        (h.not_running hpending) hreact
      exact ⟨hsound, Effect.kept hquiet
        (by rw [h.actions_of_pending hpending, actions, hempty]; rfl)⟩
  | connectExecute =>
      have hpending : a.pipeline ≠ 0 := fun h => (pipeline_eq_zero.mp h).2.1 hjob
      obtain ⟨t, hlive⟩ := h.pipeline.connecting (Or.inl hjob)
      simp only [reactJob] at hreact
      split at hreact
      · next b hconnect =>
          cases hreact
          obtain ⟨hsound, hempty⟩ := connectExecute_sound hcommands
            (h.pipeline.jobDel_zero hjob (by simp)) (t := t) hlive
            (h.not_connected hpending t) (h.not_running hpending) hconnect
          exact ⟨hsound, Effect.kept (by simp)
            (by rw [h.actions_of_pending hpending, actions, hempty]; rfl)⟩
      · cases hreact
  | sshAssemblyConnect =>
      have hpending : a.pipeline ≠ 0 := fun h => (pipeline_eq_zero.mp h).2.2.1 hjob
      obtain ⟨t, hlive⟩ := h.pipeline.connecting (Or.inr hjob)
      obtain ⟨hsound, hempty, hquiet⟩ := handshake_sound hcommands
        (h.pipeline.jobDel_zero hjob (by simp)) (t := t) hlive
        (h.not_connected hpending t) (h.not_running hpending) hreact
      exact ⟨hsound, Effect.kept hquiet
        (by rw [h.actions_of_pending hpending, hempty])⟩
  | assemblySshExec s => exact exec_sound h hjob hreact

theorem reactTimer_sound (h : a.Sound) {handle : Nat} {timer : AssemblyTimer}
    (htimer : (handle, timer) ∈ a.timers)
    (hreact : (a.timerDel handle).reactTimer env timer = .ok (a', outputs)) :
    a'.Sound ∧
      (Effect a a' outputs ∨
        (∃ s, timer = .sshTimeout s) ∧ a'.actions = [] ∧ ∀ x ∈ outputs, x.Quiet) := by
  have hcommands := h.commands.timerDel handle
  cases timer with
  | myInstanceStateGet =>
      have hpending : a.pipeline ≠ 0 :=
        fun h => (pipeline_eq_zero.mp h).2.2.2 handle htimer
      obtain ⟨hsound, hempty, hquiet⟩ := poll_sound hcommands
        (h.pipeline.timerDel_zero htimer) (h.pipeline.polling (Or.inr ⟨handle, htimer⟩))
        (h.not_running hpending) hreact
      exact ⟨hsound, Or.inl (Effect.kept hquiet
        (by rw [h.actions_of_pending hpending, actions, hempty]; rfl))⟩
  | sshTimeout s =>
      obtain ⟨hsound, hempty, hquiet | rfl⟩ := timeout_sound h htimer hreact
      · exact ⟨hsound, Or.inr ⟨⟨s, rfl⟩, hempty, hquiet⟩⟩
      · exact ⟨hsound, Or.inl (Effect.restarted hempty)⟩
  | sshKeepaliveSend t =>
      cases hreact
      obtain ⟨hsound, -, hcallbacks⟩ := sshKeepaliveSend_sound h htimer
      exact ⟨hsound, Or.inl (Effect.kept (by simp) (by rw [actions, hcallbacks]; rfl))⟩
  | assemblyHealthcheck =>
      simp only [reactTimer] at hreact
      split at hreact
      · next b hcheck =>
          cases hreact
          obtain ⟨hsound, hactions⟩ := assemblyHealthcheck_sound h htimer hcheck
          exact ⟨hsound, Or.inl (Effect.kept (by simp) hactions)⟩
      · cases hreact

end Assembly

end PacemakerCloud

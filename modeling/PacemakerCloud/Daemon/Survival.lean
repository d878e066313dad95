import PacemakerCloud.Daemon.Drain

/-!
# What ends the daemon

The daemon dies in an assertion or by following a null pointer.  In every state of a run in which
the engine names the resources that it operates on, the events that do so are told apart by what
the outside world hands in: a reply to a state request that is no document or has no status, an
active instance without an address, an error of libssh2 once a channel is open, and an operation
for a node, a resource or a method that the daemon does not know.  The other calls of the cloud,
which ask for an image or an instance, are taken to return.
-/

namespace PacemakerCloud

open Foundation

/--
The reply is no document, or one without a status, or the instance is reported to run, but at no
address that is found.
-/
def StateReply.Fatal : StateReply → Prop
  | .deltacloud initialized state addresses =>
      initialized = true ∧ state = "RUNNING".toList ∧ addresses = none
  | .openstackv1 none => False
  | .openstackv1 (some none) => True
  | .openstackv1 (some (some root)) =>
      ∀ status, root.prop "status" = some status →
        status = activeStatus ∧ ¬∃ ip addr, ReachesIp root ip ∧ ip.prop "addr" = some addr

namespace StateReply

def Completes (reply : StateReply) : Prop :=
  ∃ call, instanceStateGet reply = .ok call ∧ call ≠ some (activeStatus, none)

theorem completes_of_active {root : Node} (h : root.prop "status" = some activeStatus) :
    (openstackv1 (some (some root))).Completes ↔
      ∃ addr, forSiblings visitAddresses root.children = .ok (some (some addr)) := by
  simp only [Completes, instanceStateGet, instanceStateGetCallback, h, if_true]
  rcases forSiblings visitAddresses root.children with fault | _ | _ | addr
  all_goals simp [bind, Except.bind, pure, Except.pure, CompletionCall.instanceState?]

theorem completes_of_inactive {root : Node} {status : CString}
    (h : root.prop "status" = some status) (hactive : status ≠ activeStatus) :
    (openstackv1 (some (some root))).Completes := by
  refine ⟨some (status, none), ?_, by simpa using hactive⟩
  simp only [instanceStateGet, instanceStateGetCallback, h, if_neg hactive]
  rfl

theorem completes_iff {reply : StateReply} : reply.Completes ↔ ¬reply.Fatal := by
  rcases reply with ⟨_ | _, state, addresses⟩ | _ | _ | root
  case deltacloud.false => simp [Completes, instanceStateGet, Fatal]
  case deltacloud.true =>
      have hpending : (some ("PENDING".toList, none) : Option (CString × Option CString)) ≠
          some (activeStatus, none) := by decide
      by_cases hrunning : state = "RUNNING".toList
      · rcases addresses with _ | _ | address
        · simp [Completes, instanceStateGet, hrunning, Fatal]
        · exact iff_of_true ⟨_, if_pos hrunning, hpending⟩ fun hfatal => by simpa using hfatal.2.2
        · exact iff_of_true ⟨_, if_pos hrunning, by simp⟩ fun hfatal => by simpa using hfatal.2.2
      · exact iff_of_true ⟨_, if_neg hrunning, hpending⟩ fun hfatal => hrunning hfatal.2.1
  case openstackv1.none => simp [Completes, instanceStateGet, Fatal]
  case openstackv1.some.none =>
      simp [Completes, instanceStateGet, instanceStateGetCallback, Fatal, bind, Except.bind]
  case openstackv1.some.some =>
      cases hstatus : root.prop "status" with
      | none =>
          simp [Completes, instanceStateGet, instanceStateGetCallback, Fatal, hstatus, bind,
            Except.bind]
      | some status =>
          by_cases hactive : status = activeStatus
          · subst hactive
            rw [completes_of_active hstatus]
            simp only [visitAddresses_found_iff, Fatal, hstatus, Option.some.injEq, forall_eq',
              true_and, not_not]
            exact exists_comm
          · refine iff_of_true (completes_of_inactive hstatus hactive) fun hfatal => ?_
            exact hactive (hfatal status hstatus).1

end StateReply

/-- `resource_execute_cb` has no answer to the operation, for a node in this state. -/
def PeOperation.Unusable (d : Deployable) (state : RecoverState) (op : PeOperation) : Prop :=
  d.assembly? op.hostname = none ∨
    (if state = .running then
      (∃ name, op.method = .other name) ∨
        (op.method = .stop ∨ op.method = .monitor ∧
          strstr op.rname op.hostname = true) ∧ ¬ d.Has op.target
    else op.UsesResource ocfUnknownError ∧ ¬ d.Has op.target)

def OpSpec.Unusable (d : Deployable) (state : RecoverState) (spec : OpSpec) : Prop :=
  d.assembly? spec.hostname = none ∨
    (if state = .running then
      (∃ name, spec.method = .other name) ∨
        (spec.method = .stop ∨ spec.method = .monitor ∧
          strstr spec.rname spec.hostname = true) ∧ ¬ d.Has spec.target
    else
      (strstr spec.rname spec.hostname = true ∨ spec.method.Tracked ∨
        spec.Recurs ocfUnknownError) ∧ ¬ d.Has spec.target)

/-- The first call that does not succeed fails, on a channel that is open. -/
def Env.Breaks (env : Env) (states : List SshExecState) : Prop :=
  ∃ done state rest, states = done ++ state :: rest ∧ (∀ x ∈ done, env.exec x = .ok) ∧
    env.exec state = .error ∧ state ≠ .channelOpen

namespace Assembly

variable {σ : Type}

def JobCrashes (a : Assembly σ) (env : Env) : AssemblyJob → Prop
  | .myInstanceStateGet => env.stateReply.Fatal
  | .connectExecute | .sshAssemblyConnect => False
  | .assemblySshExec s => env.Breaks (execStages (a.sshOps s).execState)

def TimerCrashes (env : Env) : AssemblyTimer → Prop
  | .myInstanceStateGet => env.stateReply.Fatal
  | .sshTimeout _ | .sshKeepaliveSend _ | .assemblyHealthcheck => False

variable {a : Assembly σ} {s t : Nat} {env : Env} [Stopwatch σ]

theorem poll_ok_iff : (∃ r, a.poll env = .ok r) ↔ ¬ env.stateReply.Fatal := by
  rw [← StateReply.completes_iff]
  unfold poll StateReply.Completes
  rcases instanceStateGet env.stateReply with fault | _ | ⟨status, address⟩
  · simp
  · simp
  · by_cases hactive : status = activeStatus
    · subst hactive
      cases address <;> simp [activeStatus]
    · exact iff_of_true ⟨_, if_neg hactive⟩ ⟨_, rfl, by simpa using fun h => absurd h hactive⟩

omit [Stopwatch σ] in
theorem connectOutcome_assertion {state : SshState} (h : connectOutcome env state = .assertion) :
    state = .sessionConnecting := by
  have hauth : connectUserauth env ≠ .assertion := by
    unfold connectUserauth
    cases env.userauth <;> simp
  have hstartup : connectStartup env ≠ .assertion := by
    unfold connectStartup
    cases env.sessionStartup <;> simp [hauth]
  cases state <;> simp only [connectOutcome, hauth, hstartup, reduceCtorEq] at h ⊢
  split at h
  · exact hstartup h
  · cases h

theorem handshake_ok (hlive : a.Live t) (hconnecting : (a.trans t).sshState ≠
    .sessionConnecting) (hnot : ¬ a.Connected t) : ∃ r, a.handshake env = .ok r := by
  simp only [handshake, hlive.1]
  cases hout : connectOutcome env (a.trans t).sshState with
  | again state => exact ⟨_, rfl⟩
  | failed => exact ⟨_, rfl⟩
  | assertion => exact absurd (connectOutcome_assertion hout) hconnecting
  | keepalive =>
      have hup : ((a.sshKeepaliveSend t).modifyTrans t
          ({ · with sshState := .sessionConnected })).Connected t := by
        simpa [Connected, Live, sshKeepaliveSend, modifyTrans, timerAdd] using hlive
      obtain ⟨a', outputs, hok, -⟩ := up_ok hup env
      exact ⟨_, hok⟩
  | connected => exact absurd ⟨hlive, connectOutcome_connected hout⟩ hnot

omit [Stopwatch σ] in
theorem runStages_assertion_iff {states : List SshExecState} (sshRc : Int) :
    runStages env states sshRc = .assertion ↔ env.Breaks states := by
  induction states generalizing sshRc with
  | nil => simp [runStages, Env.Breaks]
  | cons first states ih =>
      constructor
      · intro h
        simp only [runStages] at h
        cases hfirst : env.exec first with
        | eagain => simp [hfirst] at h
        | error =>
            simp only [hfirst] at h
            split at h
            · cases h
            · next hopen => exact ⟨[], first, states, rfl, by simp, hfirst, hopen⟩
        | ok =>
            simp only [hfirst] at h
            obtain ⟨done, state, rest, rfl, hdone, herror, hopen⟩ := (ih _).mp h
            refine ⟨first :: done, state, rest, rfl, fun x hx => ?_, herror, hopen⟩
            rcases List.mem_cons.mp hx with rfl | hx
            · exact hfirst
            · exact hdone x hx
      · rintro ⟨done, state, rest, heq, hdone, herror, hopen⟩
        cases done with
        | nil =>
            obtain ⟨rfl, rfl⟩ := List.cons.inj heq
            simp [runStages, herror, hopen]
        | cons first' done =>
            obtain ⟨rfl, rfl⟩ := List.cons.inj heq
            simp only [runStages, hdone _ List.mem_cons_self]
            exact (ih _).mpr ⟨done, state, rest, rfl,
              fun x hx => hdone x (List.mem_cons_of_mem _ hx), herror, hopen⟩

theorem unhealthy_ok (hconnected : a.Connected t) : ∃ r, a.unhealthy env = .ok r :=
  ⟨_, by simp only [unhealthy, hconnected.1.1]; rfl⟩

theorem completed_ok (env : Env) (hconnected : a.Connected t) (callback : SshCallback)
    (sshRc : Int) :
    ∃ r, a.completed callback env sshRc = .ok r := by
  cases callback with
  | resourceAction o => exact ⟨_, rfl⟩
  | healthcheck =>
      simp only [completed, hconnected.1.1]
      split
      · exact unhealthy_ok hconnected
      · split <;> exact ⟨_, rfl⟩

theorem exec_ok_iff (hconnected : a.Connected (a.sshOps s).transport) :
    (∃ r, a.exec s env = .ok r) ↔ ¬ env.Breaks (execStages (a.sshOps s).execState) := by
  rw [← runStages_assertion_iff (a.sshOps s).sshRc, ← execOutcome]
  have hdequeue := (Keeps.sshOpDequeue a s).connected.mpr hconnected
  simp only [exec, hconnected.2, ne_eq, not_true, if_false]
  cases hout : execOutcome env (a.sshOps s) with
  | again state sshRc => simp
  | openFailed => simp
  | assertion => simp
  | complete sshRc =>
      obtain ⟨r, hr⟩ := completed_ok env hdequeue (a.sshOps s).callback sshRc
      simp [hr]

theorem reactJob_ok_iff (hsound : a.Sound) (hdialing : a.Dialing) {job : AssemblyJob}
    (hjob : job ∈ a.jobs) :
    (∃ r, (a.jobDel job).reactJob env job = .ok r) ↔ ¬ a.JobCrashes env job := by
  cases job with
  | myInstanceStateGet => exact poll_ok_iff
  | connectExecute =>
      obtain ⟨t, hlive⟩ := hsound.pipeline.connecting (Or.inl hjob)
      have hok : ∃ b, (a.jobDel .connectExecute).connectExecute env = .ok b := by
        simp only [connectExecute, show (a.jobDel .connectExecute).transport = _ from hlive.1]
        split <;> exact ⟨_, rfl⟩
      obtain ⟨b, hb⟩ := hok
      simp [reactJob, hb, JobCrashes]
  | sshAssemblyConnect =>
      have hpending : a.pipeline ≠ 0 := fun h => (pipeline_eq_zero.mp h).2.2.1 hjob
      obtain ⟨t, hlive⟩ := hsound.pipeline.connecting (Or.inr hjob)
      refine iff_of_true ?_ not_false
      exact handshake_ok (a := a.jobDel _) (t := t) hlive
        (mt (hdialing.connecting t hlive).mp (hsound.pipeline.not_connecting hjob))
        (hsound.not_connected hpending t)
  | assemblySshExec s =>
      have hmem := List.mem_of_mem_head? (hsound.commands.exec_queue hjob).1
      have hconnected := hsound.commands.queue_connected hmem
      exact exec_ok_iff (a := a.jobDel _) hconnected

theorem reactTimer_ok_iff (hsound : a.Sound) {handle : Nat} {timer : AssemblyTimer}
    (htimer : (handle, timer) ∈ a.timers) :
    (∃ r, (a.timerDel handle).reactTimer env timer = .ok r) ↔ ¬ TimerCrashes env timer := by
  cases timer with
  | myInstanceStateGet => exact poll_ok_iff
  | sshTimeout s =>
      obtain ⟨-, t, hmem⟩ := hsound.commands.timeout_queued htimer
      have hconnected := hsound.commands.queue_connected hmem
      have ht : ((a.timerDel handle).sshOps s).transport = t := (hsound.commands.queue_op hmem).2
      have hflush : ((a.timerDel handle).sshTimeoutFlush s).Connected t := by
        simp only [sshTimeoutFlush, ht]
        exact Connected.flush (a := a.timerDel handle) hconnected
      refine iff_of_true ?_ not_false
      simp only [reactTimer, timeout]
      split
      · exact unhealthy_ok hflush
      · exact ⟨_, rfl⟩
  | sshKeepaliveSend t => exact iff_of_true ⟨_, rfl⟩ not_false
  | assemblyHealthcheck =>
      obtain ⟨t, hconnected, -⟩ := hsound.commands.health_connected htimer
      have hconnected' : (a.timerDel handle).Connected t := hconnected
      refine iff_of_true ?_ not_false
      simp only [reactTimer, assemblyHealthcheck, transportExecute_eq hconnected']
      exact ⟨_, rfl⟩

end Assembly

theorem unusable_execRscAction {σ : Type} (c : Cape σ) (graph : Nat) (spec : OpSpec)
    (d : Deployable) (state : RecoverState) :
    ((World.execRscAction c graph spec).ops c.opCount).Unusable d state ↔
      spec.Unusable d state := by
  simp [World.execRscAction, PeOperation.Unusable, OpSpec.Unusable, PeOperation.UsesResource,
    PeOperation.Recurs, PeOperation.Unexpected, OpSpec.Recurs, PeOperation.target,
    OpSpec.target]

/-! ## Completing an operation -/

namespace Cape

variable {σ : Type} [Stopwatch σ] {d : Deployable} {env : Env} {c : Cape σ} {o : Nat} {ec : Int}

theorem resourceStateOf_eq_none_iff {op : PeOperation} :
    resourceStateOf op ec = none ↔ ¬ op.method.Tracked := by
  refine ⟨fun h htracked => ?_, resourceStateOf_eq_none⟩
  rcases htracked with hmethod | hmethod | hmethod <;>
    simp only [resourceStateOf, hmethod] at h <;> split_ifs at h

/-! Without its resource an operation is completed only if nothing uses the resource. -/

omit [Stopwatch σ] in
theorem opHistoryRecord_none (c : Cape σ) (env : Env) (o : Nat) (ec : Int) :
    c.opHistoryRecord env none o ec =
      if strstr (c.ops o).rname (c.ops o).hostname then .error .nullResource else .ok c := by
  unfold opHistoryRecord
  split <;> rfl

theorem resourceStateSet_none (c : Cape σ) (env : Env) (op : PeOperation) (ec : Int) :
    c.resourceStateSet env none op ec =
      if op.method.Tracked then .error .nullResource else .ok c := by
  unfold resourceStateSet
  cases hstate : resourceStateOf op ec with
  | none => rw [if_neg (resourceStateOf_eq_none_iff.mp hstate)]
  | some state =>
      have htracked : op.method.Tracked := by
        by_contra hnot
        rw [resourceStateOf_eq_none hnot] at hstate
        cases hstate
      rw [if_pos htracked]
      rfl

omit [Stopwatch σ] in
theorem resourceActionRelease_none (c : Cape σ) (o : Nat) (ec : Int) :
    c.resourceActionRelease none o ec =
      if (c.ops o).Recurs ec then .error .nullResource else .ok (c.peResourceUnref o) := by
  unfold resourceActionRelease
  by_cases hinterval : 0 < (c.ops o).interval <;>
    by_cases hunexpected : (c.ops o).Unexpected ec <;>
    simp [PeOperation.Recurs, hinterval, hunexpected, foundResource, pure, Except.pure, bind,
      Except.bind]

theorem resourceActionCompleted_ok_iff {node : AssemblyNode}
    (hnode : d.assembly? (c.ops o).hostname = some node) :
    (∃ c', c.resourceActionCompleted d env o ec = .ok c') ↔
      ((c.ops o).UsesResource ec → d.Has (c.ops o).target) := by
  by_cases hhas : d.Has (c.ops o).target
  · exact iff_of_true (resourceActionCompleted_of_has hhas env ec) fun _ => hhas
  have hr : d.resource? (c.ops o).hostname (c.ops o).rname = none :=
    Option.not_isSome_iff_eq_none.mp hhas
  have hnames : ((c.timesExecutedAdd o).ops o).rname = (c.ops o).rname ∧
      ((c.timesExecutedAdd o).ops o).hostname = (c.ops o).hostname := by
    simp [timesExecutedAdd, modifyOp]
  have hrecurs : ((if (c.ops o).Unexpected ec then
      ((c.timesExecutedAdd o).confirmFirst o ec).scheduleProcessing
      else (c.timesExecutedAdd o).confirmFirst o ec).ops o).Recurs ec ↔ (c.ops o).Recurs ec := by
    rw [← execute_recurs c o ec]
    split <;> rfl
  rw [imp_iff_not hhas, PeOperation.UsesResource]
  simp only [resourceActionCompleted, hnode, hr, opHistoryRecord_none, hnames.1, hnames.2]
  by_cases hname : strstr (c.ops o).rname (c.ops o).hostname = true
  · simp [hname, bind, Except.bind]
  simp only [if_neg hname, ok_bind, resourceStateSet_none]
  by_cases htracked : (c.ops o).method.Tracked
  · simp [htracked, bind, Except.bind]
  simp only [if_neg htracked, ok_bind, resourceActionRelease_none, hrecurs]
  split
  · next h => simp [h]
  · next h => simp [hname, htracked, h]

theorem foldlM_receive_ok {a : CString} {outputs : List Output} (h : ∀ x ∈ outputs, x.Quiet)
    (c : Cape σ) : ∃ c', outputs.foldlM (receive d a env) c = .ok c' := by
  induction outputs generalizing c with
  | nil => exact ⟨c, rfl⟩
  | cons x outputs ih =>
      obtain ⟨mid, hmid⟩ : ∃ mid, c.receive d a env x = .ok mid := by
        cases x with
        | stateChanging | address => exact ⟨_, rfl⟩
        | restarted | actionCompleted => exact (h _ List.mem_cons_self).elim
      obtain ⟨c', hc'⟩ := ih (fun y hy => h y (List.mem_cons_of_mem x hy)) mid
      exact ⟨c', by rw [List.foldlM_cons, hmid]; exact hc'⟩

end Cape

namespace World

variable {σ : Type} [Stopwatch σ] {d : Deployable} {w : World σ} {a : CString} {env : Env}

/-- The event is pending, and the daemon does not survive it. -/
def Crashes (d : Deployable) (w : World σ) : Event → Prop
  | .job a job env =>
      w.cape.pe.inRunGraph = none ∧ job ∈ (w.assemblies a).jobs ∧
        (w.assemblies a).JobCrashes env job
  | .timer a handle env =>
      w.cape.pe.inRunGraph = none ∧
        ∃ timer, (handle, timer) ∈ (w.assemblies a).timers ∧ Assembly.TimerCrashes env timer
  | .fire (.rsc spec) _ =>
      w.cape.pe.inRunGraph ≠ none ∧
        spec.Unusable d (w.assemblies spec.hostname).recover.state
  | .fire .confirmed _ | .monitorTimer _ _ | .processJob | .processNextJob _
  | .runGraphReturn _ => False

omit [Stopwatch σ] in
theorem ofFault_faults {α : Type} {x : Except Fault α} :
    (∃ fault, ofFault x = .error (.fault fault)) ↔ ¬ ∃ y, x = .ok y := by
  cases x <;> simp [ofFault]

theorem perform_ok_iff {r : Except Fault (Assembly σ × List Output)} (h : w.ledger.Found d)
    (heffect : ∀ asm outputs, r = .ok (asm, outputs) →
      (w.assemblies a).Effect asm outputs ∨ ∀ x ∈ outputs, x.Quiet) :
    (∃ w', w.perform d a env r = .ok w') ↔ ∃ y, r = .ok y := by
  cases r with
  | error fault => simp [perform]
  | ok result =>
      obtain ⟨asm, outputs⟩ := result
      refine iff_of_true ?_ ⟨_, rfl⟩
      have hcalls : ∃ c', outputs.foldlM (Cape.receive d a env) w.cape = .ok c' := by
        rcases heffect asm outputs rfl with heffect | hkept
        · cases heffect with
          | kept hkept => exact Cape.foldlM_receive_ok hkept w.cape
          | @completed o sshRc hactions =>
              have hhas := h o (Or.inl ⟨a, by simp [ledger, World.actions, hactions]⟩)
              obtain ⟨c, hc⟩ := Cape.resourceActionCompletion_of_has hhas env sshRc
              replace hc : w.cape.resourceActionCompletion d env o sshRc = .ok c := hc
              exact ⟨c, by simpa [Cape.receive] using hc⟩
          | restarted => exact ⟨_, rfl⟩
        · exact Cape.foldlM_receive_ok hkept w.cape
      obtain ⟨c', hc'⟩ := hcalls
      exact ⟨⟨Function.update w.assemblies a asm, c'⟩, perform_eq_ok.mpr ⟨rfl, hc'⟩⟩

/-! ## Executing an operation -/

omit [Stopwatch σ] in
theorem transportResourceAction_answered {o : Nat} (hsound : (w.assemblies a).Sound)
    (hrunning : (w.assemblies a).recover.state = .running) :
    ∃ w', w.transportResourceAction a o = .ok w' := by
  simp only [transportResourceAction, hsound.transportExecute hrunning]
  exact ⟨_, rfl⟩

theorem resourceMonitorExecute_answered {o : Nat} (env : Env)
    (hnode : (d.assembly? (w.cape.ops o).hostname).isSome)
    (hsound : (w.assemblies (w.cape.ops o).hostname).Sound)
    (hhas : (w.assemblies (w.cape.ops o).hostname).recover.state ≠ .running →
      d.Has (w.cape.ops o).target) :
    ∃ w', ssh.resourceMonitorExecute d w env o = .ok w' := by
  simp only [Transport.resourceMonitorExecute]
  split
  · next hnone => exact absurd hnode (Option.not_isSome_iff_eq_none.mpr hnone)
  · split
    · next hstate =>
        obtain ⟨c, hc⟩ := Cape.resourceActionCompleted_of_has (hhas hstate) env ocfUnknownError
        exact ⟨{ w with cape := c }, by simp [hc, ok_bind, pure, Except.pure, modifyCape]⟩
    · next hrunning => exact transportResourceAction_answered hsound (not_not.mp hrunning)

theorem recurringMonitorStart_answered {o : Nat} {r : ResourceId}
    (hnode : (d.assembly? (w.cape.ops o).hostname).isSome)
    (hsound : (w.assemblies (w.cape.ops o).hostname).Sound)
    (hrunning : (w.assemblies (w.cape.ops o).hostname).recover.state = .running) :
    ∃ w', ssh.recurringMonitorStart d w env r o = .ok w' := by
  simp only [Transport.recurringMonitorStart]
  split
  · exact ⟨_, rfl⟩
  · have hhost : ((((w.cape.modifyResource r ({ · with stopped := false })).peResourceRef
        o).modifyResource r ({ · with monitorOp := some o })).ops o).hostname =
        (w.cape.ops o).hostname := by
      simp [Cape.modifyResource, Cape.peResourceRef, Cape.modifyOp]
    refine resourceMonitorExecute_answered env ?_ ?_ fun hstate => absurd ?_ hstate
    · simpa only [ssh_modifyCape, modifyCape, hhost] using hnode
    · simpa only [ssh_modifyCape, modifyCape, hhost] using hsound
    · simpa only [ssh_modifyCape, modifyCape, hhost] using hrunning

theorem resourceExecuteOffline_ok_iff {o : Nat} :
    (∃ w', ssh.resourceExecuteOffline d w env o = .ok w') ↔
      ∃ c, w.cape.resourceActionCompleted d env o ocfUnknownError = .ok c := by
  constructor
  · rintro ⟨w', hok⟩
    obtain ⟨c, hc, -⟩ := bind_eq_ok.mp hok
    exact ⟨c, hc⟩
  · rintro ⟨c, hc⟩
    simp only [Transport.resourceExecuteOffline, ssh_cape, ssh_modifyCape, hc, ok_bind]
    exact ⟨_, rfl⟩

theorem resourceExecuteCb_ok_iff {o : Nat} (env : Env)
    (hsound : (w.assemblies (w.cape.ops o).hostname).Sound) :
    (∃ w', ssh.resourceExecuteCb d w env o = .ok w') ↔
      ¬ (w.cape.ops o).Unusable d (w.assemblies (w.cape.ops o).hostname).recover.state := by
  cases hnode : d.assembly? (w.cape.ops o).hostname with
  | none => simp [Transport.resourceExecuteCb, PeOperation.Unusable, hnode]
  | some node =>
      simp only [Transport.resourceExecuteCb, ssh_cape, ssh_recover, ssh_modifyCape,
        ssh_resourceAction, PeOperation.Unusable, hnode]
      by_cases hrunning : (w.assemblies (w.cape.ops o).hostname).recover.state = .running
      case neg =>
        simp only [hrunning, ne_eq, not_false_eq_true, if_true, if_false, reduceCtorEq, false_or]
        rw [resourceExecuteOffline_ok_iff, Cape.resourceActionCompleted_ok_iff hnode]
        exact Iff.symm not_and_not_right
      simp only [hrunning, ne_eq, not_true, if_true, if_false, reduceCtorEq, false_or]
      have hfound : d.Has (w.cape.ops o).target ↔
          ∃ r, d.resource? (w.cape.ops o).hostname (w.cape.ops o).rname = some r :=
        Option.isSome_iff_exists
      cases hmethod : (w.cape.ops o).method with
      | monitor =>
          by_cases hname : strstr (w.cape.ops o).rname (w.cape.ops o).hostname = true
          · cases hr : d.resource? (w.cape.ops o).hostname (w.cape.ops o).rname with
            | none => simp [hname, hfound, hr]
            | some r =>
                simp only [hname, if_true, hfound, hr]
                refine iff_of_true ?_ (by simp)
                by_cases hinterval : 0 < (w.cape.ops o).interval
                · simp only [hinterval, if_true]
                  exact recurringMonitorStart_answered
                    (by simp [modifyCape, Cape.modifyOp, hnode])
                    (by simpa [modifyCape, Cape.modifyOp] using hsound)
                    (by simpa [modifyCape, Cape.modifyOp] using hrunning)
                · simp only [hinterval, if_false]
                  refine resourceMonitorExecute_answered env
                    (by simp [modifyCape, Cape.modifyOp, hnode])
                    (by simpa [modifyCape, Cape.modifyOp] using hsound)
                    fun hstate => absurd ?_ hstate
                  simpa [modifyCape, Cape.modifyOp] using hrunning
          · simp [hname]
      | start =>
          refine iff_of_true ?_ (by simp)
          exact transportResourceAction_answered hsound hrunning
      | stop =>
          cases hr : d.resource? (w.cape.ops o).hostname (w.cape.ops o).rname with
          | none => simp [hfound, hr]
          | some r =>
              refine iff_of_true ?_ (by simp [hfound, hr])
              obtain ⟨w', hw'⟩ := transportResourceAction_answered (o := o)
                (w := (w.modifyCape (·.modifyOp o ({ · with resource := some r }))).modifyCape
                  (·.stopMonitor r)) hsound hrunning
              exact ⟨ssh.stopProcessed w' (some r), by simp only [hw', ok_bind]; rfl⟩
      | delete => simp
      | other name => simp

/-! ## The events that end the daemon -/

theorem Serviceable.dispatch_timer_crashes_iff (h : w.Serviceable d)
    (hgraph : w.cape.pe.inRunGraph = none) (a : CString) (handle : Nat) (env : Env) :
    (∃ fault, w.dispatch d (.timer a handle env) = .error (.fault fault)) ↔
      w.Crashes d (.timer a handle env) := by
  cases hfind : (w.assemblies a).timers.find? (·.1 = handle) with
  | none =>
      have hnone : ∀ timer, (handle, timer) ∉ (w.assemblies a).timers := fun timer hmem =>
        absurd rfl (of_decide_eq_false (Bool.eq_false_iff.mpr
          (List.find?_eq_none.mp hfind _ hmem)))
      simp [dispatch, hfind, Crashes, hnone]
  | some x =>
      obtain ⟨handle', timer⟩ := x
      obtain rfl : handle' = handle := by simpa using List.find?_some hfind
      have hmem := List.mem_of_find?_eq_some hfind
      have honly : (∃ timer', (handle', timer') ∈ (w.assemblies a).timers ∧
          Assembly.TimerCrashes env timer') ↔ Assembly.TimerCrashes env timer := by
        constructor
        · rintro ⟨timer', hmem', hcrashes⟩
          rwa [(h.sound a).commands.timer_unique hmem hmem']
        · exact fun hcrashes => ⟨timer, hmem, hcrashes⟩
      simp only [dispatch, hfind, Crashes, hgraph, true_and, honly]
      rw [ofFault_faults, dispatchTimer_eq (d := d), perform_modifyAssembly]
      simp only [modifyAssembly, Function.update_self]
      rw [perform_ok_iff h.found fun asm outputs hreact =>
          (Assembly.reactTimer_sound (h.sound a) hmem hreact).2.imp_right (·.2.2),
        Assembly.reactTimer_ok_iff (h.sound a) hmem, not_not]

theorem Serviceable.dispatch_crashes_iff (h : w.Serviceable d)
    (hgraph : w.cape.pe.inRunGraph = none) (e : Event) :
    (∃ fault, w.dispatch d e = .error (.fault fault)) ↔ w.Crashes d e := by
  cases e with
  | job a job env =>
      by_cases hjob : job ∈ (w.assemblies a).jobs
      · simp only [dispatch, Crashes, hgraph, hjob, true_and, if_true]
        rw [ofFault_faults, dispatchJob_eq, perform_modifyAssembly]
        simp only [modifyAssembly, Function.update_self]
        rw [perform_ok_iff h.found fun asm outputs hreact =>
            Or.inl (Assembly.reactJob_sound (h.sound a) hjob hreact).2,
          Assembly.reactJob_ok_iff (h.sound a) (h.dialing a) hjob, not_not]
      · simp [dispatch, Crashes, hjob]
  | timer a handle env => exact h.dispatch_timer_crashes_iff hgraph a handle env
  | monitorTimer handle env =>
      cases hfind : w.cape.monitorTimers.find? (·.1 = handle) with
      | none => simp [dispatch, Transport.dispatch, hfind, Crashes]
      | some x =>
          obtain ⟨handle', o⟩ := x
          have hmem := List.mem_of_find?_eq_some hfind
          have hhas : d.Has (w.cape.ops o).target := h.found o (Or.inr ⟨_, hmem, rfl⟩)
          obtain ⟨w', hw'⟩ := resourceMonitorExecute_answered (d := d) (o := o)
            (w := w.modifyCape (·.timerDel handle)) env hhas.assembly? (h.sound _) fun _ => hhas
          simp [dispatch, Transport.dispatch, hfind, Crashes, hw', ofFault]
  | processJob =>
      simp only [dispatch, Transport.dispatch, Crashes, iff_false]
      split <;> simp
  | processNextJob graph =>
      simp only [dispatch, Transport.dispatch, Crashes, iff_false]
      split <;> simp
  | fire action env => cases action <;> simp [dispatch, Crashes, hgraph]
  | runGraphReturn status => simp [dispatch, Crashes]

theorem Serviceable.dispatchGraph_crashes_iff (h : w.Serviceable d) {graph : Nat}
    (hgraph : w.cape.pe.inRunGraph = some graph) (e : Event) :
    (∃ fault, w.dispatchGraph d graph e = .error (.fault fault)) ↔ w.Crashes d e := by
  cases e with
  | fire action env =>
      cases action with
      | confirmed => simp [dispatchGraph, Transport.dispatchGraph, Crashes]
      | rsc spec =>
          have hhost : ((execRscAction w.cape graph spec).ops w.cape.opCount).hostname =
              spec.hostname := by simp [execRscAction]
          have hcb := resourceExecuteCb_ok_iff (d := d) (o := w.cape.opCount)
            (w := w.modifyCape (execRscAction · graph spec)) env (h.sound _)
          simp only [modifyCape, hhost, unusable_execRscAction] at hcb
          simp only [dispatchGraph, Transport.dispatchGraph, ssh_cape, ssh_modifyCape, Crashes,
            hgraph, ne_eq, reduceCtorEq, not_false_eq_true, true_and]
          rw [ofFault_faults, modifyCape, hcb, not_not]
  | runGraphReturn status =>
      simp only [dispatchGraph, Transport.dispatchGraph, Crashes, iff_false]
      split <;> simp
  | job | timer | monitorTimer | processJob | processNextJob =>
      simp [dispatchGraph, Crashes, hgraph]

end World

end PacemakerCloud

import PacemakerCloud.Daemon.Transition

/-!
# Recovery of the assemblies

In every reachable state an assembly has at most one pending recovery step, and a
running assembly is connected with one health check outstanding.  That a step is
pending at all while the assembly is down depends on the answers it gets: a state
request that is never answered, or a session that cannot be started, ends the
recovery.
-/

namespace PacemakerCloud

open Foundation

/-- Every failure of the record is answered by a restart. -/
def Recover.EscalationDisabled {σ : Type} (r : Recover σ) : Prop :=
  ¬ (0 < r.numFailures ∧ 0 < r.failurePeriod)

instance {σ : Type} (r : Recover σ) : Decidable r.EscalationDisabled :=
  inferInstanceAs (Decidable (¬ _))

namespace Assembly

variable {σ : Type} {a a' : Assembly σ} {env : Env} {outputs : List Output}

/-- While the assembly is down, a step that continues its recovery is pending. -/
structure Recovering (a : Assembly σ) : Prop where
  disabled : a.recover.EscalationDisabled
  pending : a.recover.state ≠ .running → a.pipeline ≠ 0

theorem Recovering.of_pending (hdisabled : a.recover.EscalationDisabled)
    (hpending : a.pipeline ≠ 0) : a.Recovering :=
  ⟨hdisabled, fun _ => hpending⟩

theorem Recovering.of_running (hdisabled : a.recover.EscalationDisabled)
    (hrunning : a.recover.state = .running) : a.Recovering :=
  ⟨hdisabled, fun hdown => absurd hrunning hdown⟩

theorem Recovering.congr (h : a.Recovering) (hrecover : a'.recover = a.recover)
    (hpipeline : a'.pipeline = a.pipeline) : a'.Recovering :=
  ⟨hrecover ▸ h.disabled, fun hdown => by
    rw [hpipeline]
    exact h.pending (hrecover ▸ hdown)⟩

theorem Recovering.running (h : a.Recovering) (hsound : a.Sound) {t : Nat}
    (hconnected : a.Connected t) : a.recover.state = .running := by
  by_contra hdown
  exact h.pending hdown (hsound.pipeline.connected hconnected)

theorem pipeline_jobAdd_ne_zero (a : Assembly σ) {job : AssemblyJob}
    (hjob : job = .myInstanceStateGet ∨ job = .connectExecute ∨
      job = .sshAssemblyConnect) : (a.jobAdd job).pipeline ≠ 0 := by
  rw [Ne, pipeline_eq_zero]
  rintro ⟨hpoll, hconnect, hshake, -⟩
  rcases hjob with rfl | rfl | rfl
  · exact hpoll (List.mem_append_right _ List.mem_cons_self)
  · exact hconnect (List.mem_append_right _ List.mem_cons_self)
  · exact hshake (List.mem_append_right _ List.mem_cons_self)

theorem transportExecute_recover {callback : SshCallback} {command : CString}
    (h : a.transportExecute callback command = .ok a') : a'.recover = a.recover := by
  unfold transportExecute at h
  split at h
  · cases h
  · split at h
    · cases h
      rfl
    · cases h
      simp only [modifySshOp, timerAdd]
      split
      · rfl
      · simp only [transportSchedule_recover]
        rfl

theorem assemblyHealthcheck_recover (h : a.assemblyHealthcheck = .ok a') :
    a'.recover = a.recover :=
  transportExecute_recover h

theorem connectExecute_recovering (hdisabled : a.recover.EscalationDisabled)
    (h : a.connectExecute env = .ok a') : a'.Recovering := by
  unfold connectExecute at h
  split at h
  · cases h
  · split at h <;> cases h <;>
      exact .of_pending hdisabled (pipeline_jobAdd_ne_zero _ (by simp))

variable [Stopwatch σ]

theorem recoverSet_disabled (hdisabled : a.recover.EscalationDisabled) (now : Nat)
    (state : RecoverState) :
    (a.recoverSet now state).1.recover.EscalationDisabled := by
  obtain ⟨r, -, hnum, hperiod, ⟨outs, heq, -, -⟩ | ⟨-, -, heq⟩⟩ :=
    a.recoverSet_cases now state
  all_goals
    rw [heq]
    simpa [Recover.EscalationDisabled, hnum, hperiod] using hdisabled

theorem fail_recovering (hdisabled : a.recover.EscalationDisabled)
    (hstate : a.recover.state ≠ .failed) (now : Nat) :
    (a.recoverSet now .failed).1.Recovering := by
  refine .of_pending (recoverSet_disabled hdisabled now _) ?_
  obtain ⟨r, -, -, -, ⟨outs, -, -, hfailed⟩ | ⟨-, -, heq⟩⟩ :=
    a.recoverSet_cases now .failed
  · exact absurd (hfailed rfl) (not_or.mpr ⟨hstate, hdisabled⟩)
  · rw [heq]
    exact pipeline_jobAdd_ne_zero _ (by simp)

theorem poll_recovering (hdisabled : a.recover.EscalationDisabled)
    (hanswer : instanceStateGet env.stateReply ≠ .ok none)
    (h : a.poll env = .ok (a', outputs)) : a'.Recovering := by
  cases pollStep_of_poll h with
  | unanswered hnone => exact absurd hnone hanswer
  | active => exact .of_pending hdisabled (pipeline_jobAdd_ne_zero _ (by simp))
  | pending =>
      refine .of_pending (recoverSet_disabled hdisabled _ _) ?_
      rw [Ne, pipeline_eq_zero]
      rintro ⟨-, -, -, htimer⟩
      exact htimer _ (List.mem_append_right _ List.mem_cons_self)

theorem up_recovering (h : a.up env = .ok (a', outputs))
    (hdisabled : a.recover.EscalationDisabled) : a'.Recovering := by
  simp only [up] at h
  split at h
  · next b hcheck =>
      cases h
      have hrecover := assemblyHealthcheck_recover hcheck
      refine .of_running ?_ ?_
      · rw [hrecover]
        exact recoverSet_disabled hdisabled _ _
      · rw [hrecover, recoverSet_state]
  · cases h

theorem handshake_recovering (hdisabled : a.recover.EscalationDisabled)
    (hstartup : ∀ t, a.transport = some t →
      connectOutcome env (a.trans t).sshState ≠ .failed)
    (h : a.handshake env = .ok (a', outputs)) : a'.Recovering := by
  unfold handshake at h
  cases ht : a.transport with
  | none => simp [ht] at h
  | some t =>
      simp only [ht] at h
      cases hout : connectOutcome env (a.trans t).sshState with
      | again state =>
          simp only [hout] at h
          cases h
          exact .of_pending hdisabled (pipeline_jobAdd_ne_zero _ (by simp))
      | failed => exact absurd hout (hstartup t ht)
      | assertion => simp [hout] at h
      | keepalive =>
          simp only [hout] at h
          exact up_recovering h hdisabled
      | connected =>
          simp only [hout] at h
          exact up_recovering h hdisabled

theorem unhealthy_recovering (hdisabled : a.recover.EscalationDisabled)
    (hstate : a.recover.state ≠ .failed) (h : a.unhealthy env = .ok (a', outputs)) :
    a'.Recovering := by
  unfold unhealthy at h
  split at h
  · cases h
  · next t ht =>
      simp only [Except.ok.injEq] at h
      have hfail := fail_recovering (a := a.transportFailed t) hdisabled hstate env.now
      rwa [h] at hfail

theorem completed_recovering {callback : SshCallback} {sshRc : Int}
    (h : a.completed callback env sshRc = .ok (a', outputs))
    (hdisabled : a.recover.EscalationDisabled)
    (hrunning : a.recover.state = .running) : a'.Recovering := by
  cases callback with
  | resourceAction o =>
      cases h
      exact .of_running hdisabled hrunning
  | healthcheck =>
      simp only [completed, hrunning, if_true] at h
      split at h
      · exact unhealthy_recovering hdisabled (by simp [hrunning]) h
      · split at h
        · cases h
        · cases h
          exact .of_running hdisabled hrunning

theorem exec_recovering (hrec : a.Recovering) (hsound : a.Sound) {s : Nat}
    (hs : .assemblySshExec s ∈ a.jobs)
    (hexec : (a.jobDel (.assemblySshExec s)).exec s env = .ok (a', outputs)) :
    a'.Recovering := by
  have hmem := List.mem_of_mem_head? (hsound.commands.exec_queue hs).1
  have hrunning := hrec.running hsound (hsound.commands.queue_connected hmem)
  rcases exec_eq_ok hexec with ⟨state, sshRc, -, rfl, -⟩ | ⟨-, rfl, -⟩ |
    ⟨sshRc, b, -, hcompleted, rfl⟩
  · exact .of_running hrec.disabled hrunning
  · exact .of_running hrec.disabled hrunning
  · have hb : b.Recovering := by
      refine completed_recovering hcompleted ?_ ?_
      · exact hrec.disabled
      · exact hrunning
    exact hb.congr (by simp) (by simp)

theorem timeout_recovering (hrec : a.Recovering) (hsound : a.Sound) {handle s : Nat}
    (hs : (handle, .sshTimeout s) ∈ a.timers)
    (htimeout : (a.timerDel handle).timeout s env = .ok (a', outputs)) :
    a'.Recovering := by
  obtain ⟨-, t, hmem⟩ := hsound.commands.timeout_queued hs
  have hrunning := hrec.running hsound (hsound.commands.queue_connected hmem)
  have hflushed : ((a.timerDel handle).sshTimeoutFlush s).recover = a.recover :=
    flush_recover _ _
  have hdisabled : ((a.timerDel handle).sshTimeoutFlush s).recover.EscalationDisabled :=
    hflushed ▸ hrec.disabled
  have hstate : ((a.timerDel handle).sshTimeoutFlush s).recover.state ≠ .failed := by
    rw [hflushed, hrunning]
    simp
  simp only [timeout] at htimeout
  split at htimeout
  · exact unhealthy_recovering hdisabled hstate htimeout
  · have hfail := fail_recovering hdisabled hstate env.now
    simp only [Except.ok.injEq] at htimeout
    rwa [htimeout] at hfail

theorem reactJob_recovering (hrec : a.Recovering) (hsound : a.Sound)
    {job : AssemblyJob} (hjob : job ∈ a.jobs)
    (hpoll : job = .myInstanceStateGet → instanceStateGet env.stateReply ≠ .ok none)
    (hstartup : job = .sshAssemblyConnect → ∀ t ∈ a.transport,
      connectOutcome env (a.trans t).sshState ≠ .failed)
    (hreact : (a.jobDel job).reactJob env job = .ok (a', outputs)) : a'.Recovering := by
  cases job with
  | myInstanceStateGet =>
      exact poll_recovering (a := a.jobDel _) hrec.disabled (hpoll rfl) hreact
  | connectExecute =>
      simp only [reactJob] at hreact
      split at hreact
      · next b hconnect =>
          cases hreact
          exact connectExecute_recovering (a := a.jobDel _) hrec.disabled hconnect
      · cases hreact
  | sshAssemblyConnect =>
      exact handshake_recovering (a := a.jobDel _) hrec.disabled (hstartup rfl) hreact
  | assemblySshExec s => exact exec_recovering hrec hsound hjob hreact

theorem reactTimer_recovering (hrec : a.Recovering) (hsound : a.Sound) {handle : Nat}
    {timer : AssemblyTimer} (htimer : (handle, timer) ∈ a.timers)
    (hpoll : timer = .myInstanceStateGet → instanceStateGet env.stateReply ≠ .ok none)
    (hreact : (a.timerDel handle).reactTimer env timer = .ok (a', outputs)) :
    a'.Recovering := by
  cases timer with
  | myInstanceStateGet =>
      exact poll_recovering (a := a.timerDel _) hrec.disabled (hpoll rfl) hreact
  | sshTimeout s => exact timeout_recovering hrec hsound htimer hreact
  | sshKeepaliveSend t =>
      cases hreact
      exact hrec.congr rfl (sshKeepaliveSend_sound hsound htimer).2.1
  | assemblyHealthcheck =>
      obtain ⟨t, hconnected, -⟩ := hsound.commands.health_connected htimer
      have hrunning := hrec.running hsound hconnected
      simp only [reactTimer] at hreact
      split at hreact
      · next b hcheck =>
          cases hreact
          have hrecover := assemblyHealthcheck_recover hcheck
          refine .of_running ?_ ?_
          · rw [hrecover]
            exact hrec.disabled
          · rw [hrecover]
            exact hrunning
      · cases hreact

end Assembly

namespace World

variable {σ : Type}

/-! ## Loading -/

theorem foldl_assemblies {f : Assembly σ → Assembly σ}
    {g : World σ → AssemblyNode → World σ}
    (hg : ∀ w node, (g w node).assemblies =
      Function.update w.assemblies node.name (f (w.assemblies node.name)))
    (a : CString) {nodes : List AssemblyNode}
    (hnodup : (nodes.map AssemblyNode.name).Nodup) (w : World σ) :
    (nodes.foldl g w).assemblies a =
      if a ∈ nodes.map AssemblyNode.name then f (w.assemblies a) else w.assemblies a := by
  induction nodes generalizing w with
  | nil => simp
  | cons node nodes ih =>
      obtain ⟨hnew, hrest⟩ := List.nodup_cons.mp hnodup
      rw [List.foldl_cons, ih hrest]
      by_cases ha : a = node.name
      · subst ha
        simp [hnew, hg]
      · simp [ha, hg]

variable [Stopwatch σ] {d : Deployable} {w w' : World σ}

theorem newAssembly_sound (errno : Int) (node : Option AssemblyNode) :
    (newAssembly errno node : Assembly σ).Sound where
  commands := by
    constructor <;> simp [newAssembly]
  pipeline := .of_zero (by simp [Assembly.pipeline, newAssembly])
  healthy := by
    intro hrunning
    cases hrunning

theorem load_assemblies (d : Deployable) (errno : ResourceId → Int)
    (answers : CString → Env) (a : CString) :
    (load d errno answers : World σ).assemblies a =
      if a ∈ d.assemblies.map AssemblyNode.name then
        (newAssembly (errno ⟨a, []⟩) (d.assembly? a)).jobAdd .myInstanceStateGet
      else newAssembly (errno ⟨a, []⟩) (d.assembly? a) :=
  foldl_assemblies (f := (·.jobAdd .myInstanceStateGet)) (fun _ _ => rfl) a d.names_nodup
    (empty d errno)

theorem load_sound (d : Deployable) (errno : ResourceId → Int)
    (answers : CString → Env) (a : CString) :
    ((load d errno answers : World σ).assemblies a).Sound := by
  have hnew := newAssembly_sound (σ := σ) (errno ⟨a, []⟩) (d.assembly? a)
  rw [load_assemblies]
  split
  · refine ⟨hnew.commands.jobAdd (by simp), .pollJob ?_ ?_, fun hrunning => ?_⟩
    · simp [Assembly.pipeline, newAssembly]
    · simp [Assembly.Live, newAssembly]
    · cases hrunning
  · exact hnew

/-! ## Every reachable assembly is sound -/

theorem Transition.sound {e : Event} (h : Transition d w e w')
    (hsound : ∀ a, (w.assemblies a).Sound) (a : CString) : (w'.assemblies a).Sound := by
  have update : ∀ {b : CString} {asm : Assembly σ}, asm.Sound →
      (Function.update w.assemblies b asm a).Sound := by
    intro b asm hasm
    by_cases ha : a = b
    · subst ha
      rwa [Function.update_self]
    · rw [Function.update_of_ne ha]
      exact hsound a
  cases h with
  | job hgraph hjob hreact hcalls =>
      exact update (Assembly.reactJob_sound (hsound _) hjob hreact).1
  | timer hgraph htimer hreact hcalls =>
      exact update (Assembly.reactTimer_sound (hsound _) htimer hreact).1
  | monitorRequest hgraph htimer hstate =>
      exact update ((hsound _).submit hstate _ _).1
  | @fire graph spec env c queued command hgraph hexec =>
      cases queued with
      | false => exact hsound a
      | true => exact update ((hsound _).submit hexec.running _ _).1
  | monitorOffline | processJob | processNextJob | confirmed | returned =>
      exact hsound a

theorem step_sound {e : Event} (hsound : ∀ a, (w.assemblies a).Sound)
    (hstep : step d w e = .ok w') (a : CString) : (w'.assemblies a).Sound :=
  (step_transition hsound hstep).sound hsound a

theorem reaches_sound {errno : ResourceId → Int} {answers : CString → Env}
    {events : List Event} (h : Reaches d errno answers events w) (a : CString) :
    (w.assemblies a).Sound :=
  run_invariant_of_step (I := fun w : World σ => ∀ a, (w.assemblies a).Sound)
    (fun hsound hstep => step_sound hsound hstep) (load_sound d errno answers) h a

/--
In every reachable state an assembly has at most one pending recovery step, none
while it has a connected transport, and a running assembly is connected and has
exactly one health check outstanding.
-/
theorem one_pipeline_one_healthcheck {errno : ResourceId → Int}
    {answers : CString → Env} {events : List Event}
    (h : Reaches d errno answers events w) (a : CString) :
    (w.assemblies a).pipeline ≤ 1 ∧
      (∀ t, (w.assemblies a).Connected t → (w.assemblies a).pipeline = 0) ∧
      ((w.assemblies a).recover.state = .running →
        (∃ t, (w.assemblies a).Connected t) ∧ (w.assemblies a).healthchecks = 1) := by
  have hsound := reaches_sound h a
  exact ⟨hsound.pipeline.le_one, fun t ht => hsound.pipeline.connected ht,
    hsound.healthy⟩

/-! A deployable with one assembly, and answers under which every call succeeds. -/

def bar : CString := "bar".toList

def barWith (threshold : CString) : Deployable where
  assemblies :=
    [{ name := bar
       uuid := "7891011".toList
       escalationFailures := none
       escalationPeriod := none
       services :=
        [{ name := "angus".toList
           type := "httpd".toList
           rclass := "lsb".toList
           rprovider := some "me".toList
           escalationFailures := some threshold
           escalationPeriod := some threshold
           configureExecutable := false }] }]
  names_nodup := by simp

def barDeployable : Deployable := barWith "-1".toList

def workingEnv : Env where
  now := 0
  stateReply := .deltacloud true "RUNNING".toList (some (some "1.2.3.4".toList))
  imageReply := some "bar".toList
  createReply := .created "i-1".toList
  destroyReply := ⟨true, true⟩
  connected := true
  sessionInit := true
  sessionStartup := .ok
  userauth := .ok
  exec := fun _ => .ok
  exitStatus := 0

def bringUp : List Event :=
  [.job bar .myInstanceStateGet workingEnv, .job bar .connectExecute workingEnv,
    .job bar .sshAssemblyConnect workingEnv]

abbrev BarReaches (events : List Event) (w : World Ring) : Prop :=
  Reaches barDeployable (fun _ => 0) (fun _ => workingEnv) events w

theorem one_pipeline_one_healthcheck_bringUp :
    ∃ w, BarReaches bringUp w ∧
      (w.assemblies bar).recover.state = .running ∧
      (w.assemblies bar).pipeline ≤ 1 ∧
      (∃ t, (w.assemblies bar).Connected t) ∧ (w.assemblies bar).healthchecks = 1 := by
  obtain ⟨w, hreach, hrunning⟩ :
      ∃ w, BarReaches bringUp w ∧ (w.assemblies bar).recover.state = .running :=
    exists_reaches (by decide +kernel)
  obtain ⟨hle, -, hup⟩ := one_pipeline_one_healthcheck hreach bar
  exact ⟨w, hreach, hrunning, hle, hup hrunning⟩

/-! ## The recovery goes on -/

/--
The answers on which the recovery of an assembly depends: a request for the state
of its instance is answered, and its SSH session can be started.
-/
def RecoveryAnswered (a : CString) (w : World σ) : Event → Prop
  | .job b .myInstanceStateGet env =>
      b = a → instanceStateGet env.stateReply ≠ .ok none
  | .timer b handle env =>
      b = a → (handle, .myInstanceStateGet) ∈ (w.assemblies a).timers →
        instanceStateGet env.stateReply ≠ .ok none
  | .job b .sshAssemblyConnect env =>
      b = a → ∀ t ∈ (w.assemblies a).transport,
        Assembly.connectOutcome env ((w.assemblies a).trans t).sshState ≠ .failed
  | _ => True

instance (a : CString) (w : World σ) : ∀ e, Decidable (RecoveryAnswered a w e)
  | .job _ .myInstanceStateGet _ => inferInstanceAs (Decidable (_ → _))
  | .job _ .connectExecute _ => inferInstanceAs (Decidable True)
  | .job _ .sshAssemblyConnect _ => inferInstanceAs (Decidable (_ → _))
  | .job _ (.assemblySshExec _) _ => inferInstanceAs (Decidable True)
  | .timer _ _ _ => inferInstanceAs (Decidable (_ → _ → _))
  | .monitorTimer _ _ => inferInstanceAs (Decidable True)
  | .processJob => inferInstanceAs (Decidable True)
  | .processNextJob _ => inferInstanceAs (Decidable True)
  | .fire _ _ => inferInstanceAs (Decidable True)
  | .runGraphReturn _ => inferInstanceAs (Decidable True)

theorem Transition.recovering {e : Event} {a : CString} (h : Transition d w e w')
    (hsound : ∀ a, (w.assemblies a).Sound) (hrec : (w.assemblies a).Recovering)
    (hanswered : RecoveryAnswered a w e) : (w'.assemblies a).Recovering := by
  have update : ∀ {b : CString} {asm : Assembly σ}, (b = a → asm.Recovering) →
      (Function.update w.assemblies b asm a).Recovering := by
    intro b asm hasm
    by_cases ha : b = a
    · subst ha
      rw [Function.update_self]
      exact hasm rfl
    · rw [Function.update_of_ne (Ne.symm ha)]
      exact hrec
  have submitted : ∀ (b : CString) (o : Nat) (command : CString), b = a →
      ((w.assemblies b).submit o command).Recovering := by
    rintro b o command rfl
    exact hrec.congr (by simp) (by simp)
  cases h with
  | job hgraph hjob hreact hcalls =>
      refine update ?_
      rintro rfl
      refine Assembly.reactJob_recovering hrec (hsound _) hjob ?_ ?_ hreact
      · rintro rfl
        exact hanswered rfl
      · rintro rfl
        exact hanswered rfl
  | timer hgraph htimer hreact hcalls =>
      refine update ?_
      rintro rfl
      refine Assembly.reactTimer_recovering hrec (hsound _) htimer ?_ hreact
      rintro rfl
      exact hanswered rfl htimer
  | monitorRequest hgraph htimer hstate => exact update (submitted _ _ _)
  | @fire graph spec env c queued command hgraph hexec =>
      cases queued with
      | false => exact hrec
      | true => exact update (submitted _ _ _)
  | monitorOffline | processJob | processNextJob | confirmed | returned => exact hrec

/--
The recovery of an assembly without escalation never ends before it is running,
in every run in which each state request of the assembly is answered and its SSH
session can be started.
-/
theorem recovery_pending_of_answered {errno : ResourceId → Int}
    {answers : CString → Env} {events : List Event} {a : CString}
    (hnode : a ∈ d.assemblies.map AssemblyNode.name)
    (hdisabled : ((load d errno answers : World σ).assemblies
      a).recover.EscalationDisabled)
    (halong : Along (step d) (RecoveryAnswered a) (load d errno answers : World σ)
      events)
    (h : Reaches d errno answers events w) :
    (w.assemblies a).recover.state ≠ .running → 1 ≤ (w.assemblies a).pipeline := by
  have hinit : ((load d errno answers : World σ).assemblies a).Recovering := by
    refine .of_pending hdisabled ?_
    rw [load_assemblies, if_pos hnode]
    exact Assembly.pipeline_jobAdd_ne_zero _ (by simp)
  have hinv := run_invariant
    (I := fun w : World σ => (∀ b, (w.assemblies b).Sound) ∧ (w.assemblies a).Recovering)
    (fun ⟨hsound, hrec⟩ hanswered hstep => ⟨step_sound hsound hstep,
      (step_transition hsound hstep).recovering hsound hrec hanswered⟩)
    ⟨load_sound d errno answers, hinit⟩ halong h
  intro hdown
  exact Nat.one_le_iff_ne_zero.mpr (hinv.2.pending hdown)

theorem recovery_pending_of_answered_bringUp :
    ∃ w, BarReaches (bringUp.take 2) w ∧
      (w.assemblies bar).recover.state ≠ .running ∧ 1 ≤ (w.assemblies bar).pipeline := by
  obtain ⟨w, hreach, hdown⟩ :
      ∃ w, BarReaches (bringUp.take 2) w ∧ (w.assemblies bar).recover.state ≠ .running :=
    exists_reaches (by decide +kernel)
  exact ⟨w, hreach, hdown, recovery_pending_of_answered (by decide) (by decide +kernel)
    (by decide +kernel) hreach hdown⟩

/--
A request that libdeltacloud cannot send is not repeated, and neither is a session
that fails to start: the assembly is down and nothing continues its recovery.
-/
theorem recovery_ends :
    (∃ w, BarReaches
        [.job bar .myInstanceStateGet
          { workingEnv with stateReply := .deltacloud false [] none }] w ∧
      (w.assemblies bar).recover.EscalationDisabled ∧
      (w.assemblies bar).recover.state ≠ .running ∧ (w.assemblies bar).pipeline = 0) ∧
    ∃ w, BarReaches
        [.job bar .myInstanceStateGet workingEnv, .job bar .connectExecute workingEnv,
          .job bar .sshAssemblyConnect { workingEnv with sessionStartup := .error }] w ∧
      (w.assemblies bar).recover.EscalationDisabled ∧
      (w.assemblies bar).recover.state ≠ .running ∧ (w.assemblies bar).pipeline = 0 := by
  exact ⟨exists_reaches (by decide +kernel), exists_reaches (by decide +kernel)⟩

end World

end PacemakerCloud

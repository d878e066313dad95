import PacemakerCloud.Assembly.Disconnect

/-!
# The calls of the ssh handshake

`ssh_assembly_connect` is a switch that falls through from one libssh2 call to the
next and is resumed at the remembered state after a call that would block.  Its
calls are recorded with their results, together with the moment at which the
assembly is set to `RECOVER_STATE_RUNNING`.
-/

namespace PacemakerCloud

open Foundation

inductive SessionCall where
  | sessionInit
  | sessionStartup (rc : SshRc)
  | userauth (rc : SshRc)
  /-- `recover_state_set (&assembly->recover, RECOVER_STATE_RUNNING)`. -/
  | running
  deriving DecidableEq, Repr

def extendSession (session : List SessionCall) : SessionCall → List SessionCall
  | .sessionInit => []
  | .running => session
  | .sessionStartup rc => session ++ [.sessionStartup rc]
  | .userauth rc => session ++ [.userauth rc]

def Authenticated (session : List SessionCall) : Prop :=
  .sessionStartup .ok ∈ session ∧ .userauth .ok ∈ session

instance (session : List SessionCall) : Decidable (Authenticated session) :=
  inferInstanceAs (Decidable (_ ∧ _))

/-- Whenever the assembly is set to running, the session of that moment is authenticated. -/
def RunningAuthenticated (session : List SessionCall) : List SessionCall → Prop
  | [] => True
  | call :: calls =>
      (call = .running → Authenticated session) ∧
        RunningAuthenticated (extendSession session call) calls

instance decidableRunningAuthenticated :
    ∀ session calls, Decidable (RunningAuthenticated session calls)
  | _, [] => .isTrue trivial
  | session, call :: calls =>
      have := decidableRunningAuthenticated (extendSession session call) calls
      inferInstanceAs (Decidable (_ ∧ _))

theorem runningAuthenticated_append {session calls calls' : List SessionCall} :
    RunningAuthenticated session (calls ++ calls') ↔
      RunningAuthenticated session calls ∧
        RunningAuthenticated (calls.foldl extendSession session) calls' := by
  induction calls generalizing session with
  | nil => simp [RunningAuthenticated]
  | cons call calls ih => simp [RunningAuthenticated, ih, and_assoc]

theorem runningAuthenticated_of_notMem {session calls : List SessionCall}
    (h : .running ∉ calls) : RunningAuthenticated session calls := by
  induction calls generalizing session with
  | nil => trivial
  | cons call calls ih =>
      rw [List.mem_cons, not_or] at h
      exact ⟨fun hrunning => absurd hrunning.symm h.1, ih h.2⟩

namespace Assembly

/-! ## The calls of one invocation -/

def userauthCalls (env : Env) : List SessionCall := [.userauth env.userauth]

def startupCalls (env : Env) : List SessionCall :=
  .sessionStartup env.sessionStartup ::
    if env.sessionStartup = .ok then userauthCalls env else []

def libssh2Calls (env : Env) : SshState → List SessionCall
  | .sessionInit => .sessionInit :: if env.sessionInit then startupCalls env else []
  | .sessionStartup => startupCalls env
  | .userauthPublickeyFromfile => userauthCalls env
  | .keepaliveConfig | .sessionConnected | .sessionConnecting => []

def ConnectOutcome.declared : ConnectOutcome → List SessionCall
  | .keepalive | .connected => [.running]
  | .again _ | .failed | .assertion => []

def connectCalls (env : Env) (state : SshState) : List SessionCall :=
  libssh2Calls env state ++ (connectOutcome env state).declared

theorem running_notMem_libssh2Calls (env : Env) (state : SshState) :
    .running ∉ libssh2Calls env state := by
  have hstartup : .running ∉ startupCalls env := by
    unfold startupCalls
    split <;> simp [userauthCalls]
  cases state with
  | sessionInit =>
      simp only [libssh2Calls]
      split <;> simp [hstartup]
  | sessionStartup => exact hstartup
  | userauthPublickeyFromfile => simp [libssh2Calls, userauthCalls]
  | keepaliveConfig | sessionConnected | sessionConnecting => simp [libssh2Calls]

def Passed (session : List SessionCall) : SshState → Prop
  | .sessionConnecting | .sessionInit | .sessionStartup => True
  | .userauthPublickeyFromfile => .sessionStartup .ok ∈ session
  | .keepaliveConfig | .sessionConnected => Authenticated session

def ConnectOutcome.state : ConnectOutcome → SshState
  | .again state => state
  | .failed => .sessionStartup
  | .assertion => .sessionConnecting
  | .keepalive | .connected => .sessionConnected

theorem passed_connectOutcome {env : Env} {state : SshState} {session : List SessionCall}
    (h : Passed session state) (hauth : .userauth .error ∉ connectCalls env state) :
    Passed ((libssh2Calls env state).foldl extendSession session)
      (connectOutcome env state).state := by
  have huserauth : ∀ {session : List SessionCall}, .sessionStartup .ok ∈ session →
      .userauth .error ∉ userauthCalls env →
      Passed ((userauthCalls env).foldl extendSession session)
        (connectUserauth env).state := by
    intro session hstarted hauth
    unfold connectUserauth
    cases hrc : env.userauth with
    | ok => simp [userauthCalls, hrc, extendSession, ConnectOutcome.state, Passed,
        Authenticated, hstarted]
    | eagain => simp [userauthCalls, hrc, extendSession, ConnectOutcome.state, Passed,
        hstarted]
    | error => simp [userauthCalls, hrc] at hauth
  have hstartup : ∀ {session : List SessionCall}, .userauth .error ∉ startupCalls env →
      Passed ((startupCalls env).foldl extendSession session)
        (connectStartup env).state := by
    intro session hauth
    unfold connectStartup
    cases hrc : env.sessionStartup with
    | ok =>
        simp only [startupCalls, hrc, if_true, List.mem_cons, not_or] at hauth ⊢
        exact huserauth (by simp [extendSession]) hauth.2
    | eagain => exact trivial
    | error => exact trivial
  have hcalls : .userauth .error ∉ libssh2Calls env state := fun hmem =>
    hauth (List.mem_append_left _ hmem)
  cases state with
  | sessionInit =>
      simp only [connectOutcome, libssh2Calls] at hcalls ⊢
      split
      · next hinit =>
          simp only [hinit, if_true, List.mem_cons, not_or] at hcalls
          exact hstartup hcalls.2
      · exact trivial
  | sessionStartup => exact hstartup hcalls
  | userauthPublickeyFromfile => exact huserauth h hcalls
  | keepaliveConfig | sessionConnected => exact h
  | sessionConnecting => exact trivial

/-! ## The reactions -/

variable {σ : Type} {a a' : Assembly σ} {t : Nat} {env : Env} {outputs : List Output}
  {session : List SessionCall}

def Secured (a : Assembly σ) (session : List SessionCall) : Prop :=
  ∀ t, a.Live t → Passed session (a.trans t).sshState

theorem Keeps.secured (h : Keeps a a') (hsecured : a.Secured session) :
    a'.Secured session := by
  intro t hlive
  have hstate : (a'.trans t).sshState = (a.trans t).sshState :=
    congrArg (fun line => line.1) (h.line t)
  rw [hstate]
  exact hsecured t (h.live.mp hlive)

theorem Down.secured (h : a.Down) : a.Secured session :=
  fun t hlive => absurd hlive (h.not_live t)

theorem Ends.secured (h : Ends a a' outputs) (hsecured : a.Secured session) :
    a'.Secured session := by
  cases h with
  | kept hkeeps _ => exact hkeeps.secured hsecured
  | down _ hdown _ => exact hdown.secured

theorem Secured.setSshState (hlive : a.Live t) {state : SshState}
    (h : Passed session state) :
    (a.modifyTrans t ({ · with sshState := state })).Secured session := by
  intro t' hlive'
  obtain rfl : t = t' := hlive'.eq hlive.1
  simpa [modifyTrans] using h

theorem sshKeepaliveSend_secured (hsecured : a.Secured session) (t : Nat) :
    (a.sshKeepaliveSend t).Secured session := by
  intro t' hlive
  have hstate : ((a.sshKeepaliveSend t).trans t').sshState = (a.trans t').sshState ∧
      ((a.sshKeepaliveSend t).trans t').freed = (a.trans t').freed := by
    by_cases ht : t' = t
    · subst ht
      simp [sshKeepaliveSend, modifyTrans, timerAdd]
    · simp [sshKeepaliveSend, modifyTrans, timerAdd, Function.update_of_ne ht]
  rw [hstate.1]
  exact hsecured t' ⟨hlive.1, hstate.2 ▸ hlive.2⟩

theorem connectExecute_secured (hlive : a.Live t) (hsecured : a.Secured session)
    (h : a.connectExecute env = .ok a') : a'.Secured session := by
  simp only [connectExecute, hlive.1] at h
  split at h
  · cases h
    exact (Keeps.jobAdd _ _).secured (.setSshState hlive trivial)
  · cases h
    exact (Keeps.jobAdd a _).secured hsecured

variable [Stopwatch σ]

theorem poll_secured (hdown : a.Down) (h : a.poll env = .ok (a', outputs)) :
    a'.Secured session := by
  cases pollStep_of_poll h with
  | unanswered => exact hdown.secured
  | active =>
      intro t hlive
      obtain rfl : a.transCount = t := hlive.eq rfl
      simp [transportConnect, jobAdd, Passed]
  | pending =>
      obtain ⟨hset, -⟩ := recoverSet_keeps a env.now .unknown (by simp)
      exact ((hset.trans (.timerAdd _ (by simp))).down hdown).secured

def jobCalls (a : Assembly σ) (env : Env) : AssemblyJob → List SessionCall
  | .sshAssemblyConnect =>
      match a.transport with
      | some t => connectCalls env (a.trans t).sshState
      | none => []
  | .myInstanceStateGet | .connectExecute | .assemblySshExec _ => []

theorem foldl_connectCalls (env : Env) (state : SshState) (session : List SessionCall) :
    (connectCalls env state).foldl extendSession session =
      (libssh2Calls env state).foldl extendSession session := by
  rw [connectCalls, List.foldl_append]
  cases connectOutcome env state <;> rfl

theorem handshake_secured (hlive : a.Live t) (hsecured : a.Secured session)
    (hauth : .userauth .error ∉ connectCalls env (a.trans t).sshState)
    (h : a.handshake env = .ok (a', outputs)) :
    RunningAuthenticated session (connectCalls env (a.trans t).sshState) ∧
      a'.Secured ((connectCalls env (a.trans t).sshState).foldl extendSession session) := by
  have hpassed := passed_connectOutcome (hsecured t hlive) hauth
  have hcalls : RunningAuthenticated session (libssh2Calls env (a.trans t).sshState) :=
    runningAuthenticated_of_notMem (running_notMem_libssh2Calls env _)
  rw [foldl_connectCalls, connectCalls, runningAuthenticated_append]
  simp only [handshake, hlive.1] at h
  cases hout : connectOutcome env (a.trans t).sshState with
  | again state =>
      simp only [hout] at h hpassed
      cases h
      exact ⟨⟨hcalls, trivial⟩, (Keeps.jobAdd _ _).secured (.setSshState hlive hpassed)⟩
  | failed =>
      simp only [hout] at h hpassed
      cases h
      exact ⟨⟨hcalls, trivial⟩, .setSshState hlive hpassed⟩
  | assertion => simp [hout] at h
  | keepalive =>
      simp only [hout] at h hpassed
      have hlive' : (a.sshKeepaliveSend t).Live t := by
        simpa [Live, sshKeepaliveSend, modifyTrans, timerAdd] using hlive
      have hconnected : ((a.sshKeepaliveSend t).modifyTrans t
          ({ · with sshState := .sessionConnected })).Connected t := by
        simpa [Connected, Live, modifyTrans] using hlive'
      exact ⟨⟨hcalls, fun _ => hpassed, trivial⟩,
        (up_keeps hconnected h).1.secured (.setSshState hlive' hpassed)⟩
  | connected =>
      simp only [hout] at h hpassed
      have hstate := connectOutcome_connected hout
      rw [hstate] at hpassed ⊢
      exact ⟨⟨trivial, fun _ => hpassed, trivial⟩,
        (up_keeps ⟨hlive, hstate⟩ h).1.secured hsecured⟩

theorem reactJob_secured (hsecured : a.Secured session) (hdialing : a.Dialing)
    (hsound : a.Sound) {job : AssemblyJob} (hjob : job ∈ a.jobs)
    (hauth : .userauth .error ∉ a.jobCalls env job)
    (hreact : (a.jobDel job).reactJob env job = .ok (a', outputs)) :
    RunningAuthenticated session (a.jobCalls env job) ∧
      a'.Secured ((a.jobCalls env job).foldl extendSession session) := by
  have howned : (a.jobDel job).KeepalivesOwned := hdialing.keepalives
  have hsecured' : (a.jobDel job).Secured session := hsecured
  cases job with
  | myInstanceStateGet =>
      have hnone := hsound.pipeline.polling (Or.inl hjob)
      exact ⟨trivial, poll_secured (howned.down hnone) hreact⟩
  | connectExecute =>
      obtain ⟨t, hlive⟩ := hsound.pipeline.connecting (Or.inl hjob)
      simp only [reactJob] at hreact
      split at hreact
      · next b hconnect =>
          cases hreact
          exact ⟨trivial, connectExecute_secured (a := a.jobDel .connectExecute) hlive
            hsecured' hconnect⟩
      · cases hreact
  | sshAssemblyConnect =>
      obtain ⟨t, hlive⟩ := hsound.pipeline.connecting (Or.inr hjob)
      simp only [jobCalls, hlive.1] at hauth ⊢
      exact handshake_secured (a := a.jobDel .sshAssemblyConnect) hlive hsecured' hauth hreact
  | assemblySshExec s =>
      have hmem := List.mem_of_mem_head? (hsound.commands.exec_queue hjob).1
      have hconnected := hsound.commands.queue_connected hmem
      exact ⟨trivial, (exec_ends howned hconnected hreact).secured hsecured'⟩

theorem reactTimer_secured (hsecured : a.Secured session) (hdialing : a.Dialing)
    (hsound : a.Sound) {handle : Nat} {timer : AssemblyTimer}
    (htimer : (handle, timer) ∈ a.timers)
    (hreact : (a.timerDel handle).reactTimer env timer = .ok (a', outputs)) :
    a'.Secured session := by
  have howned := (Keeps.timerDel a handle).keepalives hdialing.keepalives
  have hsecured' : (a.timerDel handle).Secured session := hsecured
  cases timer with
  | myInstanceStateGet =>
      have hnone := hsound.pipeline.polling (Or.inr ⟨handle, htimer⟩)
      exact poll_secured (howned.down hnone) hreact
  | sshTimeout s =>
      obtain ⟨-, t, hmem⟩ := hsound.commands.timeout_queued htimer
      have hconnected := hsound.commands.queue_connected hmem
      exact (timeout_ends howned hconnected hreact).secured hsecured'
  | sshKeepaliveSend t =>
      cases hreact
      exact sshKeepaliveSend_secured hsecured' t
  | assemblyHealthcheck =>
      obtain ⟨t, hconnected, -⟩ := hsound.commands.health_connected htimer
      have hconnected' : (a.timerDel handle).Connected t := hconnected
      simp only [reactTimer, assemblyHealthcheck, transportExecute_eq hconnected'] at hreact
      cases hreact
      exact (Keeps.enqueue _ t _ _).secured hsecured'

end Assembly

end PacemakerCloud

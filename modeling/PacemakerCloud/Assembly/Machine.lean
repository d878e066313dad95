import PacemakerCloud.Daemon.Step

/-!
# One assembly as a machine of its own

A handler of an assembly touches that assembly and, through a few calls, the
rest of the daemon.  Here the handlers are functions of the assembly alone; the
calls into the rest of the daemon are their output.  `dispatchJob_eq` and
`dispatchTimer_eq` say that the daemon is this machine together with the calls.
-/

namespace PacemakerCloud

open Foundation

inductive Output where
  /-- `node_state_change_event`. -/
  | stateChanging
  /-- `node_op_history_clear` and the cloud requests of `instance_create`. -/
  | restarted
  | address (address : CString)
  /-- `resource_action_completion`. -/
  | actionCompleted (op : Nat) (sshRc : Int)
  deriving DecidableEq, Repr

namespace Assembly

variable {σ : Type}

/-- `node_recover_restart`, as far as it concerns the assembly. -/
def restart (a : Assembly σ) : Assembly σ :=
  a.transportDisconnect.jobAdd .myInstanceStateGet

def callback (a : Assembly σ) : RecoverCall → Assembly σ
  | .restart => a.restart
  | .stateChanging _ _ | .escalate => a

def callbackOutput : RecoverCall → List Output
  | .stateChanging _ _ => [.stateChanging]
  | .restart => [.restarted]
  | .escalate => []

variable [Stopwatch σ]

def recoverSet (a : Assembly σ) (now : Nat) (state : RecoverState) :
    Assembly σ × List Output :=
  let result := recoverStateSet a.recover now state
  (result.2.foldl callback { a with recover := result.1 },
    result.2.flatMap callbackOutput)

/--
What setting the state of an assembly can do: store it, or store it and restart
the node.
-/
theorem recoverSet_cases (a : Assembly σ) (now : Nat) (state : RecoverState) :
    ∃ r : Recover σ, r.state = state ∧ r.numFailures = a.recover.numFailures ∧
      r.failurePeriod = a.recover.failurePeriod ∧
      ((∃ outputs, a.recoverSet now state = ({ a with recover := r }, outputs) ∧
          (outputs = [] ∨ outputs = [.stateChanging]) ∧
          (state = .failed → a.recover.state = .failed ∨
            0 < a.recover.numFailures ∧ 0 < a.recover.failurePeriod)) ∨
        state = .failed ∧ a.recover.state ≠ .failed ∧
          a.recoverSet now state =
            ({ a with recover := r }.restart, [.stateChanging, .restarted])) := by
  unfold recoverSet
  have hsets := recoverStateSet_sets a.recover now state
  generalize recoverStateSet a.recover now state = result at hsets ⊢
  cases hsets with
  | same hsame =>
      exact ⟨a.recover, hsame, rfl, rfl,
        Or.inl ⟨[], rfl, Or.inl rfl, fun h => Or.inl (hsame.trans h)⟩⟩
  | changed _ hfailed =>
      exact ⟨{ a.recover with state := state }, rfl, rfl, rfl,
        Or.inl ⟨[.stateChanging], rfl, Or.inr rfl, fun h => absurd h hfailed⟩⟩
  | @restarted r hne hstate hnum hperiod =>
      exact ⟨r, hstate, hnum, hperiod, Or.inr ⟨rfl, hne, rfl⟩⟩
  | @escalated r _ hstate hnum hperiod henabled =>
      exact ⟨r, hstate, hnum, hperiod,
        Or.inl ⟨[.stateChanging], rfl, Or.inr rfl, fun _ => Or.inr henabled⟩⟩

/-! ## The handlers -/

def poll (a : Assembly σ) (env : Env) : Except Fault (Assembly σ × List Output) :=
  match instanceStateGet env.stateReply with
  | .error _ => .error .nullReply
  | .ok none => .ok (a, [])
  | .ok (some (status, address)) =>
      if status = "ACTIVE".toList then
        match address with
        | none => .error .nullAddress
        | some address => .ok (a.transportConnect, [.address address])
      else
        let result := a.recoverSet env.now .unknown
        .ok (result.1.timerAdd .myInstanceStateGet, result.2)

inductive PollStep (a : Assembly σ) (env : Env) : Assembly σ → List Output → Prop
  | unanswered (h : instanceStateGet env.stateReply = .ok none) : PollStep a env a []
  | active (address : CString) : PollStep a env a.transportConnect [.address address]
  | pending : PollStep a env
      ((a.recoverSet env.now .unknown).1.timerAdd .myInstanceStateGet)
      (a.recoverSet env.now .unknown).2

theorem pollStep_of_poll {a a' : Assembly σ} {env : Env} {outputs : List Output}
    (h : a.poll env = .ok (a', outputs)) : PollStep a env a' outputs := by
  unfold poll at h
  split at h
  case h_1 => cases h
  case h_2 hnone =>
    cases h
    exact .unanswered hnone
  case h_3 =>
    split at h
    case isTrue =>
      split at h
      · cases h
      · cases h
        exact .active _
    case isFalse =>
      cases h
      exact .pending

def up (a : Assembly σ) (env : Env) : Except Fault (Assembly σ × List Output) :=
  let result := a.recoverSet env.now .running
  match result.1.assemblyHealthcheck with
  | .ok a => .ok (a, result.2)
  | .error fault => .error fault

def handshake (a : Assembly σ) (env : Env) :
    Except Fault (Assembly σ × List Output) :=
  match a.transport with
  | none => .error .nullTransport
  | some t =>
      match connectOutcome env (a.trans t).sshState with
      | .again state =>
          .ok ((a.modifyTrans t ({ · with sshState := state })).jobAdd
            .sshAssemblyConnect, [])
      | .failed =>
          .ok (a.modifyTrans t ({ · with sshState := .sessionStartup }), [])
      | .assertion => .error .assertion
      | .keepalive =>
          ((a.sshKeepaliveSend t).modifyTrans t
            ({ · with sshState := .sessionConnected })).up env
      | .connected => a.up env

def unhealthy (a : Assembly σ) (env : Env) :
    Except Fault (Assembly σ × List Output) :=
  match a.transport with
  | none => .error .nullTransport
  | some t => .ok ((a.transportFailed t).recoverSet env.now .failed)

def healthcheckTimerAdd (a : Assembly σ) (t : Nat) : Assembly σ :=
  (a.timerAdd .assemblyHealthcheck).modifyTrans t
    ({ · with healthcheckTimer := a.timerCount + 1 })

/-- The command has run; it is already off the queue. -/
def completed (a : Assembly σ) (callback : SshCallback) (env : Env)
    (sshRc : Int) : Except Fault (Assembly σ × List Output) :=
  match callback with
  | .resourceAction o => .ok (a, [.actionCompleted o sshRc])
  | .healthcheck =>
      if sshRc ≠ 0 then a.unhealthy env
      else if a.recover.state = .running then
        match a.transport with
        | none => .error .nullTransport
        | some t => .ok (a.healthcheckTimerAdd t, [])
      else .ok (a, [])

def exec (a : Assembly σ) (s : Nat) (env : Env) :
    Except Fault (Assembly σ × List Output) :=
  let op := a.sshOps s
  if (a.trans op.transport).sshState ≠ .sessionConnected then .error .assertion
  else
    match execOutcome env op with
    | .again state sshRc => .ok (a.execAgain s state sshRc, [])
    | .openFailed => .ok (a, [])
    | .assertion => .error .assertion
    | .complete sshRc =>
        match (a.sshOpDequeue s).completed op.callback env sshRc with
        | .ok (a, outputs) => .ok (a.transportSchedule op.transport, outputs)
        | .error fault => .error fault

def timeout (a : Assembly σ) (s : Nat) (env : Env) :
    Except Fault (Assembly σ × List Output) :=
  match (a.sshOps s).callback with
  | .healthcheck => (a.sshTimeoutFlush s).unhealthy env
  | .resourceAction _ => .ok ((a.sshTimeoutFlush s).recoverSet env.now .failed)

def reactJob (a : Assembly σ) (env : Env) :
    AssemblyJob → Except Fault (Assembly σ × List Output)
  | .myInstanceStateGet => a.poll env
  | .connectExecute =>
      match a.connectExecute env with
      | .ok a => .ok (a, [])
      | .error fault => .error fault
  | .sshAssemblyConnect => a.handshake env
  | .assemblySshExec s => a.exec s env

def reactTimer (a : Assembly σ) (env : Env) :
    AssemblyTimer → Except Fault (Assembly σ × List Output)
  | .myInstanceStateGet => a.poll env
  | .sshTimeout s => a.timeout s env
  | .sshKeepaliveSend t => .ok (a.sshKeepaliveSend t, [])
  | .assemblyHealthcheck =>
      match a.assemblyHealthcheck with
      | .ok a => .ok (a, [])
      | .error fault => .error fault

end Assembly

/-! ## The daemon is the machine and its calls -/

namespace Cape

variable {σ : Type} [Stopwatch σ]

def receive (d : Deployable) (a : CString) (env : Env) (c : Cape σ) :
    Output → Except Fault (Cape σ)
  | .stateChanging => .ok c.scheduleProcessing
  | .restarted => .ok ((c.nodeOpHistoryClear a).instanceRequests a env)
  | .address address =>
      .ok (c.modifyCloud a ({ · with address := some address }))
  | .actionCompleted o sshRc => c.resourceActionCompletion d env o sshRc

end Cape

namespace World

variable {σ : Type} [Stopwatch σ]

def perform (d : Deployable) (w : World σ) (a : CString) (env : Env) :
    Except Fault (Assembly σ × List Output) → Except Fault (World σ)
  | .error fault => .error fault
  | .ok result => do
      let c ← result.2.foldlM (Cape.receive d a env) w.cape
      return { assemblies := Function.update w.assemblies a result.1, cape := c }

variable {d : Deployable} {w : World σ} {a : CString} {env : Env}

theorem perform_append (asm asm' : Assembly σ) (outputs outputs' : List Output) :
    w.perform d a env (.ok (asm', outputs ++ outputs')) =
      (w.perform d a env (.ok (asm, outputs)) >>= fun w' =>
        w'.perform d a env (.ok (asm', outputs'))) := by
  simp only [perform, List.foldlM_append, bind_assoc, pure_bind,
    Function.update_idem]

theorem nodeCallback_eq (call : RecoverCall) :
    w.perform d a env (.ok ((w.assemblies a).callback call,
      Assembly.callbackOutput call)) = .ok (nodeCallback env a w call) := by
  cases call with
  | stateChanging before after =>
      simp [perform, Assembly.callback, Assembly.callbackOutput, Cape.receive,
        nodeCallback, modifyCape, pure, Except.pure, bind, Except.bind]
  | restart =>
      simp [perform, Assembly.callback, Assembly.callbackOutput, Cape.receive,
        nodeCallback, nodeRecoverRestart, Core.instanceCreate, core, modifyCape,
        modifyAssembly, Assembly.restart, pure, Except.pure, bind, Except.bind]
  | escalate =>
      simp [perform, Assembly.callback, Assembly.callbackOutput, nodeCallback,
        pure, Except.pure, bind, Except.bind]

theorem nodeCallbacks_eq (a : CString) (env : Env) (calls : List RecoverCall) :
    w.perform d a env
        (.ok (calls.foldl Assembly.callback (w.assemblies a),
          calls.flatMap Assembly.callbackOutput)) =
      .ok (calls.foldl (nodeCallback env a) w) := by
  induction calls generalizing w with
  | nil => simp [perform, pure, Except.pure, bind, Except.bind]
  | cons call calls ih =>
      have hasm : (nodeCallback env a w call).assemblies a =
          (w.assemblies a).callback call := by
        cases call <;>
          simp [nodeCallback, nodeRecoverRestart, Core.instanceCreate, core, modifyCape,
            modifyAssembly, Assembly.callback, Assembly.restart]
      rw [List.flatMap_cons, perform_append ((w.assemblies a).callback call),
        nodeCallback_eq, List.foldl_cons, List.foldl_cons, ← hasm]
      exact ih

theorem nodeRecoverSet_eq (state : RecoverState) :
    w.perform d a env (.ok ((w.assemblies a).recoverSet env.now state)) =
      .ok (w.nodeRecoverSet a env state) := by
  have h := nodeCallbacks_eq (d := d) (w := w.modifyAssembly a
    ({ · with recover := (recoverStateSet (w.assemblies a).recover env.now state).1 }))
    a env (recoverStateSet (w.assemblies a).recover env.now state).2
  simpa [perform, modifyAssembly, nodeRecoverSet, Assembly.recoverSet] using h

theorem perform_eq_ok {result : Assembly σ × List Output} {w' : World σ} :
    w.perform d a env (.ok result) = .ok w' ↔
      w'.assemblies = Function.update w.assemblies a result.1 ∧
        result.2.foldlM (Cape.receive d a env) w.cape = .ok w'.cape := by
  simp only [perform, bind_eq_ok, pure, Except.pure, Except.ok.injEq]
  constructor
  · rintro ⟨c, hc, rfl⟩
    exact ⟨rfl, hc⟩
  · rintro ⟨hasm, hc⟩
    exact ⟨w'.cape, hc, by rw [← hasm]⟩

@[simp] theorem perform_modifyAssembly (f : Assembly σ → Assembly σ)
    (r : Except Fault (Assembly σ × List Output)) :
    (w.modifyAssembly a f).perform d a env r = w.perform d a env r := by
  cases r with
  | error fault => rfl
  | ok r => simp [perform, modifyAssembly]

theorem perform_then (f : Assembly σ → Assembly σ)
    (result : Assembly σ × List Output) :
    (w.perform d a env (.ok result) >>= fun w' => pure (w'.modifyAssembly a f)) =
      w.perform d a env (.ok (f result.1, result.2)) := by
  simp [perform, modifyAssembly]

theorem myInstanceStateGet_eq :
    w.perform d a env ((w.assemblies a).poll env) = ssh.myInstanceStateGet w a env := by
  unfold Assembly.poll Transport.myInstanceStateGet
  rcases instanceStateGet env.stateReply with fault | _ | ⟨status, address⟩
  · rfl
  · simp [perform, pure, Except.pure, bind, Except.bind]
  · by_cases hactive : status = "ACTIVE".toList
    · cases address with
      | none => simp [hactive, perform]
      | some address =>
          simp [hactive, perform, Cape.receive, ssh, core, modifyCape, modifyAssembly,
            pure, Except.pure, bind, Except.bind]
    · simp only [hactive, if_false]
      rw [← perform_then (fun asm => asm.timerAdd .myInstanceStateGet),
        nodeRecoverSet_eq]
      rfl

theorem assemblyConnected_eq :
    w.perform d a env ((w.assemblies a).up env) = w.assemblyConnected a env := by
  unfold Assembly.up assemblyConnected
  have hset : w.perform d a env (.ok ((w.assemblies a).recoverSet env.now .running)) = _ :=
    nodeRecoverSet_eq .running
  obtain ⟨hasm, hcape⟩ := perform_eq_ok.mp hset
  simp only [hasm, Function.update_self]
  cases ((w.assemblies a).recoverSet env.now .running).1.assemblyHealthcheck with
  | error fault => rfl
  | ok asm => exact perform_eq_ok.mpr ⟨by simp [setAssembly, hasm], hcape⟩

theorem sshAssemblyConnect_eq :
    w.perform d a env ((w.assemblies a).handshake env) =
      w.sshAssemblyConnect a env := by
  unfold Assembly.handshake sshAssemblyConnect
  cases (w.assemblies a).transport with
  | none => rfl
  | some t =>
      cases hout : Assembly.connectOutcome env ((w.assemblies a).trans t).sshState
      case again | failed => simp [hout, perform, modifyAssembly, pure, Except.pure,
        bind, Except.bind]
      case assertion => simp [hout, perform]
      case keepalive =>
          simp only [hout]
          rw [← assemblyConnected_eq (d := d)]
          simp [modifyAssembly, perform]
      case connected =>
          simp only [hout]
          exact assemblyConnected_eq

theorem assemblyHealthcheckFailed_eq :
    w.perform d a env ((w.assemblies a).unhealthy env) =
      w.assemblyHealthcheckFailed a env := by
  unfold Assembly.unhealthy assemblyHealthcheckFailed
  cases (w.assemblies a).transport with
  | none => rfl
  | some t =>
      simp only [← nodeRecoverSet_eq (d := d), perform_modifyAssembly]
      simp [modifyAssembly]

theorem assemblyHealthcheckCompletion_eq (sshRc : Int) :
    w.perform d a env ((w.assemblies a).completed .healthcheck env sshRc) =
      w.assemblyHealthcheckCompletion a env sshRc := by
  unfold Assembly.completed assemblyHealthcheckCompletion
  by_cases hrc : sshRc = 0
  · by_cases hrunning : (w.assemblies a).recover.state = .running
    · cases htransport : (w.assemblies a).transport <;>
        simp [hrc, hrunning, perform, modifyAssembly,
          Assembly.healthcheckTimerAdd, pure, Except.pure, bind, Except.bind]
    · simp [hrc, hrunning, perform, pure, Except.pure, bind, Except.bind]
  · simp [hrc, assemblyHealthcheckFailed_eq]

theorem sshOpComplete_eq (s : Nat) (sshRc : Int) :
    w.perform d a env (((w.assemblies a).sshOpDequeue s).completed
        ((w.assemblies a).sshOps s).callback env sshRc) =
      w.sshOpComplete d a s env sshRc := by
  unfold sshOpComplete
  cases hcallback : ((w.assemblies a).sshOps s).callback with
  | healthcheck =>
      simp only [← assemblyHealthcheckCompletion_eq (d := d),
        perform_modifyAssembly]
      simp [modifyAssembly]
  | resourceAction o =>
      simp [Assembly.completed, perform, modifyAssembly, Cape.receive]

theorem assemblySshExec_eq (s : Nat) :
    w.perform d a env ((w.assemblies a).exec s env) =
      w.assemblySshExec d a s env := by
  unfold Assembly.exec assemblySshExec
  by_cases hstate : ((w.assemblies a).trans
      ((w.assemblies a).sshOps s).transport).sshState = .sessionConnected
  case neg => simp [hstate, perform]
  cases hout : Assembly.execOutcome env ((w.assemblies a).sshOps s)
  case again | openFailed | assertion =>
      simp [hstate, hout, perform, modifyAssembly, pure, Except.pure, bind,
        Except.bind]
  case complete sshRc =>
      simp only [hstate, hout, ne_eq, not_true, if_false, ← sshOpComplete_eq]
      cases ((w.assemblies a).sshOpDequeue s).completed
          ((w.assemblies a).sshOps s).callback env sshRc with
      | error fault => rfl
      | ok result =>
          rw [perform_then (fun asm => asm.transportSchedule _) result]

theorem sshTimeout_eq (s : Nat) :
    w.perform d a env ((w.assemblies a).timeout s env) = w.sshTimeout a s env := by
  unfold Assembly.timeout sshTimeout
  cases ((w.assemblies a).sshOps s).callback with
  | healthcheck =>
      simp only [← assemblyHealthcheckFailed_eq (d := d), perform_modifyAssembly]
      simp [modifyAssembly]
  | resourceAction o =>
      simp only [← nodeRecoverSet_eq (d := d), perform_modifyAssembly]
      simp [modifyAssembly]

theorem dispatchJob_eq (job : AssemblyJob) :
    w.dispatchJob d a env job =
      w.perform d a env ((w.assemblies a).reactJob env job) := by
  cases job with
  | myInstanceStateGet => exact myInstanceStateGet_eq.symm
  | connectExecute =>
      simp only [dispatchJob, Assembly.reactJob]
      cases (w.assemblies a).connectExecute env with
      | error fault => rfl
      | ok asm => rfl
  | sshAssemblyConnect => exact sshAssemblyConnect_eq.symm
  | assemblySshExec s => exact (assemblySshExec_eq s).symm

theorem dispatchTimer_eq (timer : AssemblyTimer) :
    w.dispatchTimer a env timer =
      w.perform d a env ((w.assemblies a).reactTimer env timer) := by
  cases timer with
  | myInstanceStateGet => exact myInstanceStateGet_eq.symm
  | sshTimeout s => exact (sshTimeout_eq s).symm
  | sshKeepaliveSend t => rfl
  | assemblyHealthcheck =>
      simp only [dispatchTimer, Assembly.reactTimer]
      cases (w.assemblies a).assemblyHealthcheck with
      | error fault => rfl
      | ok asm => rfl

end World

end PacemakerCloud

import PacemakerCloud.Cape.Actions

/-!
# The core of the daemon

`cape.c` and `inst_ctrl.c` are linked with `trans_ssh.c` or with `trans_cim.c`.  Their
functions that lead into the transport are written here once, over what they see of the
daemon; a transport supplies the rest.
-/

namespace PacemakerCloud

open Foundation

/-- What `inst_ctrl.c` reads and writes: the state of `cape.c`, and the loop. -/
structure Core (ω σ : Type) where
  cape : ω → Cape σ
  modifyCape : ω → (Cape σ → Cape σ) → ω
  /-- `a->recover`. -/
  recover : ω → CString → Recover σ
  /-- `my_instance_state_get` is added to the loop, at once or after a while. -/
  pollJob : ω → CString → ω
  pollTimer : ω → CString → ω

structure Transport (ω σ : Type) extends Core ω σ where
  /-- `recover_state_set (&a->recover, RECOVER_STATE_UNKNOWN)`. -/
  setUnknown : ω → CString → Env → ω
  transportConnect : ω → CString → ω
  transportResourceAction : ω → CString → Nat → Except Fault ω

variable {ω σ : Type}

def Core.instanceCreate (core : Core ω σ) (w : ω) (a : CString) (env : Env) : ω :=
  core.pollJob (core.modifyCape w (·.instanceRequests a env)) a

namespace Transport

variable (t : Transport ω σ)

def myInstanceStateGet (w : ω) (a : CString) (env : Env) : Except Fault ω :=
  match instanceStateGet env.stateReply with
  | .error _ => .error .nullReply
  | .ok none => .ok w
  | .ok (some (status, address)) =>
      if status = "ACTIVE".toList then
        match address with
        | none => .error .nullAddress
        | some address =>
            .ok (t.transportConnect
              (t.modifyCape w (·.modifyCloud a ({ · with address := some address }))) a)
      else .ok (t.pollTimer (t.setUnknown w a env) a)

/-! ## Executing operations -/

/-- A stop of the resource was processed; it only marks the history variable. -/
def stopProcessed (w : ω) (r : Option ResourceId) : ω :=
  match r with
  | some r => t.modifyCape w (·.modifyResource r ({ · with stopped := true }))
  | none => w

variable [Stopwatch σ]

def resourceMonitorExecute (d : Deployable) (w : ω) (env : Env) (o : Nat) :
    Except Fault ω :=
  let op := (t.cape w).ops o
  match d.assembly? op.hostname with
  | none => .error .nullAssembly
  | some _ =>
      if (t.recover w op.hostname).state ≠ .running then do
        let c ← (t.cape w).resourceActionCompleted d env o ocfUnknownError
        return t.modifyCape w fun _ => c
      else t.transportResourceAction w op.hostname o

def recurringMonitorStart (d : Deployable) (w : ω) (env : Env) (r : ResourceId) (o : Nat) :
    Except Fault ω :=
  let w := t.modifyCape w (·.modifyResource r ({ · with stopped := false }))
  if (t.cape w).timerIsRunning ((t.cape w).resources r).monitorTimer then
    .ok (t.modifyCape w fun c => (c.peResourceCompleted o ocfOk).peResourceUnref o)
  else
    t.resourceMonitorExecute d
      (t.modifyCape w fun c =>
        (c.peResourceRef o).modifyResource r ({ · with monitorOp := some o })) env o

def resourceExecuteOffline (d : Deployable) (w : ω) (env : Env) (o : Nat) :
    Except Fault ω := do
  let op := (t.cape w).ops o
  let c ← (t.cape w).resourceActionCompleted d env o ocfUnknownError
  let w := t.modifyCape w fun _ => c
  return if op.method = .stop then
    t.stopProcessed w (d.resource? op.hostname op.rname) else w

def resourceExecuteCb (d : Deployable) (w : ω) (env : Env) (o : Nat) : Except Fault ω :=
  let op := (t.cape w).ops o
  match d.assembly? op.hostname with
  | none => .error .nullAssembly
  | some _ =>
      let resource := d.resource? op.hostname op.rname
      if (t.recover w op.hostname).state ≠ .running then
        t.resourceExecuteOffline d w env o
      else
        let w := t.modifyCape w (·.modifyOp o ({ · with resource := resource }))
        match op.method with
        | .monitor =>
            if strstr op.rname op.hostname then
              match resource with
              | none => .error .nullResource
              | some r =>
                  if 0 < op.interval then t.recurringMonitorStart d w env r o
                  else t.resourceMonitorExecute d w env o
            else
              .ok (t.modifyCape w fun c =>
                (c.peResourceCompleted o ocfNotRunning).peResourceUnref o)
        | .start => t.transportResourceAction w op.hostname o
        | .stop =>
            match resource with
            | none => .error .nullResource
            | some r => do
                let w := t.modifyCape w (·.stopMonitor r)
                let w ← t.transportResourceAction w op.hostname o
                return t.stopProcessed w (some r)
        | .delete => .ok (t.modifyCape w (·.opHistoryDelete o))
        | .other _ => .error .assertion

end Transport

end PacemakerCloud

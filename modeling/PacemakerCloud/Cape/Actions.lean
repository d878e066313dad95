import PacemakerCloud.Cape.State
import PacemakerCloud.Environment

/-!
# Operations and their completion

The functions of `cape.c` and `pcmk_pe.c` that follow an operation of the policy
engine: its reference count, its entry in the operation history, its resource's
recovery record, and the timer of a recurring monitor.  None of them touches the
assemblies or their transports.
-/

namespace PacemakerCloud

open Foundation

/-! ## `pcmk_pe.c` -/

def peResourceIsHardError (ec : Int) : Bool :=
  ec = ocfInvalidParam || ec = ocfUnimplementFeature ||
    ec = ocfInsufficientPriv || ec = ocfNotInstalled || ec = ocfNotConfigured

def peResourceOcfExitcodeGet (op : PeOperation) (lsbExitcode : Int) : Int :=
  if op.rclass = "lsb".toList ∧ op.method = .monitor then
    if lsbExitcode = 0 then ocfOk
    else if lsbExitcode = 1 ∨ lsbExitcode = 2 ∨ lsbExitcode = 3 then ocfNotRunning
    else ocfUnknownError
  else if 7 < lsbExitcode then ocfUnknownError
  else lsbExitcode

def PeOperation.exitcode (op : PeOperation) (sshRc : Int) : Int :=
  if op.rclass = "lsb".toList then peResourceOcfExitcodeGet op sshRc else sshRc

/-- `pe_exitcode != op->target_outcome`, a comparison of unsigned numbers. -/
def PeOperation.Unexpected (op : PeOperation) (ec : Int) : Prop :=
  toUInt32 ec ≠ op.targetOutcome

instance (op : PeOperation) (ec : Int) : Decidable (op.Unexpected ec) :=
  inferInstanceAs (Decidable (_ ≠ _))

namespace Cape

variable {σ : Type}

def peResourceRef (c : Cape σ) (o : Nat) : Cape σ :=
  c.modifyOp o fun op => { op with refcount := (op.refcount + 1) % 2 ^ 32 }

def digestFree (c : Cape σ) (digest : Nat) : Cape σ :=
  { c with
    digests := Function.update c.digests digest
      { c.digests digest with live := false } }

def uint32Pred (n : Nat) : Nat :=
  if n = 0 then 2 ^ 32 - 1 else n - 1

def peResourceUnref (c : Cape σ) (o : Nat) : Cape σ :=
  -- at zero the strings of the operation are freed
  let count := uint32Pred (c.ops o).refcount
  let dropped := c.modifyOp o fun op =>
    { op with
      refcount := count
      unrefAtZero := op.unrefAtZero || op.refcount == 0 }
  if count = 0 then dropped.digestFree (c.ops o).opDigest else dropped

def peResourceCompleted (c : Cape σ) (o : Nat) (returnCode : Int) : Cape σ :=
  -- nothing is confirmed without a working set
  { c with
    pe :=
      { c.pe with
        completions :=
          ⟨o, c.pe.workingSet, toUInt32 returnCode⟩ :: c.pe.completions
        graphUpdated := c.pe.graphUpdated || c.pe.workingSet.isSome } }

def Confirmed (c : Cape σ) (o : Nat) : Prop :=
  ∃ e ∈ c.pe.completions, e.op = o ∧ e.workingSet.isSome

instance (c : Cape σ) (o : Nat) : Decidable (c.Confirmed o) :=
  inferInstanceAs (Decidable (∃ e ∈ _, _))

/-! ## The operation history -/

def methodNameMax : Nat := 20

def opNameMax : Nat := 15

/-- The key of an operation; the interval is printed as a signed number. -/
def opHistoryKey (op : PeOperation) : CString :=
  snprintf (resourceNameMax + methodNameMax + opNameMax + 3)
    (op.rname ++ '_' :: op.method.text ++ '_' :: printInt (toInt32 op.interval))

def historyPut : List OperationHistory → OperationHistory → List OperationHistory :=
  mapPut OperationHistory.rscId

/-- The entry `op_history_save` works on, and the digests it leaves. -/
def opHistoryEntry (c : Cape σ) (r : ResourceId) (op : PeOperation) :
    Cape σ × OperationHistory :=
  match c.history.find? (·.rscId = opHistoryKey op) with
  | none =>
      ({ c with
          digests := Function.update c.digests c.digestCount
            ⟨(c.digests op.opDigest).text, true⟩
          digestCount := c.digestCount + 1 },
        { rscId := opHistoryKey op
          operation := op.method
          callId := 0
          interval := op.interval
          rc := ocfPending
          targetOutcome := op.targetOutcome
          lastRun := 0
          lastRcChange := 0
          graphId := 0
          actionId := 0
          opDigest := c.digestCount
          resource := r })
  | some oh =>
      if (c.digests oh.opDigest).text ≠ (c.digests op.opDigest).text then
        -- the entry now shares the string of the operation
        (c.digestFree oh.opDigest, { oh with opDigest := op.opDigest })
      else (c, oh)

def opHistorySave (c : Cape σ) (now : Nat) (r : ResourceId) (o : Nat) (ec : Int) :
    Cape σ :=
  let op := c.ops o
  let (c, oh) := c.opHistoryEntry r op
  let time := now / usInSec
  let changed :=
    if oh.rc ≠ ec then { oh with lastRcChange := time, rc := ec } else oh
  { c with
    history := historyPut c.history
      { changed with
        lastRun := time
        callId := c.callOrder
        graphId := op.graphId
        actionId := op.actionId }
    callOrder := c.callOrder + 1 }

/-! ## Recurring monitors -/

/--
`recurring_monitor_stop`.  An operation that is some resource's `monitor_op` has
its `resource` set.
-/
def recurringMonitorStop (c : Cape σ) (o : Nat) : Cape σ :=
  match (c.ops o).resource with
  | none => c
  | some r =>
      let c :=
        if c.timerIsRunning (c.resources r).monitorTimer then
          (c.timerDel (c.resources r).monitorTimer).peResourceUnref o
        else c
      (c.modifyResource r ({ · with monitorOp := none })).peResourceUnref o

def stopMonitor (c : Cape σ) (r : ResourceId) : Cape σ :=
  match (c.resources r).monitorOp with
  | some o => c.recurringMonitorStop o
  | none => c

def stopWaitingMonitor (c : Cape σ) (r : ResourceId) : Cape σ :=
  if c.timerIsRunning (c.resources r).monitorTimer then c.stopMonitor r else c

/-- One entry of the loops below: stop a waiting monitor, then drop the entry. -/
def clearEntry (c : Cape σ) (oh : OperationHistory) : Cape σ :=
  let c := c.stopWaitingMonitor oh.resource
  { c with history := c.history.filter (·.rscId ≠ oh.rscId) }.digestFree
    oh.opDigest

def clearHistory (c : Cape σ) (drop : ResourceId → Bool) : Cape σ :=
  c.history.foldl
    (fun c oh => if drop oh.resource then c.clearEntry oh else c) c

def nodeOpHistoryClear (c : Cape σ) (a : CString) : Cape σ :=
  let c := c.clearHistory fun r => r.assembly = a
  { c with
    resources := fun r =>
      if r.assembly = a then { c.resources r with stopped := true }
      else c.resources r }

def opHistoryDelete (c : Cape σ) (o : Nat) : Cape σ :=
  let c := c.clearHistory fun r => some r = (c.ops o).resource
  (c.peResourceCompleted o ocfOk).peResourceUnref o

/-! ## Resources -/

/-- The two requests of `instance_create`, with their completion functions. -/
def instanceRequests (c : Cape σ) (a : CString) (env : Env) : Cape σ :=
  c.modifyCloud a fun i =>
    { i with
      imageId := env.imageReply.getD i.imageId
      instanceId :=
        match env.createReply with
        | .created instanceId => instanceId
        | _ => i.instanceId
      live := i.live ++ env.createReply.instance?.toList }

/-- `instance_destroy`, with the completion function that clears the id. -/
def instanceDestroy (c : Cape σ) (a : CString) (reply : DestroyReply) : Cape σ :=
  c.modifyCloud a fun i =>
    { i with
      live := if reply.destroyed then i.live.erase i.instanceId else i.live
      instanceId := if reply.completed then [] else i.instanceId }

def resourceRecoverRestart (c : Cape σ) (r : ResourceId) : Cape σ :=
  c.timerDel (c.resources r).monitorTimer

def resourceRecoverEscalate (c : Cape σ) (r : ResourceId) (reply : DestroyReply) :
    Cape σ :=
  (c.timerDel (c.resources r).monitorTimer).instanceDestroy r.assembly reply

def resourceCallback (env : Env) (r : ResourceId) (c : Cape σ) :
    RecoverCall → Cape σ
  | .stateChanging _ _ => c
  | .restart => c.resourceRecoverRestart r
  | .escalate => c.resourceRecoverEscalate r env.destroyReply

variable [Stopwatch σ]

def resourceRecoverSet (c : Cape σ) (env : Env) (r : ResourceId)
    (state : RecoverState) : Cape σ :=
  let result := recoverStateSet (c.resources r).recover env.now state
  result.2.foldl (resourceCallback env r)
    (c.modifyResource r ({ · with recover := result.1 }))

def resourceStateOf (op : PeOperation) (ec : Int) : Option RecoverState :=
  match op.method with
  | .monitor =>
      if ec = ocfOk then some .running
      else if op.interval = 0 then some .stopped
      else some .failed
  | .start =>
      if ec = ocfOk then some .running
      else if peResourceIsHardError ec then some .unrecoverable
      else some .unknown
  | .stop =>
      if ec = ocfOk then some .stopped
      else if peResourceIsHardError ec then some .unrecoverable
      else some .unknown
  | .delete | .other _ => none

def foundResource : Option ResourceId → Except Fault ResourceId
  | some r => .ok r
  | none => .error .nullResource

def resourceStateSet (c : Cape σ) (env : Env) (r : Option ResourceId)
    (op : PeOperation) (ec : Int) : Except Fault (Cape σ) :=
  match resourceStateOf op ec with
  | none => .ok c
  | some state => do
      let r ← foundResource r
      return c.resourceRecoverSet env r state

/--
The history of an operation, kept if its name is one of the node's.  An entry
without a resource counts as a fault already here: `process` will follow it.
-/
def opHistoryRecord (c : Cape σ) (env : Env) (r : Option ResourceId) (o : Nat)
    (ec : Int) : Except Fault (Cape σ) :=
  if strstr (c.ops o).rname (c.ops o).hostname then do
    let r ← foundResource r
    return c.opHistorySave env.now r o ec
  else return c

/-- The end of `resource_action_completed`: release, or wait for the interval. -/
def resourceActionRelease (c : Cape σ) (r : Option ResourceId) (o : Nat) (ec : Int) :
    Except Fault (Cape σ) :=
  if 0 < (c.ops o).interval then
    if (c.ops o).Unexpected ec then return c.peResourceUnref o
    else do
      let r ← foundResource r
      return c.monitorTimerAdd r o
  else return c.peResourceUnref o

def timesExecutedAdd (c : Cape σ) (o : Nat) : Cape σ :=
  c.modifyOp o fun op =>
    { op with
      timesExecuted := (op.timesExecuted + 1) % 2 ^ 32
      executions := op.executions + 1 }

def confirmFirst (c : Cape σ) (o : Nat) (ec : Int) : Cape σ :=
  if (c.ops o).timesExecuted ≤ 1 then c.peResourceCompleted o ec else c

def resourceActionCompleted (d : Deployable) (c : Cape σ) (env : Env) (o : Nat)
    (ec : Int) : Except Fault (Cape σ) :=
  let op := c.ops o
  match d.assembly? op.hostname with
  | none => .error .nullAssembly
  | some _ => do
      let r := d.resource? op.hostname op.rname
      let c ← (c.timesExecutedAdd o).opHistoryRecord env r o ec
      let c ← (c.confirmFirst o ec).resourceStateSet env r op ec
      let c := if op.Unexpected ec then c.scheduleProcessing else c
      c.resourceActionRelease r o ec

def resourceActionCompletion (d : Deployable) (c : Cape σ) (env : Env) (o : Nat)
    (sshRc : Int) : Except Fault (Cape σ) := do
  let c ← c.resourceActionCompleted d env o ((c.ops o).exitcode sshRc)
  return c.peResourceUnref o

end Cape

end PacemakerCloud

import PacemakerCloud.Deployable
import PacemakerCloud.Recover
import Mathlib.Logic.Function.Basic

/-!
# The state of the policy daemon

The static variables of `cape.c` and `pcmk_pe.c`, with the objects they point
to.  A pointer is a number, and the object it points to is kept when the code
frees it: whether a freed object is still used is a question for the theorems.
The state of the assemblies themselves (recovery record, transport, pending
jobs) is in `Assembly`.
-/

namespace PacemakerCloud

open Foundation

/-- Where the process ends on its own: a null pointer is followed, or `assert`. -/
inductive Fault where
  | nullAssembly
  | nullResource
  | nullTransport
  | nullAddress
  | nullReply
  | assertion
  deriving DecidableEq, Repr

/-- `op->method`, with the four names the code compares it to. -/
inductive Method where
  | monitor
  | start
  | stop
  | delete
  | other (name : CString)
  deriving DecidableEq, Repr

def Method.text : Method → CString
  | .monitor => "monitor".toList
  | .start => "start".toList
  | .stop => "stop".toList
  | .delete => "delete".toList
  | .other name => name

/-- `enum ocf_exitcode`; a transport may pass on any other number as well. -/
def ocfPending : Int := -1
def ocfOk : Int := 0
def ocfUnknownError : Int := 1
def ocfInvalidParam : Int := 2
def ocfUnimplementFeature : Int := 3
def ocfInsufficientPriv : Int := 4
def ocfNotInstalled : Int := 5
def ocfNotConfigured : Int := 6
def ocfNotRunning : Int := 7

/--
`struct pe_operation`.  The last two fields are history variables: how often the
operation was completed, and whether a reference was dropped at count zero.
-/
structure PeOperation where
  hostname : CString
  method : Method
  rname : CString
  rclass : CString
  rprovider : Option CString
  rtype : CString
  params : List (CString × CString)
  opDigest : Nat
  timesExecuted : Nat
  interval : Nat
  targetOutcome : Nat
  graph : Nat
  resource : Option ResourceId
  graphId : Nat
  actionId : Nat
  refcount : Nat
  executions : Nat
  unrefAtZero : Bool

/--
`struct resource`, the part that changes.  `stopped` is a history variable: a
stop was processed, or the node's history cleared, and no recurring monitor was
started since.
-/
structure Resource (σ : Type) where
  monitorOp : Option Nat
  monitorTimer : Nat
  recover : Recover σ
  stopped : Bool

/-- `struct operation_history`; `rscId` is the key in `op_history_map`. -/
structure OperationHistory where
  rscId : CString
  operation : Method
  callId : Nat
  interval : Nat
  rc : Int
  targetOutcome : Nat
  lastRun : Nat
  lastRcChange : Nat
  graphId : Nat
  actionId : Nat
  opDigest : Nat
  resource : ResourceId
  deriving DecidableEq, Repr

structure Digest where
  text : CString
  live : Bool
  deriving DecidableEq, Repr

def Digest.read (digest : Digest) : Option CString :=
  if digest.live then some digest.text else none

/-- One call of `pe_resource_completed`, with the transition it found in progress. -/
structure PeCompletion where
  op : Nat
  workingSet : Option Nat
  returnCode : Nat
  deriving DecidableEq, Repr

/--
The variables of `pcmk_pe.c`.  A transition is a number.  `inRunGraph` holds
while `run_graph` is on the stack, and `completions` are the calls of
`pe_resource_completed` so far, newest first.
-/
structure PolicyEngine where
  workingSet : Option Nat
  graphUpdated : Bool
  transitionCount : Nat
  nextJobs : List Nat
  inRunGraph : Option Nat
  completions : List PeCompletion
  deriving DecidableEq, Repr

/--
The instance fields of `struct assembly`.  `live` are the instances that were
created for the assembly and not destroyed.
-/
structure Instance where
  imageId : CString
  instanceId : CString
  address : Option CString
  live : List CString
  deriving DecidableEq, Repr

/--
The variables of `cape.c`.  `monitorTimers` are the armed timers that run
`resource_monitor_execute`, each with its handle and its operation;
`processJobs` is the number of queued `process_job`s; `handed` are the
operations that were handed to the transport.
-/
structure Cape (σ : Type) where
  ops : Nat → PeOperation
  opCount : Nat
  resources : ResourceId → Resource σ
  monitorTimers : List (Nat × Nat)
  timerCount : Nat
  history : List OperationHistory
  callOrder : Nat
  digests : Nat → Digest
  digestCount : Nat
  processJobs : Nat
  handed : List Nat
  pe : PolicyEngine
  cloud : CString → Instance

namespace Cape

variable {σ : Type}

def modifyOp (c : Cape σ) (o : Nat) (f : PeOperation → PeOperation) : Cape σ :=
  { c with ops := Function.update c.ops o (f (c.ops o)) }

def modifyResource (c : Cape σ) (r : ResourceId) (f : Resource σ → Resource σ) :
    Cape σ :=
  { c with resources := Function.update c.resources r (f (c.resources r)) }

def modifyCloud (c : Cape σ) (a : CString) (f : Instance → Instance) : Cape σ :=
  { c with cloud := Function.update c.cloud a (f (c.cloud a)) }

def timerIsRunning (c : Cape σ) (handle : Nat) : Bool :=
  c.monitorTimers.any (·.1 = handle)

def timerDel (c : Cape σ) (handle : Nat) : Cape σ :=
  { c with monitorTimers := c.monitorTimers.filter (·.1 ≠ handle) }

def monitorTimerAdd (c : Cape σ) (r : ResourceId) (o : Nat) : Cape σ :=
  { c with
    monitorTimers := c.monitorTimers ++ [(c.timerCount + 1, o)]
    timerCount := c.timerCount + 1
    resources := Function.update c.resources r
      { c.resources r with monitorTimer := c.timerCount + 1 } }

def scheduleProcessing (c : Cape σ) : Cape σ :=
  { c with processJobs := c.processJobs + 1 }

end Cape

end PacemakerCloud

import PacemakerCloud.Cape.State
import PacemakerCloud.Environment

/-!
# Assemblies and their SSH transport

The part of `trans_ssh.c` and `inst_ctrl.c` that concerns one assembly: the
transport objects made for it, the commands queued on them, and the jobs and
timers of the event loop that will run one of its handlers.  Any pending job or
timer may be dispatched next, so the loop's queue is kept per assembly and
without an order.
-/

namespace PacemakerCloud

open Foundation

inductive SshState where
  | sessionConnecting
  | sessionInit
  | sessionStartup
  | userauthPublickeyFromfile
  | keepaliveConfig
  | sessionConnected
  deriving DecidableEq, Repr

/--
The pair of callbacks of a queued command: the health check of the assembly, or
a resource action with its `ra_op`.
-/
inductive SshCallback where
  | healthcheck
  | resourceAction (op : Nat)
  deriving DecidableEq, Repr

structure SshOp where
  sshRc : Int
  sshTimer : Nat
  execState : SshExecState
  callback : SshCallback
  command : CString
  transport : Nat
  deriving DecidableEq, Repr

/-- `struct trans_ssh`; `queue` is `ssh_op_head`, and `freed` marks a freed object. -/
structure TransSsh where
  sshState : SshState
  keepaliveTimer : Nat
  queue : List Nat
  scheduled : Bool
  healthcheckTimer : Nat
  freed : Bool
  deriving DecidableEq, Repr

inductive AssemblyJob where
  | myInstanceStateGet
  | connectExecute
  | sshAssemblyConnect
  | assemblySshExec (s : Nat)
  deriving DecidableEq, Repr

inductive AssemblyTimer where
  | myInstanceStateGet
  | sshTimeout (s : Nat)
  | sshKeepaliveSend (t : Nat)
  | assemblyHealthcheck
  deriving DecidableEq, Repr

/-- `struct assembly`, less its names and its instance. -/
structure Assembly (σ : Type) where
  recover : Recover σ
  transport : Option Nat
  trans : Nat → TransSsh
  transCount : Nat
  sshOps : Nat → SshOp
  sshCount : Nat
  jobs : List AssemblyJob
  timers : List (Nat × AssemblyTimer)
  timerCount : Nat

def commandMax : Nat := 32000

namespace Assembly

variable {σ : Type}

def modifyTrans (a : Assembly σ) (t : Nat) (f : TransSsh → TransSsh) : Assembly σ :=
  { a with trans := Function.update a.trans t (f (a.trans t)) }

def modifySshOp (a : Assembly σ) (s : Nat) (f : SshOp → SshOp) : Assembly σ :=
  { a with sshOps := Function.update a.sshOps s (f (a.sshOps s)) }

/-! ## The event loop -/

def jobAdd (a : Assembly σ) (job : AssemblyJob) : Assembly σ :=
  { a with jobs := a.jobs ++ [job] }

/-- `qb_loop_job_del`: one pending job with this function and argument. -/
def jobDel (a : Assembly σ) (job : AssemblyJob) : Assembly σ :=
  { a with jobs := a.jobs.erase job }

/-- `qb_loop_timer_add`; the new handle is `timerCount + 1`. -/
def timerAdd (a : Assembly σ) (timer : AssemblyTimer) : Assembly σ :=
  { a with
    timers := a.timers ++ [(a.timerCount + 1, timer)]
    timerCount := a.timerCount + 1 }

/-- `qb_loop_timer_del`, without effect on a handle that is not armed. -/
def timerDel (a : Assembly σ) (handle : Nat) : Assembly σ :=
  { a with timers := a.timers.filter (·.1 ≠ handle) }

/-! ## Commands -/

def transportSchedule (a : Assembly σ) (t : Nat) : Assembly σ :=
  match (a.trans t).queue with
  | s :: _ =>
      (a.modifyTrans t ({ · with scheduled := true })).jobAdd (.assemblySshExec s)
  | [] => a.modifyTrans t ({ · with scheduled := false })

def transportUnschedule (a : Assembly σ) (t : Nat) : Assembly σ :=
  if (a.trans t).scheduled then
    let a' := a.modifyTrans t ({ · with scheduled := false })
    match (a.trans t).queue with
    | s :: _ => a'.jobDel (.assemblySshExec s)
    | [] => a'
  else a

def transportFailed (a : Assembly σ) (t : Nat) : Assembly σ :=
  a.timerDel (a.trans t).keepaliveTimer

def deleteQueue (a : Assembly σ) (t : Nat) : Assembly σ :=
  ((a.trans t).queue.foldl (fun a s => a.timerDel (a.sshOps s).sshTimer)
    a).modifyTrans t ({ · with queue := [] })

/-- `ssh_timeout` up to the call of `timeout_func`. -/
def sshTimeoutFlush (a : Assembly σ) (s : Nat) : Assembly σ :=
  let t := (a.sshOps s).transport
  (a.transportUnschedule t).deleteQueue t

/-- `ssh_op_complete` up to the call of `completion_func`. -/
def sshOpDequeue (a : Assembly σ) (s : Nat) : Assembly σ :=
  (a.timerDel (a.sshOps s).sshTimer).modifyTrans (a.sshOps s).transport
    fun trans => { trans with queue := trans.queue.erase s }

def transportExecute (a : Assembly σ) (callback : SshCallback)
    (command : CString) : Except Fault (Assembly σ) :=
  match a.transport with
  | none => .error .assertion
  | some t =>
      if (a.trans t).sshState ≠ .sessionConnected then .ok a
      else
        let s := a.sshCount
        let op : SshOp :=
          { sshRc := 0
            sshTimer := 0
            execState := .channelOpen
            callback := callback
            command := snprintf commandMax command
            transport := t }
        let queued :=
          { a with
            sshOps := Function.update a.sshOps s op
            sshCount := s + 1 }.modifyTrans t
              fun trans => { trans with queue := trans.queue ++ [s] }
        let scheduled :=
          if (a.trans t).scheduled then queued else queued.transportSchedule t
        .ok ((scheduled.timerAdd (.sshTimeout s)).modifySshOp s
          ({ · with sshTimer := a.timerCount + 1 }))

def assemblyHealthcheck (a : Assembly σ) : Except Fault (Assembly σ) :=
  a.transportExecute .healthcheck "uptime".toList

/-! ## Running a command -/

inductive ExecOutcome where
  /-- A call would block: the command waits in this state. -/
  | again (state : SshExecState) (sshRc : Int)
  /-- The session could not be opened. -/
  | openFailed
  /-- A result the code asserts never to see. -/
  | assertion
  /-- The channel is freed. -/
  | complete (sshRc : Int)
  deriving DecidableEq, Repr

/-- The states of `assembly_ssh_exec`, from the given one on. -/
def execStages : SshExecState → List SshExecState
  | .channelOpen =>
      [.channelOpen, .channelExec, .channelSendEof, .channelWaitEof,
        .channelClose, .channelRead, .channelReadStderr, .channelWaitClosed,
        .channelFree]
  | .channelExec =>
      [.channelExec, .channelSendEof, .channelWaitEof, .channelClose,
        .channelRead, .channelReadStderr, .channelWaitClosed, .channelFree]
  | .channelSendEof =>
      [.channelSendEof, .channelWaitEof, .channelClose, .channelRead,
        .channelReadStderr, .channelWaitClosed, .channelFree]
  | .channelWaitEof =>
      [.channelWaitEof, .channelClose, .channelRead, .channelReadStderr,
        .channelWaitClosed, .channelFree]
  | .channelClose =>
      [.channelClose, .channelRead, .channelReadStderr, .channelWaitClosed,
        .channelFree]
  | .channelRead =>
      [.channelRead, .channelReadStderr, .channelWaitClosed, .channelFree]
  | .channelReadStderr => [.channelReadStderr, .channelWaitClosed, .channelFree]
  | .channelWaitClosed => [.channelWaitClosed, .channelFree]
  | .channelFree => [.channelFree]

def runStages (env : Env) : List SshExecState → Int → ExecOutcome
  | [], sshRc => .complete sshRc
  | state :: states, sshRc =>
      match env.exec state with
      | .eagain => .again state sshRc
      | .error =>
          if state = .channelOpen then .openFailed else .assertion
      | .ok =>
          -- the exit status is read once the channel is closed
          runStages env states
            (if state = .channelWaitClosed then env.exitStatus else sshRc)

def execOutcome (env : Env) (op : SshOp) : ExecOutcome :=
  runStages env (execStages op.execState) op.sshRc

/-- The label `job_repeat_schedule` of `assembly_ssh_exec`. -/
def execAgain (a : Assembly σ) (s : Nat) (state : SshExecState) (sshRc : Int) :
    Assembly σ :=
  (a.modifySshOp s ({ · with execState := state, sshRc := sshRc })).jobAdd
    (.assemblySshExec s)

/-! ## Connecting -/

/-- `ssh_keepalive_send`, the timer it arms. -/
def sshKeepaliveSend (a : Assembly σ) (t : Nat) : Assembly σ :=
  (a.timerAdd (.sshKeepaliveSend t)).modifyTrans t
    ({ · with keepaliveTimer := a.timerCount + 1 })

inductive ConnectOutcome where
  /-- A call would block: the session stays in this state. -/
  | again (state : SshState)
  /-- `libssh2_session_startup` failed. -/
  | failed
  /-- The state the handler asserts never to see. -/
  | assertion
  /-- The keepalive is still to be configured. -/
  | keepalive
  /-- The session was already connected. -/
  | connected
  deriving DecidableEq, Repr

/-- The state `SSH_USERAUTH_PUBLICKEY_FROMFILE`; a failed authentication passes. -/
def connectUserauth (env : Env) : ConnectOutcome :=
  match env.userauth with
  | .eagain => .again .userauthPublickeyFromfile
  | .error => .keepalive
  | .ok => .keepalive

/-- The state `SSH_SESSION_STARTUP` and what it falls through to. -/
def connectStartup (env : Env) : ConnectOutcome :=
  match env.sessionStartup with
  | .eagain => .again .sessionStartup
  | .error => .failed
  | .ok => connectUserauth env

def connectOutcome (env : Env) : SshState → ConnectOutcome
  | .sessionInit =>
      if env.sessionInit then connectStartup env else .again .sessionInit
  | .sessionStartup => connectStartup env
  | .userauthPublickeyFromfile => connectUserauth env
  | .keepaliveConfig => .keepalive
  | .sessionConnected => .connected
  | .sessionConnecting => .assertion

def connectExecute (a : Assembly σ) (env : Env) : Except Fault (Assembly σ) :=
  match a.transport with
  | none => .error .nullTransport
  | some t =>
      if env.connected then
        .ok ((a.modifyTrans t ({ · with sshState := .sessionInit })).jobAdd
          .sshAssemblyConnect)
      else .ok (a.jobAdd .connectExecute)

def transportConnect (a : Assembly σ) : Assembly σ :=
  { a with
    transport := some a.transCount
    trans := Function.update a.trans a.transCount
      { sshState := .sessionConnecting
        keepaliveTimer := 0
        queue := []
        scheduled := false
        healthcheckTimer := 0
        freed := false }
    transCount := a.transCount + 1 }.jobAdd .connectExecute

/-- The last switch of `transport_disconnect`, with its fall-throughs. -/
def disconnectSession (a : Assembly σ) (t : Nat) : Assembly σ :=
  match (a.trans t).sshState with
  | .sessionConnected | .sessionStartup | .userauthPublickeyFromfile
  | .keepaliveConfig =>
      (a.timerDel (a.trans t).keepaliveTimer).jobDel .sshAssemblyConnect
  | .sessionInit => a.jobDel .sshAssemblyConnect
  | .sessionConnecting => a

def transportDisconnect (a : Assembly σ) : Assembly σ :=
  -- `a->transport` keeps pointing to the freed object
  match a.transport with
  | none => a
  | some t =>
      let state := (a.trans t).sshState
      let a := a.timerDel (a.trans t).healthcheckTimer
      let a := if state = .sessionInit then a.jobDel .connectExecute else a
      let a := if state ≠ .sessionConnected then a.jobDel .sshAssemblyConnect
        else a
      let a := if state = .sessionConnected then a.transportUnschedule t else a
      ((a.deleteQueue t).disconnectSession t).modifyTrans t
        ({ · with freed := true })

end Assembly

end PacemakerCloud

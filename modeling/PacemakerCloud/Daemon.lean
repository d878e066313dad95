import PacemakerCloud.Assembly
import PacemakerCloud.Transport

/-!
# The daemon

The handlers of the event loop with the SSH transport: `trans_ssh.c`, and the part of
`cape.c` that recovers assemblies.  A handler reaches a next world or ends the process
with a fault.
-/

namespace PacemakerCloud

open Foundation

structure World (σ : Type) where
  assemblies : CString → Assembly σ
  cape : Cape σ

namespace World

variable {σ : Type}

def modifyAssembly (w : World σ) (a : CString) (f : Assembly σ → Assembly σ) :
    World σ :=
  { w with
    assemblies := Function.update w.assemblies a (f (w.assemblies a)) }

def modifyCape (w : World σ) (f : Cape σ → Cape σ) : World σ :=
  { w with cape := f w.cape }

def setAssembly (w : World σ) (a : CString) (x : Assembly σ) : World σ :=
  { w with assemblies := Function.update w.assemblies a x }

/-! ## Resource actions -/

def ocfRoot : CString := "/usr/lib/ocf".toList

/-- `envs`, as `transport_resource_action` and `set_ocf_env_with_prefix` append it. -/
def ocfEnvironment (op : PeOperation) : CString :=
  "OCF_RA_VERSION_MAJOR=1 OCF_RA_VERSION_MINOR=0 OCF_ROOT=".toList ++ ocfRoot ++
    "OCF_RESOURCE_INSTANCE=".toList ++ op.rname ++
    "OCF_RESOURCE_TYPE=".toList ++ op.rtype ++
    (match op.rprovider with
      | some provider => "OCF_RESOURCE_PROVIDER=".toList ++ provider
      | none => []) ++
    op.params.flatMap fun (key, value) =>
      "OCF_RESKEY_".toList ++ key ++ '=' :: value

/-- The command line of a resource action; a null string is printed as `(null)`. -/
def resourceCommand (op : PeOperation) : CString :=
  if op.rclass = "lsb".toList then
    if op.method = .monitor then
      "systemctl status ".toList ++ op.rtype ++ ".service".toList
    else
      "systemctl ".toList ++ op.method.text ++ ' ' :: op.rtype ++
        ".service".toList
  else
    ocfEnvironment op ++ ' ' :: ocfRoot ++ "/resource.d/".toList ++
      op.rprovider.getD "(null)".toList ++ '/' :: op.rtype ++ ' ' ::
      op.method.text ++ " )".toList

def transportResourceAction (w : World σ) (a : CString) (o : Nat) :
    Except Fault (World σ) := do
  let asm ← (w.assemblies a).transportExecute (.resourceAction o)
    (resourceCommand (w.cape.ops o))
  let c := w.cape.peResourceRef o
  return { w.setAssembly a asm with cape := { c with handed := o :: c.handed } }

/-! ## Recovery of an assembly -/

def core : Core (World σ) σ where
  cape := cape
  modifyCape := modifyCape
  recover w a := (w.assemblies a).recover
  pollJob w a := w.modifyAssembly a (·.jobAdd .myInstanceStateGet)
  pollTimer w a := w.modifyAssembly a (·.timerAdd .myInstanceStateGet)

def nodeRecoverRestart (w : World σ) (a : CString) (env : Env) : World σ :=
  core.instanceCreate
    ((w.modifyAssembly a (·.transportDisconnect)).modifyCape (·.nodeOpHistoryClear a)) a env

/-- One callback of an assembly's record; `node_recover_escalate` does nothing. -/
def nodeCallback (env : Env) (a : CString) (w : World σ) : RecoverCall → World σ
  | .stateChanging _ _ => w.modifyCape (·.scheduleProcessing)
  | .restart => w.nodeRecoverRestart a env
  | .escalate => w

variable [Stopwatch σ]

/--
`recover_state_set (&a->recover, state)`.  The callback that reports the change
runs before the state is stored, but does not read it.
-/
def nodeRecoverSet (w : World σ) (a : CString) (env : Env)
    (state : RecoverState) : World σ :=
  let result := recoverStateSet (w.assemblies a).recover env.now state
  result.2.foldl (nodeCallback env a)
    (w.modifyAssembly a ({ · with recover := result.1 }))

/-! ## Commands -/

def assemblyHealthcheckFailed (w : World σ) (a : CString) (env : Env) :
    Except Fault (World σ) :=
  match (w.assemblies a).transport with
  | none => .error .nullTransport
  | some t =>
      .ok ((w.modifyAssembly a (·.transportFailed t)).nodeRecoverSet a env .failed)

def assemblyHealthcheckCompletion (w : World σ) (a : CString) (env : Env)
    (sshRc : Int) : Except Fault (World σ) :=
  if sshRc ≠ 0 then w.assemblyHealthcheckFailed a env
  else if (w.assemblies a).recover.state = .running then
    match (w.assemblies a).transport with
    | none => .error .nullTransport
    | some t =>
        .ok (w.modifyAssembly a fun asm =>
          (asm.timerAdd .assemblyHealthcheck).modifyTrans t
            ({ · with healthcheckTimer := asm.timerCount + 1 }))
  else .ok w

def sshOpComplete (d : Deployable) (w : World σ) (a : CString) (s : Nat)
    (env : Env) (sshRc : Int) : Except Fault (World σ) :=
  let callback := ((w.assemblies a).sshOps s).callback
  let w := w.modifyAssembly a (·.sshOpDequeue s)
  match callback with
  | .healthcheck => w.assemblyHealthcheckCompletion a env sshRc
  | .resourceAction o => do
      let c ← w.cape.resourceActionCompletion d env o sshRc
      return { w with cape := c }

def assemblySshExec (d : Deployable) (w : World σ) (a : CString) (s : Nat)
    (env : Env) : Except Fault (World σ) :=
  let op := (w.assemblies a).sshOps s
  if ((w.assemblies a).trans op.transport).sshState ≠ .sessionConnected then
    .error .assertion
  else
    match Assembly.execOutcome env op with
    | .again state sshRc =>
        .ok (w.modifyAssembly a (·.execAgain s state sshRc))
    | .openFailed => .ok w
    | .assertion => .error .assertion
    | .complete sshRc => do
        let w ← w.sshOpComplete d a s env sshRc
        return w.modifyAssembly a (·.transportSchedule op.transport)

/-- `ssh_timeout`, with `resource_action_timeout` for a resource action. -/
def sshTimeout (w : World σ) (a : CString) (s : Nat) (env : Env) :
    Except Fault (World σ) :=
  let callback := ((w.assemblies a).sshOps s).callback
  let w := w.modifyAssembly a (·.sshTimeoutFlush s)
  match callback with
  | .healthcheck => w.assemblyHealthcheckFailed a env
  | .resourceAction _ => .ok (w.nodeRecoverSet a env .failed)

/-! ## Connecting -/

/-- The state `SSH_SESSION_CONNECTED` of `ssh_assembly_connect`. -/
def assemblyConnected (w : World σ) (a : CString) (env : Env) :
    Except Fault (World σ) := do
  let w := w.nodeRecoverSet a env .running
  let asm ← (w.assemblies a).assemblyHealthcheck
  return w.setAssembly a asm

def sshAssemblyConnect (w : World σ) (a : CString) (env : Env) :
    Except Fault (World σ) :=
  match (w.assemblies a).transport with
  | none => .error .nullTransport
  | some t =>
      match Assembly.connectOutcome env ((w.assemblies a).trans t).sshState with
      | .again state =>
          .ok (w.modifyAssembly a fun asm =>
            (asm.modifyTrans t ({ · with sshState := state })).jobAdd
              .sshAssemblyConnect)
      | .failed =>
          .ok (w.modifyAssembly a
            (·.modifyTrans t ({ · with sshState := .sessionStartup })))
      | .assertion => .error .assertion
      | .keepalive =>
          (w.modifyAssembly a fun asm =>
            (asm.sshKeepaliveSend t).modifyTrans t
              ({ · with sshState := .sessionConnected })).assemblyConnected a env
      | .connected => w.assemblyConnected a env

/-! ## The transport -/

def ssh : Transport (World σ) σ :=
  { core with
    setUnknown := fun w a env => w.nodeRecoverSet a env .unknown
    transportConnect := fun w a => w.modifyAssembly a (·.transportConnect)
    transportResourceAction := transportResourceAction }

@[simp] theorem ssh_cape (w : World σ) : ssh.cape w = w.cape := rfl

@[simp] theorem ssh_modifyCape (w : World σ) (f : Cape σ → Cape σ) :
    ssh.modifyCape w f = w.modifyCape f := rfl

@[simp] theorem ssh_recover (w : World σ) (a : CString) :
    ssh.recover w a = (w.assemblies a).recover := rfl

@[simp] theorem ssh_resourceAction (w : World σ) (a : CString) (o : Nat) :
    ssh.transportResourceAction w a o = w.transportResourceAction a o := rfl

end World

end PacemakerCloud

import PacemakerCloud.Openstackv1

/-!
# What the daemon is answered

The answers of the outside world to the calls made while one event is
dispatched: the clock, the cloud (through either back end), the socket and
libssh2.  Each call below is made at most once in a dispatch.
-/

namespace PacemakerCloud

open Foundation

/-- `enum ssh_exec_state`, in the order in which `assembly_ssh_exec` falls through. -/
inductive SshExecState where
  | channelOpen
  | channelExec
  | channelSendEof
  | channelWaitEof
  | channelClose
  | channelRead
  | channelReadStderr
  | channelWaitClosed
  | channelFree
  deriving DecidableEq, Repr

/-- The result of a libssh2 call: zero, `LIBSSH2_ERROR_EAGAIN`, or an error. -/
inductive SshRc where
  | ok
  | eagain
  | error
  deriving DecidableEq, Repr

/-! ## The cloud -/

/--
The answer to a state request.  With libdeltacloud: whether the library could be
initialised, and the state of the instance with the first of its private addresses,
if there is a list of them.  With OpenStack: the root of what the write callback
parses, if libcurl delivers anything.
-/
inductive StateReply where
  | deltacloud (initialized : Bool) (state : CString) (addresses : Option (Option CString))
  | openstackv1 (delivered : Option (Option Node))

/-- `instance_state_get`: the call of its completion function, if it makes one. -/
def instanceStateGet : StateReply → Except NodeFault (Option (CString × Option CString))
  | .deltacloud false _ _ => .ok none
  | .deltacloud true state addresses =>
      if state = "RUNNING".toList then
        match addresses with
        -- `instance.private_addresses->address`
        | none => .error .nullNode
        | some none => .ok (some ("PENDING".toList, none))
        | some (some address) => .ok (some ("ACTIVE".toList, some address))
      else .ok (some ("PENDING".toList, none))
  | .openstackv1 none => .ok none
  | .openstackv1 (some root) => do
      let calls ← instanceStateGetCallback root
      return calls.findSome? CompletionCall.instanceState?

/--
The answer to `instance_create_from_image_id`: no instance, an instance whose
identifier reaches the completion function, or one whose identifier does not.
-/
inductive CreateReply where
  | failed
  | created (instanceId : CString)
  | unreported (instanceId : CString)
  deriving DecidableEq, Repr

def CreateReply.instance? : CreateReply → Option CString
  | .failed => none
  | .created instanceId => some instanceId
  | .unreported instanceId => some instanceId

/--
The answer to `instance_destroy_by_instance_id`: whether the instance is gone,
and whether the completion function is called.
-/
structure DestroyReply where
  destroyed : Bool
  completed : Bool
  deriving DecidableEq, Repr

/-! ## One dispatch -/

structure Env where
  /-- The clock, in microseconds. -/
  now : Nat
  stateReply : StateReply
  /--
  The identifier `image_id_get` completes with, if it finds the image.  An image list that
  it does not survive is no answer.
  -/
  imageReply : Option CString
  createReply : CreateReply
  destroyReply : DestroyReply
  /-- Whether `connect` returns zero. -/
  connected : Bool
  /-- Whether `libssh2_session_init` returns a session. -/
  sessionInit : Bool
  sessionStartup : SshRc
  userauth : SshRc
  exec : SshExecState → SshRc
  exitStatus : Int

end PacemakerCloud

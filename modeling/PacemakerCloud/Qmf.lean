import PacemakerCloud.Cape.Actions

/-!
# The QMF console

`qmf_object.cpp`, `qmf_agent.cpp` and `qmf_multiplexer.cpp`, with the three objects that
every `Matahari` owns.  As in `Cape`, a pointer is a number and an object is kept when the
code frees it; to answer a request that was deleted is a fault, and a call records the count
of its request.  Handlers that the console calls back are inputs: all they can do to the
console is to take an assembly offline.
-/

namespace PacemakerCloud

open Foundation

/-- Where the process ends: a pointer to nothing is followed, or `assert`. -/
inductive QmfFault where
  | nullAgent
  | nullRequest
  | deletedRequest
  | assertion
  deriving DecidableEq, Repr

/-- The objects of a `Matahari`: `_mh_host`, `_mh_serv` and `_mh_rsc`. -/
inductive MhObject where
  | host
  | serv
  | rsc
  deriving DecidableEq, Repr

structure ObjectId where
  assembly : CString
  object : MhObject
  deriving DecidableEq, Repr

inductive Variant where
  | void
  | uint32 (value : Nat)
  | string (value : CString)
  deriving DecidableEq, Repr

inductive JobState where
  | init
  | scheduled
  | running
  | completed
  deriving DecidableEq, Repr

inductive RpcResult where
  | ok
  | timeout
  | notConnected
  | cancelled
  | exception
  deriving DecidableEq, Repr

/-- `deleted` is set when `unref` deletes the request. -/
structure QmfAsyncRequest where
  refCount : Nat
  deleted : Bool
  state : JobState
  obj : ObjectId
  method : CString
  args : List (CString × Variant)
  deriving DecidableEq, Repr

/--
`QmfObject`.  `lastAgent` is a history variable: the agent the object was last added to.
-/
structure QmfObject where
  connected : Bool
  qa : Option Nat
  propName : CString
  propValue : CString
  pendingJobs : List Nat
  hasMethodResponseFn : Bool
  lastAgent : Option Nat
  deriving DecidableEq, Repr

/-- `QmfAgent`; a null pointer in `_outstanding_calls` is `none`. -/
structure QmfAgent where
  objects : List ObjectId
  outstandingCalls : List (Nat × Option Nat)
  deleted : Bool
  deriving DecidableEq, Repr

structure QmfCall where
  agent : Nat
  cid : Nat
  request : Nat
  refCount : Nat
  method : CString
  inArgs : List (CString × Variant)
  deriving DecidableEq, Repr

/--
What goes over the wire: calls, and the responses and exceptions to them, with the request
that the agent finds under the correlator.
-/
inductive Traffic where
  | call (call : QmfCall)
  | answer (agent cid : Nat) (request : Option Nat)
  deriving DecidableEq, Repr

/--
The console.  `timers` are the armed timers that run `method_call_tmo`, `jobs` the queued
jobs that run `run_pending_calls`, `names` is `QmfMultiplexer::_agents`.  `traffic` and
`responses` are history variables, newest first; a response is a call of
`QmfObject::method_response`.
-/
structure Qmf where
  requests : Nat → QmfAsyncRequest
  requestCount : Nat
  timers : List Nat
  muxObjects : List ObjectId
  objects : ObjectId → QmfObject
  jobs : List ObjectId
  agents : Nat → QmfAgent
  agentCount : Nat
  names : CString → Option Nat
  traffic : List Traffic
  responses : List (Nat × RpcResult)

namespace Qmf

def modifyRequest (q : Qmf) (r : Nat) (f : QmfAsyncRequest → QmfAsyncRequest) : Qmf :=
  { q with requests := Function.update q.requests r (f (q.requests r)) }

def modifyObject (q : Qmf) (o : ObjectId) (f : QmfObject → QmfObject) : Qmf :=
  { q with objects := Function.update q.objects o (f (q.objects o)) }

def modifyAgent (q : Qmf) (i : Nat) (f : QmfAgent → QmfAgent) : Qmf :=
  { q with agents := Function.update q.agents i (f (q.agents i)) }

/-! ## Requests -/

def ref (q : Qmf) (r : Nat) : Qmf :=
  q.modifyRequest r fun ar => { ar with refCount := (ar.refCount + 1) % 2 ^ 32 }

def unref (q : Qmf) (r : Nat) : Qmf :=
  q.modifyRequest r fun ar =>
    { ar with
      refCount := Cape.uint32Pred ar.refCount
      deleted := ar.deleted || Cape.uint32Pred ar.refCount = 0 }

def methodResponse (q : Qmf) (r : Nat) (rc : RpcResult) : Qmf :=
  { q.modifyRequest r ({ · with state := .completed }) with
    responses := (r, rc) :: q.responses }

inductive Direction where
  | dirIn
  | dirOut
  | dirInOut
  deriving DecidableEq, Repr

structure SchemaMethod where
  name : CString
  arguments : List (CString × Direction)
  deriving DecidableEq, Repr

structure CallReply where
  schema : List SchemaMethod
  cid : Nat
  deriving DecidableEq, Repr

/-- One argument of the schema: `in_args[name] = ar->args[name]`, which adds a missing one. -/
def takeArgument (maps : List (CString × Variant) × List (CString × Variant))
    (argument : CString × Direction) : List (CString × Variant) × List (CString × Variant) :=
  if argument.2 = .dirOut then maps
  else
    match maps.2.find? (·.1 = argument.1) with
    | some (_, value) => (mapPut Prod.fst maps.1 (argument.1, value), maps.2)
    | none =>
        (mapPut Prod.fst maps.1 (argument.1, .void),
          mapPut Prod.fst maps.2 (argument.1, .void))

def schemaArguments (schema : List SchemaMethod) (ar : QmfAsyncRequest) :
    List (CString × Variant) × List (CString × Variant) :=
  match schema.find? (·.name = ar.method) with
  | some sm => sm.arguments.foldl takeArgument ([], ar.args)
  | none => ([], ar.args)

def callMethodAsync (q : Qmf) (i r : Nat) (reply : CallReply) : Qmf :=
  let ar := q.requests r
  let (inArgs, args) := schemaArguments reply.schema ar
  let q := q.modifyRequest r ({ · with args := args })
  let q := q.modifyAgent i fun qa =>
    { qa with outstandingCalls := mapPut Prod.fst qa.outstandingCalls (reply.cid, some r) }
  { q with traffic := .call ⟨i, reply.cid, r, ar.refCount, ar.method, inArgs⟩ :: q.traffic }

def send (q : Qmf) (o : ObjectId) (r : Nat) (reply : CallReply) : Except QmfFault Qmf :=
  match (q.objects o).qa with
  | none => .error .nullAgent
  | some i =>
      let q := (q.callMethodAsync i r reply).modifyRequest r ({ · with state := .running })
      .ok { q.ref r with timers := q.timers ++ [r] }

def runPendingCalls (q : Qmf) (o : ObjectId) (replies : Nat → CallReply) :
    Except QmfFault Qmf :=
  -- the jobs stay in `_pending_jobs`
  (q.objects o).pendingJobs.foldlM (fun q r => q.send o r (replies r)) q

def requestCreate (q : Qmf) (o : ObjectId) (method : CString)
    (args : List (CString × Variant)) : Qmf :=
  { q with
    requests := Function.update q.requests q.requestCount ⟨1, false, .init, o, method, args⟩
    requestCount := q.requestCount + 1 }

def schedule (q : Qmf) (o : ObjectId) (r : Nat) : Qmf :=
  (q.modifyRequest r ({ · with state := .scheduled })).modifyObject o fun obj =>
    { obj with pendingJobs := obj.pendingJobs ++ [r] }

def methodCallAsync (q : Qmf) (o : ObjectId) (method : CString)
    (args : List (CString × Variant)) (reply : CallReply) : Except QmfFault Qmf :=
  if (q.objects o).hasMethodResponseFn = false then .error .assertion
  else if (q.objects o).connected then
    (q.requestCreate o method args).send o q.requestCount reply
  else .ok ((q.requestCreate o method args).schedule o q.requestCount)

def methodCallTmo (q : Qmf) (r : Nat) : Except QmfFault Qmf :=
  if (q.requests r).deleted then .error .deletedRequest
  else
    match (q.requests r).state with
    | .completed => .ok (q.unref r)
    | .scheduled => .ok ((q.methodResponse r .notConnected).unref r)
    | .init | .running => .ok ((q.methodResponse r .timeout).unref r)

def processAnswer (q : Qmf) (r : Nat) (exception : Bool) : Except QmfFault Qmf :=
  if (q.requests r).deleted then .error .deletedRequest
  else if exception then .ok ((q.methodResponse r .exception).unref r)
  else if (q.requests r).state = .running then .ok ((q.methodResponse r .ok).unref r)
  else .ok (q.unref r)

def logAnswer (q : Qmf) (i cid : Nat) (request : Option Nat) : Qmf :=
  { q with traffic := .answer i cid request :: q.traffic }

def agentAnswer (q : Qmf) (i cid : Nat) (exception : Bool) : Except QmfFault Qmf :=
  match (q.agents i).outstandingCalls.find? (·.1 = cid) with
  | some (_, some r) => do
      let q ← (q.logAnswer i cid (some r)).processAnswer r exception
      return q.modifyAgent i fun qa =>
        { qa with outstandingCalls := qa.outstandingCalls.filter (·.1 ≠ cid) }
  | some (_, none) => .ok (q.logAnswer i cid none)
  | none =>
      -- the lookup has added a null pointer
      .ok ((q.logAnswer i cid none).modifyAgent i fun qa =>
        { qa with outstandingCalls := mapPut Prod.fst qa.outstandingCalls (cid, none) })

/-! ## Objects and agents -/

def disconnect (q : Qmf) (o : ObjectId) : Qmf :=
  q.modifyObject o ({ · with connected := false, qa := none })

/-- The part of `Matahari::state_online_to_offline` that concerns the console. -/
def stateOnlineToOffline (q : Qmf) (a : CString) : Qmf :=
  ((q.disconnect ⟨a, .rsc⟩).disconnect ⟨a, .serv⟩).disconnect ⟨a, .host⟩

structure Data where
  getProperty : CString → CString

def strcaseEq (s t : CString) : Bool := s.map Char.toLower = t.map Char.toLower

def accepts (obj : QmfObject) (data : Data) : Bool :=
  obj.propName.isEmpty || strcaseEq (data.getProperty obj.propName) obj.propValue

/--
What an object meets while it connects: the answer to its query, and whether the handler of
the connection event takes the assembly offline.
-/
structure ConnectEnv where
  data : List Data
  offline : Bool

def setConnected (q : Qmf) (o : ObjectId) : Qmf :=
  { q.modifyObject o ({ · with connected := true }) with jobs := q.jobs ++ [o] }

def connect (q : Qmf) (o : ObjectId) (env : ConnectEnv) : Qmf × Bool :=
  -- the flag is its result
  if (q.objects o).connected then (q, false)
  else if env.data.any (accepts (q.objects o)) then
    (if env.offline then (q.setConnected o).stateOnlineToOffline o.assembly
      else q.setConnected o, true)
  else (q, false)

def agentObjectAdd (q : Qmf) (i : Nat) (o : ObjectId) : Qmf :=
  (q.modifyAgent i fun qa => { qa with objects := qa.objects ++ [o] }).modifyObject o
    ({ · with qa := some i, lastAgent := some i })

/-- `_agents[name]`, with a new `QmfAgent` in place of a null pointer. -/
def agentGet (q : Qmf) (name : CString) : Qmf × Nat :=
  match q.names name with
  | some i => (q, i)
  | none =>
      ({ q with
          agents := Function.update q.agents q.agentCount ⟨[], [], false⟩
          agentCount := q.agentCount + 1
          names := Function.update q.names name (some q.agentCount) }, q.agentCount)

def agentOffer (q : Qmf) (name : CString) (o : ObjectId) (env : ConnectEnv) : Qmf :=
  match q.connect o env with
  | (q, true) => (q.agentGet name).1.agentObjectAdd (q.agentGet name).2 o
  | (q, false) => q

def agentAdd (q : Qmf) (name : CString) (env : ObjectId → ConnectEnv) : Qmf :=
  q.muxObjects.foldl (fun q o => q.agentOffer name o (env o)) q

def cancelCalls (q : Qmf) (calls : List (Nat × Option Nat)) : Except QmfFault Qmf :=
  calls.foldlM
    (fun q call =>
      match call.2 with
      | none => .error .nullRequest
      | some r =>
          if (q.requests r).deleted then .error .deletedRequest
          else .ok (q.methodResponse r .cancelled)) q

def agentDelete (q : Qmf) (i : Nat) : Except QmfFault Qmf := do
  let q ← q.cancelCalls (q.agents i).outstandingCalls
  return ((q.agents i).objects.foldl disconnect q).modifyAgent i ({ · with deleted := true })

def agentDel (q : Qmf) (name : CString) : Except QmfFault Qmf :=
  match q.names name with
  | none => .ok q
  | some i => { q with names := Function.update q.names name none }.agentDelete i

/-- `QmfAgent::process_event` for all other events; only host objects have a handler. -/
def agentEvent (q : Qmf) (i : Nat) (offline : CString → Bool) : Qmf :=
  (q.agents i).objects.foldl
    (fun q o =>
      if o.object = .host ∧ offline o.assembly then q.stateOnlineToOffline o.assembly else q) q

/-- The constructor of `Matahari`, on the first `transport_connect` of an assembly. -/
def transportConnect (q : Qmf) (a uuid : CString) : Qmf :=
  if ⟨a, .host⟩ ∈ q.muxObjects then q
  else
    { q with
      muxObjects := q.muxObjects ++ [⟨a, .host⟩, ⟨a, .serv⟩, ⟨a, .rsc⟩]
      objects := fun o =>
        if o.assembly = a then { q.objects o with propValue := uuid } else q.objects o }

/-! ## Events -/

inductive Event where
  | transportConnect (a uuid : CString)
  | transportDisconnect (a : CString)
  | methodCallAsync (o : ObjectId) (method : CString) (args : List (CString × Variant))
      (reply : CallReply)
  /-- The job at a position of the queue. -/
  | runPendingCalls (position : Nat) (replies : Nat → CallReply)
  /-- The timer at a position of the list. -/
  | methodCallTmo (position : Nat)
  | agentAdd (name : CString) (env : ObjectId → ConnectEnv)
  | agentDel (name : CString)
  | answer (name : CString) (cid : Nat) (exception : Bool)
  | event (name : CString) (offline : CString → Bool)

/-- One event; a job, a timer or an object that does not exist is no event. -/
def step (q : Qmf) : Event → Except QmfFault Qmf
  | .transportConnect a uuid => .ok (q.transportConnect a uuid)
  | .transportDisconnect a => .ok (q.stateOnlineToOffline a)
  | .methodCallAsync o method args reply =>
      if o ∈ q.muxObjects then q.methodCallAsync o method args reply else .ok q
  | .runPendingCalls position replies =>
      match q.jobs[position]? with
      | some o => { q with jobs := q.jobs.eraseIdx position }.runPendingCalls o replies
      | none => .ok q
  | .methodCallTmo position =>
      match q.timers[position]? with
      | some r => { q with timers := q.timers.eraseIdx position }.methodCallTmo r
      | none => .ok q
  | .agentAdd name env => .ok (q.agentAdd name env)
  | .agentDel name => q.agentDel name
  | .answer name cid exception =>
      match q.names name with
      | some i => q.agentAnswer i cid exception
      | none => .ok q
  | .event name offline =>
      match q.names name with
      | some i => .ok (q.agentEvent i offline)
      | none => .ok q

def empty : Qmf where
  requests _ := ⟨0, false, .init, ⟨[], .host⟩, [], []⟩
  requestCount := 0
  timers := []
  muxObjects := []
  objects o := ⟨false, none, "uuid".toList, [], [], o.object ≠ .host, none⟩
  jobs := []
  agents _ := ⟨[], [], false⟩
  agentCount := 0
  names _ := none
  traffic := []
  responses := []

end Qmf

end PacemakerCloud

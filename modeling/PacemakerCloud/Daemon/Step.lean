import PacemakerCloud.Daemon
import PacemakerCloud.Foundation.Run

/-!
# The event loop

One event is the dispatch of a pending job or timer, with the answers the
outside world gives while it runs.  A pass of `run_graph` is cut into events of
its own: nothing else is dispatched between its start and its return, and each
action it fires is one event.

Of pacemaker it is assumed that `run_graph` fires each action once and does not
return a finished transition while an action it fired is unconfirmed.
-/

namespace PacemakerCloud

open Foundation

/-- What `exec_rsc_action` reads from a graph action. -/
structure OpSpec where
  hostname : CString
  method : Method
  rname : CString
  rclass : CString
  rprovider : Option CString
  rtype : CString
  params : List (CString × CString)
  opDigest : CString
  interval : Nat
  targetOutcome : Nat
  graphId : Nat
  actionId : Nat
  deriving DecidableEq, Repr

/--
An action that `run_graph` fires: a resource operation, or one of the actions
that are confirmed on the spot (pseudo, crmd and fencing actions, and
`probe_complete`).
-/
inductive GraphAction where
  | rsc (spec : OpSpec)
  | confirmed
  deriving DecidableEq, Repr

/-- `enum transition_status`, as far as `process_next_job` tells it apart. -/
inductive TransitionStatus where
  | active
  | pending
  | complete
  | terminated
  deriving DecidableEq, Repr

/-- The events of `cape.c` and `pcmk_pe.c`, whichever the transport. -/
inductive CoreEvent where
  | monitorTimer (handle : Nat) (env : Env)
  | processJob
  | processNextJob (graph : Nat)
  | fire (action : GraphAction) (env : Env)
  | runGraphReturn (status : TransitionStatus)

inductive Event where
  | job (a : CString) (job : AssemblyJob) (env : Env)
  | timer (a : CString) (handle : Nat) (env : Env)
  | monitorTimer (handle : Nat) (env : Env)
  | processJob
  | processNextJob (graph : Nat)
  | fire (action : GraphAction) (env : Env)
  | runGraphReturn (status : TransitionStatus)

/-- Why an event leads nowhere: it is not pending, or the process ends in it. -/
inductive Halt where
  | notPending
  | fault (fault : Fault)
  deriving DecidableEq, Repr

def ofFault {α : Type} : Except Fault α → Except Halt α
  | .ok x => .ok x
  | .error f => .error (.fault f)

namespace World

variable {σ : Type}

/-! ## The policy engine -/

def peProcessState (c : Cape σ) : Cape σ :=
  -- a new transition starts
  { c with
    pe :=
      { c.pe with
        workingSet := some c.pe.transitionCount
        transitionCount := c.pe.transitionCount + 1
        graphUpdated := true
        nextJobs := c.pe.nextJobs ++ [c.pe.transitionCount] } }

def processJob (c : Cape σ) : Cape σ :=
  let c := { c with processJobs := c.processJobs - 1 }
  if c.pe.workingSet.isSome then c.scheduleProcessing else peProcessState c

/-- `process_next_job` up to the call of `run_graph`. -/
def processNextJob (c : Cape σ) (graph : Nat) : Cape σ :=
  let nextJobs := c.pe.nextJobs.erase graph
  if c.pe.graphUpdated then
    { c with
      pe :=
        { c.pe with
          graphUpdated := false
          nextJobs := nextJobs
          inRunGraph := some graph } }
  else { c with pe := { c.pe with nextJobs := nextJobs ++ [graph] } }

/-- `process_next_job` from the return of `run_graph` on. -/
def runGraphReturn (c : Cape σ) (graph : Nat) (status : TransitionStatus) :
    Cape σ :=
  match status with
  | .active | .pending =>
      { c with
        pe :=
          { c.pe with
            inRunGraph := none
            nextJobs := c.pe.nextJobs ++ [graph] } }
  | .complete | .terminated =>
      { c with pe := { c.pe with inRunGraph := none, workingSet := none } }

def GraphConfirmed (c : Cape σ) (graph : Nat) : Prop :=
  ∀ o ∈ List.range c.opCount, (c.ops o).graph = graph → c.Confirmed o

instance (c : Cape σ) (graph : Nat) : Decidable (GraphConfirmed c graph) :=
  inferInstanceAs (Decidable (∀ o ∈ _, _ → _))

/-- `exec_rsc_action` up to the call of `run_fn`: the new operation. -/
def execRscAction (c : Cape σ) (graph : Nat) (spec : OpSpec) : Cape σ :=
  { c with
    digests := Function.update c.digests c.digestCount ⟨spec.opDigest, true⟩
    digestCount := c.digestCount + 1
    ops := Function.update c.ops c.opCount
      { hostname := spec.hostname
        method := spec.method
        rname := spec.rname
        rclass := spec.rclass
        rprovider := spec.rprovider
        rtype := spec.rtype
        params := spec.params
        opDigest := c.digestCount
        timesExecuted := 0
        interval := spec.interval % 2 ^ 32
        targetOutcome := spec.targetOutcome % 2 ^ 32
        graph := graph
        resource := none
        graphId := spec.graphId
        actionId := spec.actionId
        refcount := 1
        executions := 0
        unrefAtZero := false }
    opCount := c.opCount + 1 }

end World

/-! ## Dispatch -/

namespace Transport

variable {ω σ : Type} [Stopwatch σ] (t : Transport ω σ)

/-- One event while no `run_graph` is on the stack. -/
def dispatch (d : Deployable) (w : ω) : CoreEvent → Except Halt ω
  | .monitorTimer handle env =>
      match (t.cape w).monitorTimers.find? (·.1 = handle) with
      | some (_, o) =>
          ofFault (t.resourceMonitorExecute d (t.modifyCape w (·.timerDel handle)) env o)
      | none => .error .notPending
  | .processJob =>
      if 0 < (t.cape w).processJobs then .ok (t.modifyCape w World.processJob)
      else .error .notPending
  | .processNextJob graph =>
      if graph ∈ (t.cape w).pe.nextJobs then
        .ok (t.modifyCape w (World.processNextJob · graph))
      else .error .notPending
  | .fire _ _ | .runGraphReturn _ => .error .notPending

/-- One event of `run_graph` on the transition. -/
def dispatchGraph (d : Deployable) (w : ω) (graph : Nat) : CoreEvent → Except Halt ω
  | .fire .confirmed _ =>
      .ok (t.modifyCape w fun c => { c with pe := { c.pe with graphUpdated := true } })
  | .fire (.rsc spec) env =>
      ofFault (t.resourceExecuteCb d (t.modifyCape w (World.execRscAction · graph spec)) env
        (t.cape w).opCount)
  | .runGraphReturn status =>
      if (status = .complete ∨ status = .terminated) →
          World.GraphConfirmed (t.cape w) graph then
        .ok (t.modifyCape w (World.runGraphReturn · graph status))
      else .error .notPending
  | _ => .error .notPending

end Transport

namespace World

variable {σ : Type} [Stopwatch σ]

def dispatchJob (d : Deployable) (w : World σ) (a : CString) (env : Env) :
    AssemblyJob → Except Fault (World σ)
  | .myInstanceStateGet => ssh.myInstanceStateGet w a env
  | .connectExecute => do
      let asm ← (w.assemblies a).connectExecute env
      return w.setAssembly a asm
  | .sshAssemblyConnect => w.sshAssemblyConnect a env
  | .assemblySshExec s => w.assemblySshExec d a s env

def dispatchTimer (w : World σ) (a : CString) (env : Env) :
    AssemblyTimer → Except Fault (World σ)
  | .myInstanceStateGet => ssh.myInstanceStateGet w a env
  | .sshTimeout s => w.sshTimeout a s env
  | .sshKeepaliveSend t => .ok (w.modifyAssembly a (·.sshKeepaliveSend t))
  | .assemblyHealthcheck => do
      let asm ← (w.assemblies a).assemblyHealthcheck
      return w.setAssembly a asm

def dispatch (d : Deployable) (w : World σ) : Event → Except Halt (World σ)
  | .job a job env =>
      if job ∈ (w.assemblies a).jobs then
        ofFault ((w.modifyAssembly a (·.jobDel job)).dispatchJob d a env job)
      else .error .notPending
  | .timer a handle env =>
      match (w.assemblies a).timers.find? (·.1 = handle) with
      | some (_, timer) =>
          ofFault ((w.modifyAssembly a (·.timerDel handle)).dispatchTimer a env
            timer)
      | none => .error .notPending
  | .monitorTimer handle env => ssh.dispatch d w (.monitorTimer handle env)
  | .processJob => ssh.dispatch d w .processJob
  | .processNextJob graph => ssh.dispatch d w (.processNextJob graph)
  | .fire _ _ | .runGraphReturn _ => .error .notPending

def dispatchGraph (d : Deployable) (w : World σ) (graph : Nat) :
    Event → Except Halt (World σ)
  | .fire action env => ssh.dispatchGraph d w graph (.fire action env)
  | .runGraphReturn status => ssh.dispatchGraph d w graph (.runGraphReturn status)
  | _ => .error .notPending

def step (d : Deployable) (w : World σ) (e : Event) : Except Halt (World σ) :=
  match w.cape.pe.inRunGraph with
  | none => w.dispatch d e
  | some graph => w.dispatchGraph d graph e

/-! ## Loading -/

/-- An assembly as `assembly_create` leaves it before `instance_create`. -/
def newAssembly (errno : Int) (node : Option AssemblyNode) : Assembly σ :=
  { recover := recoverInit errno (node.bind (·.escalationFailures))
      (node.bind (·.escalationPeriod))
    transport := none
    trans := fun _ =>
      { sshState := .sessionConnecting
        keepaliveTimer := 0
        queue := []
        scheduled := false
        healthcheckTimer := 0
        freed := true }
    transCount := 0
    sshOps := fun _ =>
      { sshRc := 0
        sshTimer := 0
        execState := .channelOpen
        callback := .healthcheck
        command := []
        transport := 0 }
    sshCount := 0
    jobs := []
    timers := []
    timerCount := 0 }

def resourceThresholds (d : Deployable) (r : ResourceId) :
    Option CString × Option CString :=
  match (d.assembly? r.assembly).bind (·.resource? r.name) with
  | some info => (info.escalationFailures, info.escalationPeriod)
  | none => (none, none)

/--
The daemon before the instances are created.  `errno` is the value each record
was initialised under; an assembly's own record is under the empty name.
-/
def empty (d : Deployable) (errno : ResourceId → Int) : World σ :=
  { assemblies := fun a => newAssembly (errno ⟨a, []⟩) (d.assembly? a)
    cape :=
      { ops := fun _ =>
          { hostname := []
            method := .monitor
            rname := []
            rclass := []
            rprovider := none
            rtype := []
            params := []
            opDigest := 0
            timesExecuted := 0
            interval := 0
            targetOutcome := 0
            graph := 0
            resource := none
            graphId := 0
            actionId := 0
            refcount := 0
            executions := 0
            unrefAtZero := false }
        opCount := 0
        resources := fun r =>
          { monitorOp := none
            monitorTimer := 0
            recover := recoverInit (errno r) (resourceThresholds d r).1
              (resourceThresholds d r).2
            stopped := false }
        monitorTimers := []
        timerCount := 0
        history := []
        callOrder := 0
        digests := fun _ => ⟨[], false⟩
        digestCount := 0
        processJobs := 0
        handed := []
        pe :=
          { workingSet := none
            graphUpdated := false
            transitionCount := 0
            nextJobs := []
            inRunGraph := none
            completions := [] }
        cloud := fun _ => ⟨[], [], none, []⟩ } }

/-- `assemblies_create`: the instances of all assemblies are created. -/
def load (d : Deployable) (errno : ResourceId → Int) (answers : CString → Env) :
    World σ :=
  d.assemblies.foldl (fun w node => core.instanceCreate w node.name (answers node.name))
    (empty d errno)

def Reaches (d : Deployable) (errno : ResourceId → Int)
    (answers : CString → Env) (events : List Event) (w : World σ) : Prop :=
  run (step d) (load d errno answers) events = .ok w

theorem exists_reaches {d : Deployable} {errno : ResourceId → Int}
    {answers : CString → Env} {events : List Event} {P : World σ → Prop}
    [DecidablePred P]
    (h : endsIn (step d) (load d errno answers) events (fun w => decide (P w)) = true) :
    ∃ w : World σ, Reaches d errno answers events w ∧ P w := by
  obtain ⟨w, hrun, hw⟩ := exists_of_endsIn h
  exact ⟨w, hrun, of_decide_eq_true hw⟩

end World

end PacemakerCloud

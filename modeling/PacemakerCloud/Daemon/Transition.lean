import PacemakerCloud.Assembly.Reaction

/-!
# What one event can do

`step_transition` says once what a dispatch can do to the daemon; the invariants
are derived from it.  An operation is handed to the transport only while its
assembly runs, so the command is always accepted.
-/

namespace PacemakerCloud

open Foundation

namespace Assembly

variable {σ : Type}

def submit (a : Assembly σ) (o : Nat) (command : CString) : Assembly σ :=
  match a.transport with
  | none => a
  | some t => a.enqueue t (.resourceAction o) command

variable {a : Assembly σ}

theorem submit_eq {t : Nat} (h : a.transport = some t) (o : Nat) (command : CString) :
    a.submit o command = a.enqueue t (.resourceAction o) command := by
  simp [submit, h]

@[simp] theorem submit_recover (a : Assembly σ) (o : Nat) (command : CString) :
    (a.submit o command).recover = a.recover := by
  unfold submit
  split <;> simp

@[simp] theorem pipeline_submit (a : Assembly σ) (o : Nat) (command : CString) :
    (a.submit o command).pipeline = a.pipeline := by
  unfold submit
  split <;> simp

theorem Sound.transportExecute (h : a.Sound) (hrunning : a.recover.state = .running)
    (o : Nat) (command : CString) :
    a.transportExecute (.resourceAction o) command = .ok (a.submit o command) := by
  obtain ⟨⟨t, hconnected⟩, -⟩ := h.healthy hrunning
  rw [transportExecute_eq hconnected, submit_eq hconnected.1.1]

theorem Sound.submit (h : a.Sound) (hrunning : a.recover.state = .running) (o : Nat)
    (command : CString) :
    (a.submit o command).Sound ∧ (a.submit o command).actions = a.actions ++ [o] := by
  obtain ⟨⟨t, hconnected⟩, -⟩ := h.healthy hrunning
  rw [submit_eq hconnected.1.1]
  exact ⟨h.enqueue hconnected o command,
    actions_enqueue h.commands hconnected.1 (.resourceAction o) command⟩

end Assembly

namespace Cape

variable {σ : Type}

def hand (c : Cape σ) (o : Nat) : Cape σ :=
  { c.peResourceRef o with handed := o :: c.handed }

def setStopped (c : Cape σ) (r : ResourceId) (stopped : Bool) : Cape σ :=
  c.modifyResource r ({ · with stopped := stopped })

def setResource (c : Cape σ) (o : Nat) (r : Option ResourceId) : Cape σ :=
  c.modifyOp o ({ · with resource := r })

def settle (c : Cape σ) (o : Nat) (returnCode : Int) : Cape σ :=
  (c.peResourceCompleted o returnCode).peResourceUnref o

def startMonitor (c : Cape σ) (r : ResourceId) (o : Nat) : Cape σ :=
  ((c.setStopped r false).peResourceRef o).modifyResource r
    ({ · with monitorOp := some o })

variable [Stopwatch σ]

/--
What `resource_execute_cb` does with an operation, by the state of its assembly;
the last argument tells whether a command was queued.
-/
inductive Executed (d : Deployable) (env : Env) (c : Cape σ) (o : Nat) :
    RecoverState → Cape σ → Bool → Prop where
  | offline {state : RecoverState} {c' : Cape σ} (hstate : state ≠ .running)
      (h : c.resourceActionCompleted d env o ocfUnknownError = .ok c') :
      Executed d env c o state
        (match (c.ops o).method, d.resource? (c.ops o).hostname (c.ops o).rname with
          | .stop, some r => c'.setStopped r true
          | _, _ => c') false
  | foreign (hmethod : (c.ops o).method = .monitor)
      (hname : strstr (c.ops o).rname (c.ops o).hostname = false) :
      Executed d env c o .running
        ((c.setResource o (d.resource? (c.ops o).hostname (c.ops o).rname)).settle o
          ocfNotRunning) false
  | monitored {r : ResourceId} (hmethod : (c.ops o).method = .monitor)
      (hname : strstr (c.ops o).rname (c.ops o).hostname = true)
      (hr : d.resource? (c.ops o).hostname (c.ops o).rname = some r)
      (hinterval : 0 < (c.ops o).interval)
      (htimer : c.timerIsRunning (c.resources r).monitorTimer = true) :
      Executed d env c o .running
        (((c.setResource o (some r)).setStopped r false).settle o ocfOk) false
  | monitor {r : ResourceId} (hmethod : (c.ops o).method = .monitor)
      (hname : strstr (c.ops o).rname (c.ops o).hostname = true)
      (hr : d.resource? (c.ops o).hostname (c.ops o).rname = some r)
      (hinterval : 0 < (c.ops o).interval)
      (htimer : c.timerIsRunning (c.resources r).monitorTimer = false) :
      Executed d env c o .running
        (((c.setResource o (some r)).startMonitor r o).hand o) true
  | probe {r : ResourceId} (hmethod : (c.ops o).method = .monitor)
      (hname : strstr (c.ops o).rname (c.ops o).hostname = true)
      (hr : d.resource? (c.ops o).hostname (c.ops o).rname = some r)
      (hinterval : (c.ops o).interval = 0) :
      Executed d env c o .running ((c.setResource o (some r)).hand o) true
  | start (hmethod : (c.ops o).method = .start) :
      Executed d env c o .running
        ((c.setResource o (d.resource? (c.ops o).hostname (c.ops o).rname)).hand o) true
  | stop {r : ResourceId} (hmethod : (c.ops o).method = .stop)
      (hr : d.resource? (c.ops o).hostname (c.ops o).rname = some r) :
      Executed d env c o .running
        ((((c.setResource o (some r)).stopMonitor r).hand o).setStopped r true) true
  | delete (hmethod : (c.ops o).method = .delete) :
      Executed d env c o .running
        ((c.setResource o (d.resource? (c.ops o).hostname
          (c.ops o).rname)).opHistoryDelete o) false

theorem Executed.running {d : Deployable} {env : Env} {c c' : Cape σ} {o : Nat}
    {state : RecoverState} (h : c.Executed d env o state c' true) : state = .running := by
  cases h <;> rfl

end Cape

namespace World

variable {σ : Type}

theorem transportResourceAction_ok {w w' : World σ} {a : CString} {o : Nat}
    (hok : w.transportResourceAction a o = .ok w') (h : (w.assemblies a).Sound)
    (hrunning : (w.assemblies a).recover.state = .running) :
    w' = ⟨Function.update w.assemblies a
      ((w.assemblies a).submit o (resourceCommand (w.cape.ops o))),
        w.cape.hand o⟩ := by
  simp only [transportResourceAction, h.transportExecute hrunning] at hok
  exact (Except.ok.inj hok).symm

variable [Stopwatch σ]

/-- What an event does, once it is dispatched. -/
inductive Transition (d : Deployable) (w : World σ) : Event → World σ → Prop where
  | job {a : CString} {job : AssemblyJob} {env : Env} {asm : Assembly σ}
      {outputs : List Output} {c : Cape σ} (hgraph : w.cape.pe.inRunGraph = none)
      (hjob : job ∈ (w.assemblies a).jobs)
      (hreact : ((w.assemblies a).jobDel job).reactJob env job = .ok (asm, outputs))
      (hcalls : outputs.foldlM (Cape.receive d a env) w.cape = .ok c) :
      Transition d w (.job a job env) ⟨Function.update w.assemblies a asm, c⟩
  | timer {a : CString} {handle : Nat} {timer : AssemblyTimer} {env : Env}
      {asm : Assembly σ} {outputs : List Output} {c : Cape σ}
      (hgraph : w.cape.pe.inRunGraph = none)
      (htimer : (handle, timer) ∈ (w.assemblies a).timers)
      (hreact : ((w.assemblies a).timerDel handle).reactTimer env timer =
        .ok (asm, outputs))
      (hcalls : outputs.foldlM (Cape.receive d a env) w.cape = .ok c) :
      Transition d w (.timer a handle env) ⟨Function.update w.assemblies a asm, c⟩
  | monitorOffline {handle o : Nat} {env : Env} {c : Cape σ}
      (hgraph : w.cape.pe.inRunGraph = none)
      (htimer : (handle, o) ∈ w.cape.monitorTimers)
      (hstate : (w.assemblies (w.cape.ops o).hostname).recover.state ≠ .running)
      (h : (w.cape.timerDel handle).resourceActionCompleted d env o ocfUnknownError =
        .ok c) :
      Transition d w (.monitorTimer handle env) { w with cape := c }
  | monitorRequest {handle o : Nat} {env : Env} {command : CString}
      (hgraph : w.cape.pe.inRunGraph = none)
      (htimer : (handle, o) ∈ w.cape.monitorTimers)
      (hstate : (w.assemblies (w.cape.ops o).hostname).recover.state = .running) :
      Transition d w (.monitorTimer handle env)
        ⟨Function.update w.assemblies (w.cape.ops o).hostname
          ((w.assemblies (w.cape.ops o).hostname).submit o command),
          (w.cape.timerDel handle).hand o⟩
  | processJob (hgraph : w.cape.pe.inRunGraph = none) (h : 0 < w.cape.processJobs) :
      Transition d w .processJob (w.modifyCape World.processJob)
  | processNextJob {graph : Nat} (hgraph : w.cape.pe.inRunGraph = none)
      (h : graph ∈ w.cape.pe.nextJobs) :
      Transition d w (.processNextJob graph) (w.modifyCape (World.processNextJob · graph))
  | confirmed {graph : Nat} {env : Env} (hgraph : w.cape.pe.inRunGraph = some graph) :
      Transition d w (.fire .confirmed env)
        (w.modifyCape fun c => { c with pe := { c.pe with graphUpdated := true } })
  | fire {graph : Nat} {spec : OpSpec} {env : Env} {c : Cape σ} {queued : Bool}
      {command : CString} (hgraph : w.cape.pe.inRunGraph = some graph)
      (h : (execRscAction w.cape graph spec).Executed d env w.cape.opCount
        (w.assemblies spec.hostname).recover.state c queued) :
      Transition d w (.fire (.rsc spec) env)
        ⟨if queued then
            Function.update w.assemblies spec.hostname
              ((w.assemblies spec.hostname).submit w.cape.opCount command)
          else w.assemblies, c⟩
  | returned {graph : Nat} {status : TransitionStatus}
      (hgraph : w.cape.pe.inRunGraph = some graph)
      (h : status = .complete ∨ status = .terminated → GraphConfirmed w.cape graph) :
      Transition d w (.runGraphReturn status)
        (w.modifyCape (World.runGraphReturn · graph status))

variable {d : Deployable} {w w' : World σ} {env : Env}

theorem ofFault_eq_ok {α : Type} {x : Except Fault α} {y : α} :
    ofFault x = .ok y ↔ x = .ok y := by
  cases x <;> simp [ofFault]

theorem resourceMonitorExecute_ok {a : CString} {o : Nat}
    (hok : ssh.resourceMonitorExecute d w env o = .ok w')
    (ha : (w.cape.ops o).hostname = a) (h : (w.assemblies a).Sound)
    (hrunning : (w.assemblies a).recover.state = .running) :
    w' = ⟨Function.update w.assemblies a
      ((w.assemblies a).submit o (resourceCommand (w.cape.ops o))),
        w.cape.hand o⟩ := by
  subst ha
  simp only [Transport.resourceMonitorExecute] at hok
  split at hok
  case h_1 => cases hok
  case h_2 =>
    split at hok
    case isTrue hstate => exact absurd hrunning hstate
    case isFalse => exact transportResourceAction_ok hok h hrunning

theorem resourceMonitorExecute_offline {o : Nat}
    (hok : ssh.resourceMonitorExecute d w env o = .ok w')
    (hstate : (w.assemblies (w.cape.ops o).hostname).recover.state ≠ .running) :
    ∃ c, w.cape.resourceActionCompleted d env o ocfUnknownError = .ok c ∧
      w' = { w with cape := c } := by
  simp only [Transport.resourceMonitorExecute] at hok
  split at hok
  case h_1 => cases hok
  case h_2 =>
    split at hok
    case isTrue =>
      obtain ⟨c, hc, hw⟩ := bind_eq_ok.mp hok
      cases hw
      exact ⟨c, hc, rfl⟩
    case isFalse hrunning => exact absurd hstate hrunning

theorem resourceExecuteOffline_executed {o : Nat} {state : RecoverState}
    (hstate : state ≠ .running) (hok : ssh.resourceExecuteOffline d w env o = .ok w') :
    ∃ c, w.cape.Executed d env o state c false ∧ w' = { w with cape := c } := by
  obtain ⟨c, hc, hw⟩ := bind_eq_ok.mp hok
  cases hw
  refine ⟨_, .offline hstate hc, ?_⟩
  change (if (w.cape.ops o).method = .stop then ssh.stopProcessed _
    (d.resource? (w.cape.ops o).hostname (w.cape.ops o).rname) else _) = _
  cases hmethod : (w.cape.ops o).method <;>
    cases hr : d.resource? (w.cape.ops o).hostname (w.cape.ops o).rname <;>
    rfl

theorem resourceExecuteCb_executed {o : Nat}
    (hok : ssh.resourceExecuteCb d w env o = .ok w')
    (hsound : (w.assemblies (w.cape.ops o).hostname).Sound) :
    ∃ c queued command,
      w.cape.Executed d env o (w.assemblies (w.cape.ops o).hostname).recover.state c
        queued ∧
      w' = ⟨if queued then
          Function.update w.assemblies (w.cape.ops o).hostname
            ((w.assemblies (w.cape.ops o).hostname).submit o command)
        else w.assemblies, c⟩ := by
  simp only [Transport.resourceExecuteCb] at hok
  split at hok
  case h_1 => cases hok
  case h_2 =>
    split at hok
    case isTrue hstate =>
      obtain ⟨c, hexec, rfl⟩ := resourceExecuteOffline_executed hstate hok
      exact ⟨c, false, [], hexec, rfl⟩
    case isFalse hstate =>
    have hrunning : (w.assemblies (w.cape.ops o).hostname).recover.state = .running :=
      not_not.mp hstate
    rw [hrunning]
    split at hok
    case h_1 hmethod =>
      split at hok
      case isFalse hname =>
        cases hok
        exact ⟨_, false, [], .foreign hmethod (Bool.eq_false_iff.mpr hname), rfl⟩
      case isTrue hname =>
        split at hok
        case h_1 => cases hok
        case h_2 r hr =>
          simp only [hr] at hok
          split at hok
          case isTrue hinterval =>
            simp only [Transport.recurringMonitorStart] at hok
            split at hok
            case isTrue htimer =>
              cases hok
              refine ⟨_, false, [], .monitored hmethod hname hr hinterval ?_, rfl⟩
              simpa [modifyCape, Cape.modifyOp, Cape.modifyResource,
                Cape.timerIsRunning] using htimer
            case isFalse htimer =>
              have hw := resourceMonitorExecute_ok hok
                (by simp [modifyCape, Cape.modifyOp, Cape.modifyResource,
                  Cape.peResourceRef]) hsound hrunning
              refine ⟨_, true, _, .monitor hmethod hname hr hinterval
                (Bool.eq_false_iff.mpr fun h => htimer ?_), hw⟩
              simpa [modifyCape, Cape.modifyOp, Cape.modifyResource,
                Cape.timerIsRunning] using h
          case isFalse hinterval =>
            have hw := resourceMonitorExecute_ok hok
              (by simp [modifyCape, Cape.modifyOp]) hsound hrunning
            exact ⟨_, true, _, .probe hmethod hname hr (Nat.eq_zero_of_not_pos hinterval), hw⟩
    case h_2 hmethod =>
      have hw := transportResourceAction_ok hok hsound hrunning
      exact ⟨_, true, _, .start hmethod, hw⟩
    case h_3 hmethod =>
      split at hok
      case h_1 => cases hok
      case h_2 r hr =>
        simp only [hr] at hok
        obtain ⟨w₁, hw₁, hw⟩ := bind_eq_ok.mp hok
        cases hw
        have hw := transportResourceAction_ok hw₁ hsound hrunning
        subst hw
        exact ⟨_, true, _, .stop hmethod hr, rfl⟩
    case h_4 hmethod =>
      cases hok
      exact ⟨_, false, [], .delete hmethod, rfl⟩
    case h_5 => cases hok

theorem resourceMonitorExecute_transition {handle o : Nat}
    (hsound : ∀ a, (w.assemblies a).Sound) (hgraph : w.cape.pe.inRunGraph = none)
    (htimer : (handle, o) ∈ w.cape.monitorTimers)
    (hok : ssh.resourceMonitorExecute d (w.modifyCape (·.timerDel handle)) env o = .ok w') :
    Transition d w (.monitorTimer handle env) w' := by
  by_cases hrunning : (w.assemblies (w.cape.ops o).hostname).recover.state = .running
  · have hw := resourceMonitorExecute_ok hok rfl (hsound _) hrunning
    subst hw
    exact .monitorRequest hgraph htimer hrunning
  · obtain ⟨c, hc, rfl⟩ := resourceMonitorExecute_offline hok hrunning
    exact .monitorOffline hgraph htimer hrunning hc

theorem perform_ok {a : CString} {r : Except Fault (Assembly σ × List Output)}
    (hok : w.perform d a env r = .ok w') :
    ∃ asm outputs c, r = .ok (asm, outputs) ∧
      outputs.foldlM (Cape.receive d a env) w.cape = .ok c ∧
      w' = ⟨Function.update w.assemblies a asm, c⟩ := by
  cases r with
  | error fault => cases hok
  | ok result =>
      obtain ⟨hasm, hcalls⟩ := perform_eq_ok.mp hok
      exact ⟨result.1, result.2, w'.cape, rfl, hcalls, by rw [← hasm]⟩

theorem dispatch_transition (hsound : ∀ a, (w.assemblies a).Sound)
    (hgraph : w.cape.pe.inRunGraph = none) {e : Event}
    (hok : w.dispatch d e = .ok w') : Transition d w e w' := by
  cases e with
  | job a job env =>
      simp only [dispatch] at hok
      split at hok
      case isFalse => cases hok
      case isTrue hjob =>
        rw [ofFault_eq_ok, dispatchJob_eq, perform_modifyAssembly] at hok
        obtain ⟨asm, outputs, c, hreact, hcalls, rfl⟩ := perform_ok hok
        simp only [modifyAssembly, Function.update_self] at hreact
        exact .job hgraph hjob hreact hcalls
  | timer a handle env =>
      simp only [dispatch] at hok
      split at hok
      case h_2 => cases hok
      case h_1 handle' timer hfind =>
        have hmem := List.mem_of_find?_eq_some hfind
        obtain rfl : handle' = handle := by simpa using List.find?_some hfind
        rw [ofFault_eq_ok, dispatchTimer_eq (d := d), perform_modifyAssembly] at hok
        obtain ⟨asm, outputs, c, hreact, hcalls, rfl⟩ := perform_ok hok
        simp only [modifyAssembly, Function.update_self] at hreact
        exact .timer hgraph hmem hreact hcalls
  | monitorTimer handle env =>
      simp only [dispatch, Transport.dispatch] at hok
      split at hok
      case h_2 => cases hok
      case h_1 handle' o hfind =>
        have hmem := List.mem_of_find?_eq_some hfind
        obtain rfl : handle' = handle := by simpa using List.find?_some hfind
        exact resourceMonitorExecute_transition hsound hgraph hmem (ofFault_eq_ok.mp hok)
  | processJob =>
      simp only [dispatch, Transport.dispatch] at hok
      split at hok
      case isFalse => cases hok
      case isTrue hpos =>
        cases hok
        exact .processJob hgraph hpos
  | processNextJob graph =>
      simp only [dispatch, Transport.dispatch] at hok
      split at hok
      case isFalse => cases hok
      case isTrue hmem =>
        cases hok
        exact .processNextJob hgraph hmem
  | fire action env => simp [dispatch] at hok
  | runGraphReturn status => simp [dispatch] at hok

theorem dispatchGraph_transition (hsound : ∀ a, (w.assemblies a).Sound) {graph : Nat}
    (hgraph : w.cape.pe.inRunGraph = some graph) {e : Event}
    (hok : w.dispatchGraph d graph e = .ok w') : Transition d w e w' := by
  cases e with
  | fire action env =>
      cases action with
      | confirmed =>
          cases hok
          exact .confirmed hgraph
      | rsc spec =>
          simp only [dispatchGraph, Transport.dispatchGraph, ofFault_eq_ok] at hok
          have hhost : ((execRscAction w.cape graph spec).ops w.cape.opCount).hostname =
              spec.hostname := by
            simp [execRscAction]
          obtain ⟨c, queued, command, hexec, rfl⟩ :=
            resourceExecuteCb_executed hok (hsound _)
          simp only [ssh_modifyCape, ssh_cape, modifyCape, hhost] at hexec ⊢
          exact .fire hgraph hexec
  | runGraphReturn status =>
      simp only [dispatchGraph, Transport.dispatchGraph] at hok
      split at hok
      case isFalse => cases hok
      case isTrue hconfirmed =>
        cases hok
        exact .returned hgraph hconfirmed
  | job | timer | monitorTimer | processJob | processNextJob =>
      simp [dispatchGraph] at hok

theorem step_transition (hsound : ∀ a, (w.assemblies a).Sound) {e : Event}
    (hok : step d w e = .ok w') : Transition d w e w' := by
  unfold step at hok
  split at hok
  case h_1 hgraph => exact dispatch_transition hsound hgraph hok
  case h_2 graph hgraph => exact dispatchGraph_transition hsound hgraph hok

end World

end PacemakerCloud

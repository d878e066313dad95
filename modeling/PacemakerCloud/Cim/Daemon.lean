import PacemakerCloud.Cim
import PacemakerCloud.Daemon.Completion

/-!
# The daemon with the CIM transport

The handlers of `cape-cim-os1` and `cape-cim-dc`: `cape.c` and `inst_ctrl.c` with `trans_cim.c`.
With the SSH transport it is `ssh_assembly_connect` that sets an assembly to running.  Nothing in
`trans_cim.c` does so, and the policy engine is asked only after a change of state: the daemon
polls its instances, connects to them, and does nothing else.
-/

namespace PacemakerCloud

open Foundation

structure CimAssembly (σ : Type) where
  recover : Recover σ
  /-- `a->transport` is not null. -/
  connected : Bool
  /-- The pending jobs and timers of `my_instance_state_get`. -/
  polls : Nat

structure CimWorld (σ : Type) where
  assemblies : CString → CimAssembly σ
  /-- The pending jobs of `perform_action`, and whether their transport is not null. -/
  actions : List (Nat × Bool)
  cape : Cape σ

inductive CimEvent where
  | poll (a : CString) (env : Env) (connects : Bool)
  | performAction (o : Nat) (env : Env) (reply : CimReply)
  | core (e : CoreEvent)

namespace CimWorld

variable {σ : Type}

def modifyAssembly (w : CimWorld σ) (a : CString) (f : CimAssembly σ → CimAssembly σ) :
    CimWorld σ :=
  { w with assemblies := Function.update w.assemblies a (f (w.assemblies a)) }

def modifyCape (w : CimWorld σ) (f : Cape σ → Cape σ) : CimWorld σ :=
  { w with cape := f w.cape }

def core : Core (CimWorld σ) σ where
  cape := cape
  modifyCape := modifyCape
  recover w a := (w.assemblies a).recover
  pollJob w a := w.modifyAssembly a fun asm => { asm with polls := asm.polls + 1 }
  pollTimer w a := w.modifyAssembly a fun asm => { asm with polls := asm.polls + 1 }

/-! ## `trans_cim.c` -/

def transportConnect (w : CimWorld σ) (a : CString) (connects : Bool) : CimWorld σ :=
  -- a second transport is not opened
  w.modifyAssembly a fun asm => { asm with connected := asm.connected || connects }

/-- `transport_disconnect` with `cim_service_disconnect`. -/
def transportDisconnect (w : CimWorld σ) (a : CString) : Except Fault Unit :=
  if (w.assemblies a).connected then .ok () else .error .assertion

def transportResourceAction (w : CimWorld σ) (a : CString) (o : Nat) :
    Except Fault (CimWorld σ) := do
  let _ ← cimActionFunc (w.cape.ops o)
  return { w with
    actions := w.actions ++ [(o, (w.assemblies a).connected)]
    cape := w.cape.hand o }

variable [Stopwatch σ]

/-- `recover_state_set (&a->recover, RECOVER_STATE_UNKNOWN)`, with `node_state_change_event`. -/
def nodeSetUnknown (w : CimWorld σ) (a : CString) (now : Nat) : CimWorld σ :=
  let result := recoverStateSet (w.assemblies a).recover now .unknown
  result.2.foldl (fun w _ => w.modifyCape (·.scheduleProcessing))
    (w.modifyAssembly a ({ · with recover := result.1 }))

def cim (connects : Bool) : Transport (CimWorld σ) σ :=
  { core with
    setUnknown := fun w a env => w.nodeSetUnknown a env.now
    transportConnect := fun w a => w.transportConnect a connects
    transportResourceAction := transportResourceAction }

/-! ## The event loop -/

def dispatch (d : Deployable) (w : CimWorld σ) : CimEvent → Except Halt (CimWorld σ)
  | .poll a env connects =>
      if 0 < (w.assemblies a).polls then
        ofFault ((cim connects).myInstanceStateGet
          (w.modifyAssembly a fun asm => { asm with polls := asm.polls - 1 }) a env)
      else .error .notPending
  | .performAction o env reply =>
      match w.actions.find? (·.1 = o) with
      | some (_, true) => do
          let c ← ofFault (w.cape.performAction d env o reply)
          return { w with actions := w.actions.erase (o, true), cape := c }
      | some (_, false) => .error (.fault .nullTransport)
      | none => .error .notPending
  -- only a poll may connect
  | .core e => (cim false).dispatch d w e

def step (d : Deployable) (w : CimWorld σ) (e : CimEvent) : Except Halt (CimWorld σ) :=
  match w.cape.pe.inRunGraph, e with
  | none, e => w.dispatch d e
  | some graph, .core e => (cim false).dispatchGraph d w graph e
  | some _, _ => .error .notPending

def empty (d : Deployable) (errno : ResourceId → Int) : CimWorld σ where
  assemblies a := ⟨(World.newAssembly (errno ⟨a, []⟩) (d.assembly? a)).recover, false, 0⟩
  actions := []
  cape := (World.empty d errno).cape

/-- `assemblies_create`. -/
def load (d : Deployable) (errno : ResourceId → Int) (answers : CString → Env) : CimWorld σ :=
  d.assemblies.foldl (fun w node => core.instanceCreate w node.name (answers node.name))
    (empty d errno)

def capeExit (d : Deployable) (w : CimWorld σ) : Except Fault Unit :=
  d.assemblies.foldlM (fun _ node => w.transportDisconnect node.name) ()

/-! ## What a run changes -/

structure Waiting (d : Deployable) (errno : ResourceId → Int) (a : CString)
    (asm : CimAssembly σ) : Prop where
  recover : asm.recover = ((empty d errno).assemblies a).recover
  polls : asm.polls ≤ 1
  connected : asm.connected = true → asm.polls = 0

structure Inert (d : Deployable) (errno : ResourceId → Int) (w : CimWorld σ) : Prop where
  assemblies : ∀ a, Waiting d errno a (w.assemblies a)
  actions : w.actions = []
  cape : ∃ cloud, w.cape = { (empty d errno).cape with cloud := cloud }

variable {d : Deployable} {errno : ResourceId → Int} {answers : CString → Env} {w w' : CimWorld σ}
  {e : CimEvent} {a : CString}

theorem Waiting.state {asm : CimAssembly σ} (h : Waiting d errno a asm) :
    asm.recover.state = .unknown := by
  rw [h.recover]
  rfl

theorem Inert.update (h : Inert d errno w) {asm : CimAssembly σ} {c : Cape σ}
    (hasm : Waiting d errno a asm) (hcape : ∃ cloud, c = { w.cape with cloud := cloud }) :
    Inert d errno { w with assemblies := Function.update w.assemblies a asm, cape := c } := by
  obtain ⟨cloud, rfl⟩ := hcape
  obtain ⟨before, hbefore⟩ := h.cape
  refine ⟨?_, h.actions, cloud, by rw [hbefore]⟩
  exact (Function.forall_update_iff w.assemblies (Waiting d errno)).mpr
    ⟨hasm, fun b _ => h.assemblies b⟩

theorem nodeSetUnknown_of_unknown (h : (w.assemblies a).recover.state = .unknown) (now : Nat) :
    w.nodeSetUnknown a now = w := by
  simp [nodeSetUnknown, recoverStateSet_same h, modifyAssembly]

theorem Inert.poll (h : Inert d errno w) {env : Env} {connects : Bool}
    (hpoll : (cim connects).myInstanceStateGet
      (w.modifyAssembly a fun asm => { asm with polls := asm.polls - 1 }) a env = .ok w')
    (hpending : 0 < (w.assemblies a).polls) : Inert d errno w' := by
  have hwaiting := h.assemblies a
  have hzero : (w.assemblies a).polls - 1 = 0 := by
    have := hwaiting.polls
    omega
  have hle : (w.assemblies a).polls - 1 ≤ 1 := hzero.trans_le (Nat.zero_le 1)
  have hdisconnected : (w.assemblies a).connected = false := by
    by_contra hconnected
    have := hwaiting.connected (by simpa using hconnected)
    omega
  unfold Transport.myInstanceStateGet at hpoll
  split at hpoll
  case h_1 => cases hpoll
  case h_2 =>
    cases hpoll
    exact h.update ⟨hwaiting.recover, hle, fun _ => hzero⟩ ⟨w.cape.cloud, rfl⟩
  split at hpoll
  case isTrue =>
    split at hpoll
    case h_1 => cases hpoll
    case h_2 address _ =>
      cases hpoll
      have hasm : Waiting d errno a { w.assemblies a with
          polls := (w.assemblies a).polls - 1
          connected := (w.assemblies a).connected || connects } :=
        ⟨hwaiting.recover, hle, fun _ => hzero⟩
      have hupdate := h.update
        (c := w.cape.modifyCloud a ({ · with address := some address })) hasm ⟨_, rfl⟩
      simpa [cim, core, transportConnect, modifyAssembly, modifyCape] using hupdate
  case isFalse =>
    cases hpoll
    have hasm : Waiting d errno a { w.assemblies a with
        polls := (w.assemblies a).polls - 1 + 1 } := by
      refine ⟨hwaiting.recover, ?_, fun hconnected => ?_⟩
      · simp [hzero]
      · simp [hdisconnected] at hconnected
    have hunknown := nodeSetUnknown_of_unknown (a := a) (w := w.modifyAssembly a
      fun asm => { asm with polls := asm.polls - 1 })
      (by simpa [modifyAssembly] using hwaiting.state) env.now
    have hupdate := h.update hasm ⟨w.cape.cloud, rfl⟩
    simp only [cim, core, hunknown]
    simpa [modifyAssembly] using hupdate

theorem step_eq_ok (h : Inert d errno w) (hstep : step d w e = .ok w') :
    ∃ a env connects, e = .poll a env connects ∧ Inert d errno w' := by
  obtain ⟨cloud, hcape⟩ := h.cape
  have hgraph : w.cape.pe.inRunGraph = none := by rw [hcape]; rfl
  simp only [step, hgraph] at hstep
  cases e with
  | poll a env connects =>
      simp only [dispatch] at hstep
      split at hstep
      case isTrue hpending =>
        exact ⟨a, env, connects, rfl, h.poll (World.ofFault_eq_ok.mp hstep) hpending⟩
      case isFalse => cases hstep
  | performAction o env reply => simp [dispatch, h.actions] at hstep
  | core e =>
      have hidle : (cim false).dispatch d w e = .error .notPending := by
        cases e <;>
          simp [Transport.dispatch, cim, core, hcape, empty, World.empty]
      simp [dispatch, hidle] at hstep

theorem foldl_inert (answers : CString → Env) {nodes : List AssemblyNode}
    (hnodup : (nodes.map AssemblyNode.name).Nodup) (h : Inert d errno w)
    (hfresh : ∀ node ∈ nodes, (w.assemblies node.name).polls = 0 ∧
      (w.assemblies node.name).connected = false) :
    Inert d errno
      (nodes.foldl (fun w node => core.instanceCreate w node.name (answers node.name)) w) := by
  induction nodes generalizing w with
  | nil => exact h
  | cons node nodes ih =>
      obtain ⟨hnew, hrest⟩ := List.nodup_cons.mp hnodup
      obtain ⟨⟨hpolls, hdisconnected⟩, hfresh⟩ := List.forall_mem_cons.mp hfresh
      refine ih hrest ?_ fun other hother => ?_
      · refine h.update ⟨(h.assemblies node.name).recover, ?_, fun hconnected => ?_⟩
          ⟨(w.cape.instanceRequests node.name (answers node.name)).cloud, rfl⟩
        · exact Nat.succ_le_succ hpolls.le
        · exact absurd hconnected (by simp [core, modifyCape, hdisconnected])
      · have hne : other.name ≠ node.name :=
          fun heq => hnew (heq ▸ List.mem_map_of_mem hother)
        simpa [Core.instanceCreate, core, modifyAssembly, modifyCape,
          Function.update_of_ne hne] using hfresh other hother

theorem load_inert (d : Deployable) (errno : ResourceId → Int) (answers : CString → Env) :
    Inert d errno (load d errno answers : CimWorld σ) :=
  foldl_inert answers d.names_nodup
    ⟨fun _ => ⟨rfl, Nat.zero_le 1, fun _ => rfl⟩, rfl, _, rfl⟩ fun _ _ => ⟨rfl, rfl⟩

omit [Stopwatch σ] in
theorem capeExit_eq_ok : w.capeExit d = .ok () ↔
    ∀ node ∈ d.assemblies, (w.assemblies node.name).connected = true := by
  unfold capeExit
  induction d.assemblies with
  | nil => exact iff_of_true rfl fun _ hnode => nomatch hnode
  | cons node nodes ih =>
      rw [List.foldlM_cons, List.forall_mem_cons, ← ih, transportDisconnect]
      by_cases hconnected : (w.assemblies node.name).connected = true
      · simp [hconnected, bind, Except.bind]
      · simp [hconnected, bind, Except.bind]

/--
After every run the daemon is as it was loaded, apart from the instances: no assembly has left the
state unknown, the policy engine was never asked, and no operation exists.  Only polls are pending,
at most one for each assembly and none once it is connected, and the daemon can be ended if and
only if all assemblies are connected.
-/
theorem cim_daemon_inert {events : List CimEvent}
    (h : run (step d) (load d errno answers : CimWorld σ) events = .ok w) :
    (∀ a, (w.assemblies a).recover.state = .unknown ∧ (w.assemblies a).polls ≤ 1 ∧
        ((w.assemblies a).connected = true → (w.assemblies a).polls = 0)) ∧
      w.actions = [] ∧
      (∃ cloud, w.cape = { (World.empty d errno).cape with cloud := cloud }) ∧
      (∀ e w', step d w e = .ok w' → ∃ a env connects, e = .poll a env connects) ∧
      (w.capeExit d = .ok () ↔
        ∀ node ∈ d.assemblies, (w.assemblies node.name).connected = true) := by
  have hinert : Inert d errno w := by
    refine run_invariant_of_step (fun {s e s'} hs hstep => ?_) (load_inert d errno answers) h
    obtain ⟨_, _, _, _, hs'⟩ := step_eq_ok hs hstep
    exact hs'
  refine ⟨fun a => ?_, hinert.actions, hinert.cape, fun e w' hstep => ?_, capeExit_eq_ok⟩
  · have hwaiting := hinert.assemblies a
    exact ⟨hwaiting.state, hwaiting.polls, hwaiting.connected⟩
  · obtain ⟨a, env, connects, heq, -⟩ := step_eq_ok hinert hstep
    exact ⟨a, env, connects, heq⟩

def cimEvents : List CimEvent :=
  [.poll World.bar
      { World.workingEnv with stateReply := .deltacloud true "PENDING".toList none } true,
    .poll World.bar World.workingEnv true]

theorem cim_daemon_inert_connected :
    ∃ w : CimWorld Ring, run (step World.barDeployable)
        (load World.barDeployable (fun _ => 0) fun _ => World.workingEnv) cimEvents = .ok w ∧
      (w.assemblies World.bar).connected = true ∧
      (w.assemblies World.bar).recover.state = .unknown ∧ (w.assemblies World.bar).polls = 0 ∧
      w.capeExit World.barDeployable = .ok () := by
  have hends : endsIn (step World.barDeployable)
      (load World.barDeployable (fun _ => 0) fun _ => World.workingEnv : CimWorld Ring) cimEvents
      (fun w => (w.assemblies World.bar).connected) = true := by decide +kernel
  obtain ⟨w, hrun, hconnected⟩ := exists_of_endsIn hends
  obtain ⟨hassemblies, -, -, -, hexit⟩ := cim_daemon_inert hrun
  obtain ⟨hstate, -, hpolls⟩ := hassemblies World.bar
  refine ⟨w, hrun, hconnected, hstate, hpolls hconnected, hexit.mpr ?_⟩
  exact List.forall_mem_singleton.mpr hconnected

end CimWorld

end PacemakerCloud

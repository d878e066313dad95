import PacemakerCloud.Daemon.Lifecycle
import PacemakerCloud.Daemon.Journal
import PacemakerCloud.Daemon.Records
import PacemakerCloud.Capeadmin

/-!
# What the administrator is told

Every change of state is sent as a document with a text from the table `state_str` of `cape.c`.
The table has holes, and a hole is sent as an empty `state` element.  An observer who takes an
empty element for a failure knows the state of every assembly after every event, and that of
every resource until it is reported unrecoverable.
-/

namespace PacemakerCloud

open Foundation

/-! ## The documents -/

/-- `state_str`, by the state before and after; null where the table has no text. -/
def stateStr : RecoverState → RecoverState → Option CString
  | .unknown, .running => some "running".toList
  | .unknown, .stopped => some "needs starting".toList
  | .unknown, .unrecoverable => some "unrecoverable".toList
  | .running, .unknown => some "unknown".toList
  | .running, .failed => some "recovering".toList
  | .running, .stopped => some "stopped".toList
  | .running, .unrecoverable => some "unrecoverable".toList
  | .failed, .unknown => some "unknown".toList
  | .failed, .running => some "running".toList
  | .failed, .stopped => some "stopped".toList
  | .failed, .unrecoverable => some "unrecoverable".toList
  | .stopped, .unknown => some "unknown".toList
  | .stopped, .running => some "started".toList
  | .stopped, .unrecoverable => some "unrecoverable".toList
  | _, _ => none

theorem stateStr_isSome_iff {before after : RecoverState} :
    (stateStr before after).isSome = true ↔
      before ≠ after ∧ before ≠ .unrecoverable ∧ (after = .failed → before = .running) := by
  cases before <;> cases after <;> decide

structure StateChange where
  assembly : CString
  resource : Option CString
  before : RecoverState
  after : RecoverState
  deriving DecidableEq, Repr

namespace StateChange

def ofCall (assembly : CString) (resource : Option CString) : RecoverCall → Option StateChange
  | .stateChanging before after => some ⟨assembly, resource, before, after⟩
  | .restart | .escalate => none

/-- What is sent about a change; a null text leaves the `state` element empty. -/
def document (app : CString) (n : StateChange) : Xml :=
  let level := [.elem "state" [] ((stateStr n.before n.after).toList.map .text),
    .elem "reason" [] [.text "bla".toList]]
  let children :=
    match n.resource with
    | none => level
    | some r => [.elem "resource" [("name", r)] level]
  .elem "event" [] [.elem "application" [("name", app)]
    [.elem "node" [("name", n.assembly)] children]]

theorem document_eq {app text : CString} {n : StateChange}
    (h : stateStr n.before n.after = some text) :
    n.document app = adminEvent app (some n.assembly) n.resource text "bla".toList := by
  unfold document adminEvent
  rw [h]
  cases n.resource <;> rfl

end StateChange

/-! ## The observer -/

structure Report where
  assembly : CString
  resource : Option CString
  text : CString
  deriving DecidableEq, Repr

def readEvent (x : Xml) : Option Report := do
  let node ← (x.select ["application", "node"]).head?
  let resource := (node.childrenNamed "resource").head?
  let level := resource.getD node
  let state ← (level.childrenNamed "state").head?
  return ⟨node.attrText "name", resource.map (·.attrText "name"), state.stringValue⟩

/-- The state that a text stands for; no text is taken for a failure. -/
def stateOfText (text : CString) : RecoverState :=
  if text = "unknown".toList then .unknown
  else if text = "running".toList ∨ text = "started".toList then .running
  else if text = "stopped".toList ∨ text = "needs starting".toList then .stopped
  else if text = "unrecoverable".toList then .unrecoverable
  else .failed

def Knowledge : Type := CString → Option CString → RecoverState

namespace Knowledge

def set (k : Knowledge) (assembly : CString) (resource : Option CString) (state : RecoverState) :
    Knowledge :=
  fun a r => if a = assembly ∧ r = resource then state else k a r

def learn (k : Knowledge) (x : Xml) : Knowledge :=
  match readEvent x with
  | none => k
  | some report => k.set report.assembly report.resource (stateOfText report.text)

def initial : Knowledge := fun _ _ => .unknown

end Knowledge

theorem readEvent_document (app : CString) (n : StateChange) :
    readEvent (n.document app) =
      some ⟨n.assembly, n.resource, (stateStr n.before n.after).getD []⟩ := by
  obtain ⟨assembly, resource, before, after⟩ := n
  cases resource <;> cases before <;> cases after <;> rfl

theorem stateOfText_stateStr {before after : RecoverState} (hne : before ≠ after)
    (hbefore : before ≠ .unrecoverable) :
    stateOfText ((stateStr before after).getD []) = after := by
  revert hne hbefore
  cases before <;> cases after <;> decide +kernel

/-! ## The changes of an assembly -/

namespace Assembly

variable {σ : Type} {a a' : Assembly σ} {t s : Nat} {env : Env} {outputs : List Output}

/-- What a handler reports of the state of its assembly: a change, with a text, or none. -/
inductive Announced (a a' : Assembly σ) (outputs : List Output) : Prop where
  | same (hstate : a'.recover.state = a.recover.state) (hnot : .stateChanging ∉ outputs)
  | changed (houtputs : outputs = [.stateChanging] ∨ outputs = [.stateChanging, .restarted])
      (hne : a.recover.state ≠ a'.recover.state) (hafter : a'.recover.state ≠ .unrecoverable)
      (htext : (stateStr a.recover.state a'.recover.state).isSome = true)

theorem Announced.congr {b b' : Assembly σ} (h : Announced b b' outputs)
    (hbefore : b.recover.state = a.recover.state)
    (hafter : a'.recover.state = b'.recover.state) : Announced a a' outputs := by
  cases h with
  | same hstate hnot => exact .same (hafter.trans (hstate.trans hbefore)) hnot
  | changed houtputs hne hstate htext =>
      refine .changed houtputs ?_ ?_ ?_
      · rwa [← hbefore, hafter]
      · rwa [hafter]
      · rwa [← hbefore, hafter]

variable [Stopwatch σ]

theorem recoverSet_announced (h : a.recover.state ≠ .unrecoverable) (now : Nat)
    {state : RecoverState} (hstate : state = .unknown ∨ state = .running ∨
      state = .failed ∧ (a.recover.state = .running ∨ a.recover.state = .failed)) :
    Announced a (a.recoverSet now state).1 (a.recoverSet now state).2 := by
  have hchanged : ∀ {a' : Assembly σ} {outputs : List Output},
      outputs = [.stateChanging] ∨ outputs = [.stateChanging, .restarted] →
      a.recover.state ≠ state → a'.recover.state = state → Announced a a' outputs := by
    intro a' outputs houtputs hne hafter
    refine .changed houtputs (hafter ▸ hne) ?_ ?_
    · rw [hafter]
      rcases hstate with rfl | rfl | ⟨rfl, -⟩ <;> simp
    · rw [hafter, stateStr_isSome_iff]
      refine ⟨hne, h, fun hfailed => ?_⟩
      rcases hstate with rfl | rfl | ⟨rfl, hup⟩
      · cases hfailed
      · cases hfailed
      · exact hup.resolve_right hne
  unfold recoverSet
  have hsets := recoverStateSet_sets a.recover now state
  generalize recoverStateSet a.recover now state = result at hsets ⊢
  cases hsets with
  | same hsame => exact .same rfl (by simp)
  | changed hne hfailed => exact hchanged (Or.inl rfl) hne rfl
  | restarted hne hafter =>
      refine hchanged (Or.inr rfl) hne ?_
      simpa [callback] using hafter
  | escalated hne hafter => exact hchanged (Or.inl rfl) hne hafter

theorem unhealthy_announced (hbefore : a.recover.state ≠ .unrecoverable)
    (hup : a.recover.state = .running ∨ a.recover.state = .failed)
    (h : a.unhealthy env = .ok (a', outputs)) : Announced a a' outputs := by
  unfold unhealthy at h
  split at h
  case h_1 => cases h
  case h_2 t _ =>
    have hset := recoverSet_announced (a := a.transportFailed t) hbefore env.now
      (Or.inr (Or.inr ⟨rfl, hup⟩))
    rw [Except.ok.inj h] at hset
    exact hset.congr rfl rfl

theorem completed_announced (hbefore : a.recover.state ≠ .unrecoverable)
    (hup : a.recover.state = .running ∨ a.recover.state = .failed)
    {callback : SshCallback} {sshRc : Int}
    (h : a.completed callback env sshRc = .ok (a', outputs)) : Announced a a' outputs := by
  unfold completed at h
  split at h
  case h_1 =>
    cases h
    exact .same rfl (by simp)
  case h_2 =>
    split at h
    · exact unhealthy_announced hbefore hup h
    split at h
    · split at h
      · cases h
      · cases h
        exact .same rfl (by simp)
    · cases h
      exact .same rfl (by simp)

theorem exec_announced (hbefore : a.recover.state ≠ .unrecoverable)
    (hup : a.recover.state = .running ∨ a.recover.state = .failed)
    (h : a.exec s env = .ok (a', outputs)) : Announced a a' outputs := by
  rcases exec_eq_ok h with ⟨state, sshRc, -, rfl, rfl⟩ | ⟨-, rfl, rfl⟩ |
    ⟨sshRc, b, -, hcompleted, rfl⟩
  · exact .same rfl (by simp)
  · exact .same rfl (by simp)
  · exact (completed_announced (a := a.sshOpDequeue s) hbefore hup hcompleted).congr rfl
      (by simp)

theorem timeout_announced (hbefore : a.recover.state ≠ .unrecoverable)
    (hup : a.recover.state = .running ∨ a.recover.state = .failed)
    (h : a.timeout s env = .ok (a', outputs)) : Announced a a' outputs := by
  have hrecover : (a.sshTimeoutFlush s).recover = a.recover := flush_recover _ _
  have hbefore' : (a.sshTimeoutFlush s).recover.state ≠ .unrecoverable := by rwa [hrecover]
  have hup' : (a.sshTimeoutFlush s).recover.state = .running ∨
      (a.sshTimeoutFlush s).recover.state = .failed := by rwa [hrecover]
  have hannounced : Announced (a.sshTimeoutFlush s) a' outputs := by
    unfold timeout at h
    split at h
    · exact unhealthy_announced hbefore' hup' h
    · have hset := recoverSet_announced hbefore' env.now (Or.inr (Or.inr ⟨rfl, hup'⟩))
      rwa [Except.ok.inj h] at hset
  exact hannounced.congr (congrArg Recover.state hrecover) rfl

theorem poll_announced (hbefore : a.recover.state ≠ .unrecoverable)
    (h : a.poll env = .ok (a', outputs)) : Announced a a' outputs := by
  cases pollStep_of_poll h with
  | unanswered => exact .same rfl (by simp)
  | active => exact .same rfl (by simp)
  | pending => exact (recoverSet_announced hbefore env.now (Or.inl rfl)).congr rfl rfl

theorem up_announced (hbefore : a.recover.state ≠ .unrecoverable)
    (h : a.up env = .ok (a', outputs)) : Announced a a' outputs := by
  have hset := recoverSet_announced hbefore env.now (Or.inr (Or.inl rfl))
  simp only [up] at h
  split at h
  · next b hcheck =>
      cases h
      exact hset.congr rfl (congrArg Recover.state (assemblyHealthcheck_recover hcheck))
  · cases h

theorem handshake_announced (hbefore : a.recover.state ≠ .unrecoverable)
    (h : a.handshake env = .ok (a', outputs)) : Announced a a' outputs := by
  unfold handshake at h
  split at h
  · cases h
  split at h
  · cases h
    exact .same rfl (by simp)
  · cases h
    exact .same rfl (by simp)
  · cases h
  · refine Announced.congr (up_announced ?_ h) rfl rfl
    exact hbefore
  · exact up_announced hbefore h

theorem reactJob_announced (hsettled : a.Settled) (hsound : a.Sound)
    (hbefore : a.recover.state ≠ .unrecoverable) {job : AssemblyJob} (hjob : job ∈ a.jobs)
    (hreact : (a.jobDel job).reactJob env job = .ok (a', outputs)) : Announced a a' outputs := by
  cases job with
  | myInstanceStateGet =>
      exact (poll_announced (a := a.jobDel _) hbefore hreact).congr rfl rfl
  | connectExecute =>
      simp only [reactJob, connectExecute] at hreact
      split at hreact
      · next b hconnect =>
          cases hreact
          split at hconnect
          · cases hconnect
          · split at hconnect <;> cases hconnect <;> exact .same rfl (by simp)
      · cases hreact
  | sshAssemblyConnect =>
      exact (handshake_announced (a := a.jobDel _) hbefore hreact).congr rfl rfl
  | assemblySshExec s =>
      have hmem := List.mem_of_mem_head? (hsound.commands.exec_queue hjob).1
      have hup := hsettled _ (hsound.commands.queue_connected hmem)
      exact (exec_announced (a := a.jobDel _) hbefore hup hreact).congr rfl rfl

theorem reactTimer_announced (hsettled : a.Settled) (hsound : a.Sound)
    (hbefore : a.recover.state ≠ .unrecoverable) {handle : Nat} {timer : AssemblyTimer}
    (htimer : (handle, timer) ∈ a.timers)
    (hreact : (a.timerDel handle).reactTimer env timer = .ok (a', outputs)) :
    Announced a a' outputs := by
  cases timer with
  | myInstanceStateGet =>
      exact (poll_announced (a := a.timerDel _) hbefore hreact).congr rfl rfl
  | sshTimeout s =>
      obtain ⟨-, t, hmem⟩ := hsound.commands.timeout_queued htimer
      have hup := hsettled _ (hsound.commands.queue_connected hmem)
      exact (timeout_announced (a := a.timerDel _) hbefore hup hreact).congr rfl rfl
  | sshKeepaliveSend t =>
      cases hreact
      exact .same rfl (by simp)
  | assemblyHealthcheck =>
      simp only [reactTimer] at hreact
      split at hreact
      · next b hcheck =>
          cases hreact
          have hrecover := assemblyHealthcheck_recover hcheck
          exact .same (congrArg Recover.state hrecover) (by simp)
      · cases hreact

end Assembly

/-! ## The changes of the resources -/

namespace Cape

variable {σ : Type} {c c' c'' : Cape σ} {d : Deployable} {env : Env} {o : Nat} {ec : Int}

variable [Stopwatch σ]

def changes (d : Deployable) (c : Cape σ) (env : Env) (op : PeOperation) (ec : Int) :
    List StateChange :=
  match resourceStateOf op ec, d.resource? op.hostname op.rname with
  | some state, some r =>
      (recoverStateSet (c.resources r).recover env.now state).2.filterMap
        (StateChange.ofCall r.assembly (some r.name))
  | _, _ => []

theorem filterMap_ofCall (r : Recover σ) (now : Nat) (state : RecoverState) (a : CString)
    (name : Option CString) :
    (recoverStateSet r now state).2.filterMap (StateChange.ofCall a name) =
      if r.state = state then [] else [⟨a, name, r.state, state⟩] := by
  have hsets := recoverStateSet_sets r now state
  generalize recoverStateSet r now state = result at hsets ⊢
  cases hsets with
  | same hsame => simp [hsame]
  | changed hne _ => simp [hne, StateChange.ofCall]
  | restarted hne _ => simp [hne, StateChange.ofCall]
  | escalated hne _ => simp [hne, StateChange.ofCall]

/-- What a completion reports of the resources: at most one change, and nothing else changes. -/
inductive Announced (c c' : Cape σ) : List StateChange → Prop where
  | same (h : SameRecords c c') : Announced c c' []
  | changed (r : ResourceId) (state : RecoverState) (hne : c.records r ≠ state)
      (h : c'.records = Function.update c.records r state) :
      Announced c c' [⟨r.assembly, some r.name, c.records r, state⟩]

omit [Stopwatch σ] in
theorem Announced.congr {changes : List StateChange} {b b' : Cape σ}
    (h : Announced b b' changes) (hbefore : SameRecords c b) (hafter : SameRecords b' c') :
    Announced c c' changes := by
  cases h with
  | same h => exact .same ((hbefore.trans h).trans hafter)
  | changed r state hne h =>
      rw [hbefore] at hne h ⊢
      exact .changed r state hne (Eq.trans hafter h)

theorem Reported.announced (h : Reported d (c.ops o) ec c c') :
    Announced c c' (c.changes d env (c.ops o) ec) := by
  unfold changes
  cases h with
  | kept hstate h =>
      rw [hstate]
      exact .same h
  | @set r state hstate hr h =>
      rw [hstate, hr]
      simp only [filterMap_ofCall]
      split
      case isTrue hsame => exact .same (h.trans (Function.update_eq_self_iff.mpr hsame.symm))
      case isFalse hne => exact .changed r state hne h

theorem completed_announced (h : c.resourceActionCompleted d env o ec = .ok c') :
    Announced c c' (c.changes d env (c.ops o) ec) :=
  (reported_of_completed h).announced

theorem completion_announced {sshRc : Int}
    (h : c.resourceActionCompletion d env o sshRc = .ok c') :
    Announced c c' (c.changes d env (c.ops o) ((c.ops o).exitcode sshRc)) := by
  exact (reported_of_completion h).announced

theorem executed_announced {state : RecoverState} {queued : Bool}
    (h : c.Executed d env o state c' queued) :
    Announced c c'
      (if state = .running then [] else c.changes d env (c.ops o) ocfUnknownError) := by
  rcases reported_of_executed h with ⟨hstate, hsame⟩ | ⟨hstate, hreported⟩
  · rw [if_pos hstate]
    exact .same hsame
  · rw [if_neg hstate]
    exact hreported.announced

end Cape

/-! ## The changes of an event -/

namespace World

variable {σ : Type}

def states (w : World σ) : Knowledge
  | a, none => (w.assemblies a).recover.state
  | a, some name => w.cape.records ⟨a, name⟩

variable [Stopwatch σ]

def reaction (w : World σ) : Event → Option (Except Fault (Assembly σ × List Output))
  | .job a job env => some (((w.assemblies a).jobDel job).reactJob env job)
  | .timer a handle env =>
      ((w.assemblies a).timers.find? (·.1 = handle)).map fun x =>
        ((w.assemblies a).timerDel handle).reactTimer env x.2
  | _ => none

/-- The changes that a call of a handler reports; the handler leaves the assembly in this state. -/
def callChanges (d : Deployable) (w : World σ) (a : CString) (env : Env) (after : RecoverState) :
    Output → List StateChange
  | .stateChanging => [⟨a, none, (w.assemblies a).recover.state, after⟩]
  | .actionCompleted o sshRc =>
      w.cape.changes d env (w.cape.ops o) ((w.cape.ops o).exitcode sshRc)
  | .restarted | .address _ => []

def changes (d : Deployable) (w : World σ) (e : Event) : List StateChange :=
  match e with
  | .job a _ env | .timer a _ env =>
      match w.reaction e with
      | some (.ok (asm, outputs)) => outputs.flatMap (w.callChanges d a env asm.recover.state)
      | some (.error _) | none => []
  | .monitorTimer handle env =>
      match w.cape.monitorTimers.find? (·.1 = handle) with
      | none => []
      | some (_, o) =>
          if (w.assemblies (w.cape.ops o).hostname).recover.state = .running then []
          else w.cape.changes d env (w.cape.ops o) ocfUnknownError
  | .fire (.rsc spec) env =>
      if (w.assemblies spec.hostname).recover.state = .running then []
      else
        let c := execRscAction w.cape (w.cape.pe.inRunGraph.getD 0) spec
        c.changes d env (c.ops w.cape.opCount) ocfUnknownError
  | .fire .confirmed _ | .processJob | .processNextJob _ | .runGraphReturn _ => []

/-- An event reports every change of state, and that of a node with a text. -/
inductive Announced (w w' : World σ) : List StateChange → Prop where
  | same (h : w'.states = w.states) : Announced w w' []
  | changed {n : StateChange} (hbefore : n.before = w.states n.assembly n.resource)
      (hne : n.before ≠ n.after)
      (h : w'.states = w.states.set n.assembly n.resource n.after)
      (hnode : n.resource = none → n.after ≠ .unrecoverable ∧
        (stateStr n.before n.after).isSome = true) : Announced w w' [n]

variable {d : Deployable} {w w' : World σ} {e : Event} {a : CString} {env : Env}
  {asm : Assembly σ} {outputs : List Output} {c : Cape σ} {ns : List StateChange}

omit [Stopwatch σ] in
theorem Announced.of_cape (h : w.cape.Announced w'.cape ns)
    (hstates : ∀ a, (w'.assemblies a).recover.state = (w.assemblies a).recover.state) :
    w.Announced w' ns := by
  cases h with
  | same h =>
      refine .same (funext fun a => funext fun r => ?_)
      cases r with
      | none => exact hstates a
      | some name => exact congrFun h _
  | changed r state hne h =>
      refine .changed rfl hne (funext fun a => funext fun r' => ?_) (fun hr => nomatch hr)
      cases r' with
      | none => simpa [Knowledge.set, states] using hstates a
      | some name =>
          obtain ⟨owner, rname⟩ := r
          simp only [states, h, Knowledge.set, Function.update_apply, Option.some.injEq,
            ResourceId.mk.injEq]

omit [Stopwatch σ] in
theorem update_state (hstate : asm.recover.state = (w.assemblies a).recover.state) (b : CString) :
    (Function.update w.assemblies a asm b).recover.state = (w.assemblies b).recover.state := by
  by_cases hb : b = a
  · subst hb
    simpa using hstate
  · rw [Function.update_of_ne hb]

omit [Stopwatch σ] in
theorem Announced.of_node (hrecords : w.cape.SameRecords c)
    (hne : (w.assemblies a).recover.state ≠ asm.recover.state)
    (hafter : asm.recover.state ≠ .unrecoverable)
    (htext : (stateStr (w.assemblies a).recover.state asm.recover.state).isSome = true) :
    w.Announced ⟨Function.update w.assemblies a asm, c⟩
      [⟨a, none, (w.assemblies a).recover.state, asm.recover.state⟩] := by
  refine .changed rfl hne (funext fun b => funext fun r => ?_) fun _ => ⟨hafter, htext⟩
  cases r with
  | none =>
      by_cases hb : b = a
      · subst hb
        simp [states, Knowledge.set]
      · simp [states, Knowledge.set, hb]
  | some name => simpa [states, Knowledge.set] using congrFun hrecords _

theorem callChanges_quiet (hquiet : ∀ x ∈ outputs, x.Quiet) (hnot : .stateChanging ∉ outputs)
    (after : RecoverState) : outputs.flatMap (w.callChanges d a env after) = [] := by
  refine List.flatMap_eq_nil_iff.mpr fun x hx => ?_
  cases x with
  | stateChanging => exact absurd hx hnot
  | address | restarted => rfl
  | actionCompleted => exact (hquiet _ hx).elim

theorem Announced.of_quiet (hquiet : ∀ x ∈ outputs, x.Quiet)
    (h : (w.assemblies a).Announced asm outputs)
    (hcalls : outputs.foldlM (Cape.receive d a env) w.cape = .ok c) :
    w.Announced ⟨Function.update w.assemblies a asm, c⟩
      (outputs.flatMap (w.callChanges d a env asm.recover.state)) := by
  have hrecords := records_receive_quiet hquiet hcalls
  cases h with
  | same hstate hnot =>
      rw [callChanges_quiet hquiet hnot]
      exact .of_cape (.same hrecords) (update_state hstate)
  | changed houtputs hne hafter htext =>
      rcases houtputs with rfl | rfl
      · exact .of_node hrecords hne hafter htext
      · exact (hquiet .restarted (by simp)).elim

theorem Announced.of_reaction (heffect : (w.assemblies a).Effect asm outputs)
    (h : (w.assemblies a).Announced asm outputs)
    (hcalls : outputs.foldlM (Cape.receive d a env) w.cape = .ok c) :
    w.Announced ⟨Function.update w.assemblies a asm, c⟩
      (outputs.flatMap (w.callChanges d a env asm.recover.state)) := by
  cases heffect with
  | kept hquiet => exact .of_quiet hquiet h hcalls
  | @completed o sshRc =>
      have hdone : w.cape.resourceActionCompletion d env o sshRc = .ok c := by
        simpa [Cape.receive] using hcalls
      cases h with
      | same hstate hnot =>
          rw [List.flatMap_singleton]
          exact .of_cape (Cape.completion_announced hdone) (update_state hstate)
      | changed houtputs => simp at houtputs
  | restarted =>
      cases h with
      | same hstate hnot => simp at hnot
      | changed houtputs hne hafter htext =>
          cases hcalls
          have hrecords : w.cape.SameRecords (w.cape.scheduleProcessing.nodeOpHistoryClear a) :=
            .nodeOpHistoryClear w.cape.scheduleProcessing a
          exact .of_node hrecords hne hafter htext

theorem monitorTimer_announced {handle : Nat} (hsound : ∀ a, (w.assemblies a).Sound)
    (hstep : World.step d w (.monitorTimer handle env) = .ok w')
    (hstates : ∀ a, (w'.assemblies a).recover.state = (w.assemblies a).recover.state) :
    w.Announced w' (w.changes d (.monitorTimer handle env)) := by
  obtain ⟨o, hfind, hcape⟩ := step_monitorTimer hsound hstep
  simp only [changes, hfind]
  refine .of_cape ?_ hstates
  rcases hcape with ⟨hstate, hok⟩ | ⟨hstate, hhand⟩
  · rw [if_neg hstate]
    exact (Cape.completed_announced hok).congr rfl rfl
  · rw [if_pos hstate, hhand]
    exact .same rfl

theorem step_announced (h : w.Circling) (hstep : World.step d w e = .ok w')
    (hbefore : ∀ a, (w.assemblies a).recover.state ≠ .unrecoverable) :
    w.Announced w' (w.changes d e) := by
  have htransition := step_transition h.sound hstep
  have hengine : ∀ {c : Cape σ}, Engine w.cape c → w.Announced { w with cape := c } [] :=
    fun hc => .of_cape (.same (.engine hc)) fun _ => rfl
  have hsubmit : ∀ {b : CString} {o : Nat} {command : CString} (a : CString),
      (Function.update w.assemblies b ((w.assemblies b).submit o command) a).recover.state =
        (w.assemblies a).recover.state :=
    fun a => update_state (congrArg Recover.state (Assembly.submit_recover _ _ _)) a
  cases htransition with
  | @job a job env asm outputs c hgraph hjob hreact hcalls =>
      obtain ⟨-, heffect⟩ := Assembly.reactJob_sound (h.sound _) hjob hreact
      simp only [changes, reaction, hreact]
      exact .of_reaction heffect
        (Assembly.reactJob_announced (h.settled a) (h.sound a) (hbefore a) hjob hreact) hcalls
  | @timer a handle timer env asm outputs c hgraph htimer hreact hcalls =>
      have hannounced :=
        Assembly.reactTimer_announced (h.settled a) (h.sound a) (hbefore a) htimer hreact
      simp only [changes, reaction, find_timer (h.sound a) htimer, Option.map_some, hreact]
      obtain ⟨-, heffect | ⟨-, -, hquiet⟩⟩ := Assembly.reactTimer_sound (h.sound _) htimer hreact
      · exact .of_reaction heffect hannounced hcalls
      · exact .of_quiet hquiet hannounced hcalls
  | monitorOffline => exact monitorTimer_announced h.sound hstep fun _ => rfl
  | monitorRequest => exact monitorTimer_announced h.sound hstep hsubmit
  | processJob hgraph hpos => exact hengine .processJob
  | processNextJob hgraph hmem => exact hengine (.processNextJob hgraph hmem)
  | confirmed hgraph => exact hengine .confirmed
  | @fire graph spec env c queued command hgraph hexec =>
      have hannounced := (Cape.executed_announced hexec).congr (c := w.cape) rfl rfl
      simp only [changes, hgraph, Option.getD_some]
      refine .of_cape hannounced fun a => ?_
      cases queued with
      | false => rfl
      | true => exact hsubmit a
  | returned hgraph hconfirmed => exact hengine (.returned hgraph hconfirmed)

/-! ## Runs -/

def knowledge (app : CString) (ns : List StateChange) : Knowledge :=
  (ns.map (·.document app)).foldl Knowledge.learn .initial

def Recoverable (ns : List StateChange) (a : CString) (r : Option CString) : Prop :=
  ∀ n ∈ ns, n.assembly = a → n.resource = r → n.after ≠ .unrecoverable

instance (ns : List StateChange) (a : CString) (r : Option CString) :
    Decidable (Recoverable ns a r) :=
  inferInstanceAs (Decidable (∀ n ∈ ns, _))

structure Informed (app : CString) (w : World σ) (ns : List StateChange) : Prop where
  nodes : ∀ n ∈ ns, n.resource = none → n.after ≠ .unrecoverable ∧
    (stateStr n.before n.after).isSome = true
  known : ∀ a r, Recoverable ns a r →
    knowledge app ns a r = w.states a r ∧ w.states a r ≠ .unrecoverable

omit [Stopwatch σ] in
theorem Informed.node {app : CString} (h : Informed app w ns) (a : CString) :
    Recoverable ns a none :=
  fun n hn _ hr => (h.nodes n hn hr).1

omit [Stopwatch σ] in
theorem Informed.announced {app : CString} {ns' : List StateChange} (h : Informed app w ns)
    (hannounced : w.Announced w' ns') : Informed app w' (ns ++ ns') := by
  cases hannounced with
  | same hstates =>
      rw [List.append_nil]
      exact ⟨h.nodes, fun a r hr => by rw [hstates]; exact h.known a r hr⟩
  | @changed n hbefore hne hstates hnode =>
      have hlearn : knowledge app (ns ++ [n]) = (knowledge app ns).set n.assembly n.resource
          (stateOfText ((stateStr n.before n.after).getD [])) := by
        simp only [knowledge, List.map_append, List.foldl_append, List.map_cons, List.map_nil,
          List.foldl_cons, List.foldl_nil]
        rw [Knowledge.learn, readEvent_document]
      constructor
      · simp only [List.forall_mem_append, List.forall_mem_singleton]
        exact ⟨h.nodes, hnode⟩
      · intro a r hr
        simp only [Recoverable, List.forall_mem_append, List.forall_mem_singleton] at hr
        obtain ⟨hknown, hrecoverable⟩ := h.known a r hr.1
        rw [hlearn, hstates]
        unfold Knowledge.set
        split
        case isTrue heq =>
          obtain ⟨rfl, rfl⟩ := heq
          rw [← hbefore] at hrecoverable
          exact ⟨stateOfText_stateStr hne hrecoverable, hr.2 rfl rfl⟩
        case isFalse => exact ⟨hknown, hrecoverable⟩

/--
After every run, an observer who follows the documents knows the state of every assembly, and of
every resource that has never been unrecoverable.  No document about a node lacks its text.
-/
theorem observer_knows {errno : ResourceId → Int} {answers : CString → Env}
    {events : List Event} (h : Reaches d errno answers events w) (app : CString) :
    let ns := trace (World.step d) (changes d) (load d errno answers : World σ) events
    (∀ a, knowledge app ns a none = (w.assemblies a).recover.state) ∧
      (∀ r : ResourceId, Recoverable ns r.assembly (some r.name) →
        knowledge app ns r.assembly (some r.name) = (w.cape.resources r).recover.state) ∧
      ∀ n ∈ ns, n.resource = none → ∃ text, n.document app =
        adminEvent app (some n.assembly) none text "bla".toList := by
  have hinit : Informed app (load d errno answers : World σ) [] := by
    refine ⟨by simp, fun a r _ => ?_⟩
    have hstate : (load d errno answers : World σ).states a r = .unknown := by
      cases r with
      | none =>
          rw [states, load_assemblies]
          split <;> rfl
      | some name =>
          obtain ⟨cloud, hcape⟩ := load_cape (σ := σ) d errno answers
          rw [states, hcape]
          rfl
    rw [hstate]
    exact ⟨rfl, by simp⟩
  have hinformed := run_trace (changes d)
    (I := fun (w : World σ) ns => w.Circling ∧ Informed app w ns)
    (fun {w e w' ns} ⟨hcircling, hinformed⟩ hstep => by
      have hbefore : ∀ a, (w.assemblies a).recover.state ≠ .unrecoverable :=
        fun a => (hinformed.known a none (hinformed.node a)).2
      exact ⟨hcircling.step hstep,
        hinformed.announced (step_announced hcircling hstep hbefore)⟩)
    ⟨load_circling d errno answers, hinit⟩ h
  rw [List.nil_append] at hinformed
  obtain ⟨-, hinformed⟩ := hinformed
  refine ⟨fun a => (hinformed.known a none (hinformed.node a)).1,
    fun r hr => (hinformed.known r.assembly (some r.name) hr).1, fun n hn hr => ?_⟩
  obtain ⟨text, htext⟩ := Option.isSome_iff_exists.mp (hinformed.nodes n hn hr).2
  exact ⟨text, by rw [StateChange.document_eq htext, hr]⟩

def angusFails : List Event :=
  monitoring ++ [.monitorTimer 1 workingEnv,
    .job bar (.assemblySshExec 3) { workingEnv with exitStatus := 1 }]

theorem observer_knows_angusFails :
    ∃ w, BarReaches angusFails w ∧ (w.assemblies bar).recover.state = .running ∧
      (w.cape.resources ⟨bar, "rsc_bar_angus".toList⟩).recover.state = .failed ∧
      (let ns := trace (World.step barDeployable) (changes barDeployable)
        (load (σ := Ring) barDeployable (fun _ => 0) fun _ => workingEnv) angusFails
      knowledge bar ns bar none = .running ∧
        knowledge bar ns bar (some "rsc_bar_angus".toList) = .failed) := by
  obtain ⟨w, hreach, hnode, hresource⟩ :
      ∃ w, BarReaches angusFails w ∧ (w.assemblies bar).recover.state = .running ∧
        (w.cape.resources ⟨bar, "rsc_bar_angus".toList⟩).recover.state = .failed :=
    exists_reaches (by decide +kernel)
  obtain ⟨hnodes, hresources, -⟩ := observer_knows hreach bar
  refine ⟨w, hreach, hnode, hresource, (hnodes bar).trans hnode, ?_⟩
  exact (hresources ⟨bar, "rsc_bar_angus".toList⟩ (by decide +kernel)).trans hresource

end World

end PacemakerCloud

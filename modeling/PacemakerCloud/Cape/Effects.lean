import PacemakerCloud.Daemon.Transition

/-!
# What the functions of `cape.c` leave alone

Relations between the daemon before and after a function.  `Bookkeeping`: the
operations and the monitors of the resources are as before, except that timers
may have been deleted.  `Quiet`, which is weaker: no operation was handed over,
executed or completed.  `Unwinds` is `Quiet` for the functions that stop monitors.
-/

namespace PacemakerCloud

open Foundation

def PeOperation.core (op : PeOperation) : PeOperation :=
  { op with refcount := 0, unrefAtZero := false, resource := none }

def PeOperation.target (op : PeOperation) : ResourceId := ⟨op.hostname, op.rname⟩

def PeOperation.Recurs (op : PeOperation) (ec : Int) : Prop :=
  0 < op.interval ∧ ¬ op.Unexpected ec

instance (op : PeOperation) (ec : Int) : Decidable (op.Recurs ec) :=
  inferInstanceAs (Decidable (_ ∧ _))

namespace Cape

variable {σ : Type} {c c' c'' : Cape σ}

/-! ## Bookkeeping -/

structure SameMonitors (c c' : Cape σ) : Prop where
  opCount : c'.opCount = c.opCount
  ops : c'.ops = c.ops
  timers : c'.monitorTimers.Sublist c.monitorTimers
  timerCount : c'.timerCount = c.timerCount
  monitorOp : ∀ r, (c'.resources r).monitorOp = (c.resources r).monitorOp
  monitorTimer : ∀ r, (c'.resources r).monitorTimer = (c.resources r).monitorTimer
  stopped : ∀ r, (c'.resources r).stopped = (c.resources r).stopped
  live : ∀ a, (c'.cloud a).live.Sublist (c.cloud a).live

structure Bookkeeping (c c' : Cape σ) : Prop extends SameMonitors c c' where
  pe : c'.pe = c.pe
  handed : c'.handed = c.handed

namespace Bookkeeping

theorem refl (c : Cape σ) : Bookkeeping c c :=
  ⟨⟨rfl, rfl, .refl _, rfl, fun _ => rfl, fun _ => rfl, fun _ => rfl, fun _ => .refl _⟩,
    rfl, rfl⟩

theorem trans (h : Bookkeeping c c') (h' : Bookkeeping c' c'') : Bookkeeping c c'' where
  pe := h'.pe.trans h.pe
  opCount := h'.opCount.trans h.opCount
  handed := h'.handed.trans h.handed
  ops := h'.ops.trans h.ops
  timers := h'.timers.trans h.timers
  timerCount := h'.timerCount.trans h.timerCount
  monitorOp r := (h'.monitorOp r).trans (h.monitorOp r)
  monitorTimer r := (h'.monitorTimer r).trans (h.monitorTimer r)
  stopped r := (h'.stopped r).trans (h.stopped r)
  live a := (h'.live a).trans (h.live a)

theorem timerDel (c : Cape σ) (handle : Nat) : Bookkeeping c (c.timerDel handle) :=
  { refl c with timers := List.filter_sublist }

theorem scheduleProcessing (c : Cape σ) : Bookkeeping c c.scheduleProcessing :=
  { refl c with }

theorem modifyCloud (c : Cape σ) (a : CString) {f : Instance → Instance}
    (hf : ∀ i, (f i).live.Sublist i.live) : Bookkeeping c (c.modifyCloud a f) := by
  refine { refl c with live := fun b => ?_ }
  by_cases hb : b = a
  · subst hb
    simpa [Cape.modifyCloud] using hf (c.cloud b)
  · simp [Cape.modifyCloud, Function.update_of_ne hb]

theorem setRecover (c : Cape σ) (r : ResourceId) (recover : Recover σ) :
    Bookkeeping c (c.modifyResource r ({ · with recover := recover })) := by
  refine { refl c with monitorOp := ?_, monitorTimer := ?_, stopped := ?_ } <;>
  · intro r'
    by_cases hr : r' = r
    · subst hr
      simp [modifyResource]
    · simp [modifyResource, Function.update_of_ne hr]

theorem opHistoryEntry (c : Cape σ) (r : ResourceId) (op : PeOperation) :
    Bookkeeping c (c.opHistoryEntry r op).1 := by
  unfold Cape.opHistoryEntry
  split
  · exact { refl c with }
  · split
    · exact { refl c with }
    · exact refl c

theorem opHistorySave (c : Cape σ) (now : Nat) (r : ResourceId) (o : Nat) (ec : Int) :
    Bookkeeping c (c.opHistorySave now r o ec) :=
  (opHistoryEntry c r (c.ops o)).trans { refl _ with }

theorem instanceDestroy (c : Cape σ) (a : CString) (reply : DestroyReply) :
    Bookkeeping c (c.instanceDestroy a reply) := by
  refine modifyCloud c a fun i => ?_
  simp only
  split
  · exact List.erase_sublist
  · exact .refl _

theorem resourceCallback (env : Env) (r : ResourceId) (c : Cape σ) (call : RecoverCall) :
    Bookkeeping c (c.resourceCallback env r call) := by
  cases call with
  | stateChanging before after => exact refl c
  | restart => exact timerDel c _
  | escalate => exact (timerDel c _).trans (instanceDestroy _ _ _)

theorem confirmFirst (h : Bookkeeping c c') (o : Nat) (ec : Int) :
    Bookkeeping (c.confirmFirst o ec) (c'.confirmFirst o ec) := by
  unfold Cape.confirmFirst
  rw [h.ops]
  split
  · exact { h with pe := by simp only [peResourceCompleted, h.pe] }
  · exact h

theorem opHistoryRecord {env : Env} {r : Option ResourceId} {o : Nat} {ec : Int}
    (h : c.opHistoryRecord env r o ec = .ok c') : Bookkeeping c c' := by
  unfold Cape.opHistoryRecord at h
  split at h
  · obtain ⟨r, -, heq⟩ := bind_eq_ok.mp h
    cases heq
    exact opHistorySave c _ _ _ _
  · cases h
    exact refl c

theorem resourceStateSet [Stopwatch σ] {env : Env} {r : Option ResourceId}
    {op : PeOperation} {ec : Int} (h : c.resourceStateSet env r op ec = .ok c') :
    Bookkeeping c c' := by
  unfold Cape.resourceStateSet at h
  split at h
  · cases h
    exact refl c
  · obtain ⟨r, -, heq⟩ := bind_eq_ok.mp h
    cases heq
    exact (setRecover c r _).trans (foldl_rel refl trans (resourceCallback env r) _ _)

end Bookkeeping

/-! ## Completing an operation -/

def execute (c : Cape σ) (o : Nat) (ec : Int) : Cape σ :=
  (c.timesExecutedAdd o).confirmFirst o ec

theorem resourceActionRelease_ok {r : Option ResourceId} {o : Nat} {ec : Int}
    (h : c.resourceActionRelease r o ec = .ok c') :
    ¬ (c.ops o).Recurs ec ∧ c' = c.peResourceUnref o ∨
      ∃ r', r = some r' ∧ (c.ops o).Recurs ec ∧ c' = c.monitorTimerAdd r' o := by
  unfold resourceActionRelease at h
  split at h
  case isFalse hinterval =>
    exact Or.inl ⟨fun hrecurs => hinterval hrecurs.1, (Except.ok.inj h).symm⟩
  case isTrue hinterval =>
    split at h
    case isTrue hunexpected =>
      exact Or.inl ⟨fun hrecurs => hrecurs.2 hunexpected, (Except.ok.inj h).symm⟩
    case isFalse hexpected =>
      cases r with
      | none => cases h
      | some r' => exact Or.inr ⟨r', rfl, ⟨hinterval, hexpected⟩, (Except.ok.inj h).symm⟩

theorem execute_recurs (c : Cape σ) (o : Nat) (ec : Int) :
    ((c.execute o ec).ops o).Recurs ec ↔ (c.ops o).Recurs ec := by
  simp only [execute, confirmFirst]
  split <;>
    simp [peResourceCompleted, timesExecutedAdd, modifyOp, PeOperation.Recurs,
      PeOperation.Unexpected]

theorem bookkeeping_execute [Stopwatch σ] {env : Env} {r : Option ResourceId} {o : Nat}
    {op : PeOperation} {ec : Int} {c₁ c₂ : Cape σ}
    (hrecord : (c.timesExecutedAdd o).opHistoryRecord env r o ec = .ok c₁)
    (hset : (c₁.confirmFirst o ec).resourceStateSet env r op ec = .ok c₂) :
    Bookkeeping (c.execute o ec)
      (if op.Unexpected ec then c₂.scheduleProcessing else c₂) := by
  refine (((Bookkeeping.opHistoryRecord hrecord).confirmFirst o ec).trans
    (.resourceStateSet hset)).trans ?_
  split
  · exact .scheduleProcessing _
  · exact .refl _

/--
`resource_action_completed`: the operation is confirmed, and then either released
or, for an expected result of a recurring operation, its timer is armed.
-/
theorem resourceActionCompleted_ok [Stopwatch σ] {d : Deployable} {env : Env} {o : Nat}
    {ec : Int} (h : c.resourceActionCompleted d env o ec = .ok c') :
    ∃ mid, Bookkeeping (c.execute o ec) mid ∧
      (¬ (c.ops o).Recurs ec ∧ c' = mid.peResourceUnref o ∨
        ∃ r, d.resource? (c.ops o).hostname (c.ops o).rname = some r ∧
          (c.ops o).Recurs ec ∧ c' = mid.monitorTimerAdd r o) := by
  simp only [resourceActionCompleted] at h
  split at h
  · cases h
  obtain ⟨c₁, hrecord, h⟩ := bind_eq_ok.mp h
  obtain ⟨c₂, hset, hrelease⟩ := bind_eq_ok.mp h
  have hmid := bookkeeping_execute hrecord hset
  have hend := resourceActionRelease_ok hrelease
  rw [hmid.ops, execute_recurs] at hend
  exact ⟨_, hmid, hend⟩

/-! ## Functions that leave the executions alone -/

structure Quiet (c c' : Cape σ) : Prop where
  pe : c'.pe = c.pe
  opCount : c'.opCount = c.opCount
  handed : c'.handed = c.handed
  core : ∀ o, (c'.ops o).core = (c.ops o).core
  timers : c'.monitorTimers.Sublist c.monitorTimers

theorem Bookkeeping.quiet (h : Bookkeeping c c') : Quiet c c' :=
  ⟨h.pe, h.opCount, h.handed, fun o => by rw [h.ops], h.timers⟩

namespace Quiet

theorem refl (c : Cape σ) : Quiet c c := (Bookkeeping.refl c).quiet

theorem trans (h : Quiet c c') (h' : Quiet c' c'') : Quiet c c'' where
  pe := h'.pe.trans h.pe
  opCount := h'.opCount.trans h.opCount
  handed := h'.handed.trans h.handed
  core o := (h'.core o).trans (h.core o)
  timers := h'.timers.trans h.timers

theorem hostname (h : Quiet c c') (o : Nat) :
    (c'.ops o).hostname = (c.ops o).hostname :=
  congrArg (fun op => op.hostname) (h.core o)

theorem graph (h : Quiet c c') (o : Nat) : (c'.ops o).graph = (c.ops o).graph :=
  congrArg (fun op => op.graph) (h.core o)

theorem timesExecuted (h : Quiet c c') (o : Nat) :
    (c'.ops o).timesExecuted = (c.ops o).timesExecuted :=
  congrArg (fun op => op.timesExecuted) (h.core o)

theorem executions (h : Quiet c c') (o : Nat) :
    (c'.ops o).executions = (c.ops o).executions :=
  congrArg (fun op => op.executions) (h.core o)

theorem modifyOp (c : Cape σ) (o : Nat) {f : PeOperation → PeOperation}
    (hf : ∀ op, (f op).core = op.core) : Quiet c (c.modifyOp o f) := by
  refine { refl c with core := fun x => ?_ }
  by_cases hx : x = o
  · subst hx
    simpa [Cape.modifyOp] using hf (c.ops x)
  · simp [Cape.modifyOp, Function.update_of_ne hx]

theorem modifyResource (c : Cape σ) (r : ResourceId) (f : Resource σ → Resource σ) :
    Quiet c (c.modifyResource r f) :=
  { refl c with }

theorem digestFree (c : Cape σ) (digest : Nat) : Quiet c (c.digestFree digest) :=
  { refl c with }

theorem peResourceRef (c : Cape σ) (o : Nat) : Quiet c (c.peResourceRef o) :=
  modifyOp c o fun _ => rfl

theorem instanceRequests (c : Cape σ) (a : CString) (env : Env) :
    Quiet c (c.instanceRequests a env) :=
  { refl c with }

theorem setStopped (c : Cape σ) (r : ResourceId) (stopped : Bool) :
    Quiet c (c.setStopped r stopped) :=
  modifyResource c r _

theorem setResource (c : Cape σ) (o : Nat) (r : Option ResourceId) :
    Quiet c (c.setResource o r) :=
  modifyOp c o fun _ => rfl

theorem startMonitor (c : Cape σ) (r : ResourceId) (o : Nat) :
    Quiet c (c.startMonitor r o) :=
  ((setStopped c r false).trans (peResourceRef _ o)).trans (modifyResource _ r _)

end Quiet

/-! ## Functions that stop monitors -/

structure Unwinding (R : Cape σ → Cape σ → Prop) : Prop where
  refl : ∀ c, R c c
  trans : ∀ {c c' c''}, R c c' → R c' c'' → R c c''
  timerDel : ∀ c handle, R c (c.timerDel handle)
  peResourceUnref : ∀ c o, R c (c.peResourceUnref o)
  clearMonitorOp : ∀ c r, R c (c.modifyResource r ({ · with monitorOp := none }))

def dropEntry (c : Cape σ) (oh : OperationHistory) : Cape σ :=
  { c with history := c.history.filter (·.rscId ≠ oh.rscId) }.digestFree oh.opDigest

namespace Unwinding

variable {R : Cape σ → Cape σ → Prop}

theorem stopMonitor (h : Unwinding R) (c : Cape σ) (r : ResourceId) :
    R c (c.stopMonitor r) := by
  unfold Cape.stopMonitor
  split
  case h_2 => exact h.refl c
  case h_1 o hmonitor =>
    unfold recurringMonitorStop
    split
    · exact h.refl c
    · refine h.trans ?_ (h.trans (h.clearMonitorOp _ _) (h.peResourceUnref _ _))
      split
      · exact h.trans (h.timerDel c _) (h.peResourceUnref _ _)
      · exact h.refl c

theorem stopWaitingMonitor (h : Unwinding R) (c : Cape σ) (r : ResourceId) :
    R c (c.stopWaitingMonitor r) := by
  unfold Cape.stopWaitingMonitor
  split
  · exact h.stopMonitor c _
  · exact h.refl c

theorem clearEntry (h : Unwinding R) (hdrop : ∀ c oh, R c (c.dropEntry oh)) (c : Cape σ)
    (oh : OperationHistory) : R c (c.clearEntry oh) :=
  h.trans (h.stopWaitingMonitor c oh.resource) (hdrop _ oh)

theorem clearHistory (h : Unwinding R) (hdrop : ∀ c oh, R c (c.dropEntry oh)) (c : Cape σ)
    (drop : ResourceId → Bool) : R c (c.clearHistory drop) := by
  refine foldl_rel h.refl h.trans (fun c oh => ?_) _ c
  split
  · exact h.clearEntry hdrop c oh
  · exact h.refl c

end Unwinding

structure Unwinds (c c' : Cape σ) : Prop extends Quiet c c' where
  resource : ∀ o, (c'.ops o).resource = (c.ops o).resource
  timerCount : c'.timerCount = c.timerCount
  monitorOp : ∀ r, (c'.resources r).monitorOp = none ∨
    (c'.resources r).monitorOp = (c.resources r).monitorOp
  monitorTimer : ∀ r, (c'.resources r).monitorTimer = (c.resources r).monitorTimer
  stopped : ∀ r, (c'.resources r).stopped = (c.resources r).stopped
  cloud : c'.cloud = c.cloud

@[simp] theorem peResourceUnref_ops (c : Cape σ) (o : Nat) :
    (c.peResourceUnref o).ops = Function.update c.ops o
      { c.ops o with
        refcount := uint32Pred (c.ops o).refcount
        unrefAtZero := (c.ops o).unrefAtZero || (c.ops o).refcount == 0 } := by
  simp only [peResourceUnref]
  split <;> rfl

@[simp] theorem peResourceUnref_resources (c : Cape σ) (o : Nat) :
    (c.peResourceUnref o).resources = c.resources := by
  simp only [peResourceUnref]
  split <;> rfl

theorem peResourceUnref_eq (c : Cape σ) (o : Nat) :
    ∃ digests, c.peResourceUnref o =
      { c with ops := (c.peResourceUnref o).ops, digests := digests } := by
  simp only [peResourceUnref]
  split
  · exact ⟨_, rfl⟩
  · exact ⟨_, rfl⟩

@[simp] theorem peResourceUnref_history (c : Cape σ) (o : Nat) :
    (c.peResourceUnref o).history = c.history := by
  obtain ⟨digests, heq⟩ := peResourceUnref_eq c o
  rw [heq]

namespace Unwinds

theorem refl (c : Cape σ) : Unwinds c c :=
  ⟨.refl c, fun _ => rfl, rfl, fun _ => Or.inr rfl, fun _ => rfl, fun _ => rfl, rfl⟩

theorem trans (h : Unwinds c c') (h' : Unwinds c' c'') : Unwinds c c'' where
  toQuiet := h.toQuiet.trans h'.toQuiet
  resource o := (h'.resource o).trans (h.resource o)
  timerCount := h'.timerCount.trans h.timerCount
  monitorOp r := (h'.monitorOp r).elim Or.inl fun heq =>
    (h.monitorOp r).imp heq.trans heq.trans
  monitorTimer r := (h'.monitorTimer r).trans (h.monitorTimer r)
  stopped r := (h'.stopped r).trans (h.stopped r)
  cloud := h'.cloud.trans h.cloud

theorem timerDel (c : Cape σ) (handle : Nat) : Unwinds c (c.timerDel handle) :=
  { refl c with timers := List.filter_sublist }

theorem peResourceUnref (c : Cape σ) (o : Nat) : Unwinds c (c.peResourceUnref o) := by
  have hop : ∀ x, ((c.peResourceUnref o).ops x).core = (c.ops x).core ∧
      ((c.peResourceUnref o).ops x).resource = (c.ops x).resource := by
    intro x
    by_cases hx : x = o
    · subst hx
      simp [PeOperation.core]
    · simp [Function.update_of_ne hx]
  obtain ⟨digests, heq⟩ := peResourceUnref_eq c o
  rw [heq]
  exact { refl c with core := fun x => (hop x).1, resource := fun x => (hop x).2 }

theorem clearMonitorOp (c : Cape σ) (r : ResourceId) :
    Unwinds c (c.modifyResource r ({ · with monitorOp := none })) := by
  refine { refl c with monitorOp := ?_, monitorTimer := ?_, stopped := ?_ } <;>
  · intro r'
    by_cases hr : r' = r
    · subst hr
      simp [modifyResource]
    · simp [modifyResource, Function.update_of_ne hr]

theorem unwinding : Unwinding (Unwinds (σ := σ)) where
  refl := refl
  trans := trans
  timerDel := timerDel
  peResourceUnref := peResourceUnref
  clearMonitorOp := clearMonitorOp

theorem stopMonitor (c : Cape σ) (r : ResourceId) : Unwinds c (c.stopMonitor r) :=
  unwinding.stopMonitor c r

theorem dropEntry (c : Cape σ) (oh : OperationHistory) : Unwinds c (c.dropEntry oh) :=
  { refl c with }

theorem clearEntry (c : Cape σ) (oh : OperationHistory) : Unwinds c (c.clearEntry oh) :=
  unwinding.clearEntry dropEntry c oh

theorem clearHistory (c : Cape σ) (drop : ResourceId → Bool) :
    Unwinds c (c.clearHistory drop) :=
  unwinding.clearHistory dropEntry c drop

end Unwinds

theorem Quiet.nodeOpHistoryClear (c : Cape σ) (a : CString) :
    Quiet c (c.nodeOpHistoryClear a) :=
  (Unwinds.clearHistory c _).toQuiet.trans { refl _ with }

end Cape

end PacemakerCloud

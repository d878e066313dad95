import PacemakerCloud.Daemon.Records
import PacemakerCloud.Daemon.Refcount

/-!
# Stopped resources and their timers

A stop, or the restart of the node, is meant to end the monitoring of a resource.
It deletes the one timer that `monitor_timer` names, if `monitor_op` is set; a
timer of another operation stays armed, and so does one that a request still in
flight arms when it completes.  Such a request also reports the stopped resource FAILED.
-/

namespace PacemakerCloud

open Foundation

namespace Cape

variable {σ : Type} {c c' c'' : Cape σ} {r : ResourceId}

def Armed (c : Cape σ) (r : ResourceId) : Prop :=
  ∃ x ∈ c.monitorTimers, (c.ops x.2).target = r

instance (c : Cape σ) (r : ResourceId) : Decidable (c.Armed r) :=
  inferInstanceAs (Decidable (∃ x ∈ _, _))

/-- Every timer armed for the resource is the one that a stop deletes. -/
def Stoppable (c : Cape σ) (r : ResourceId) : Prop :=
  ∀ x ∈ c.monitorTimers, (c.ops x.2).target = r →
    x.1 = (c.resources r).monitorTimer ∧ (c.resources r).monitorOp.isSome

instance (c : Cape σ) (r : ResourceId) : Decidable (c.Stoppable r) :=
  inferInstanceAs (Decidable (∀ x ∈ _, _))

structure Silent (c : Cape σ) : Prop where
  owner : ∀ {r o}, (c.resources r).monitorOp = some o →
    (c.ops o).resource = some r ∧ o < c.opCount
  armed_lt : ∀ x ∈ c.monitorTimers, x.2 < c.opCount
  silent : ∀ r, (c.resources r).stopped = true → ¬ c.Armed r

/-! ## Functions that arm nothing -/

structure SameTargets (c c' : Cape σ) : Prop where
  opCount : c.opCount ≤ c'.opCount
  target : ∀ o < c.opCount, (c'.ops o).target = (c.ops o).target
  timers : c'.monitorTimers ⊆ c.monitorTimers

structure Calms (c c' : Cape σ) : Prop extends SameTargets c c' where
  resource : ∀ o < c.opCount, (c'.ops o).resource = (c.ops o).resource
  monitorOp : ∀ r, (c'.resources r).monitorOp = none ∨
    (c'.resources r).monitorOp = (c.resources r).monitorOp
  stopped : ∀ r, (c'.resources r).stopped = true → (c.resources r).stopped = true

theorem Quiet.target (h : Quiet c c') (o : Nat) :
    (c'.ops o).target = (c.ops o).target :=
  congrArg (fun op => op.target) (h.core o)

theorem Quiet.sameTargets (h : Quiet c c') : SameTargets c c' :=
  ⟨h.opCount.ge, fun o _ => h.target o, h.timers.subset⟩

theorem SameTargets.trans (h : SameTargets c c') (h' : SameTargets c' c'') :
    SameTargets c c'' where
  opCount := h.opCount.trans h'.opCount
  target o ho := (h'.target o (ho.trans_le h.opCount)).trans (h.target o ho)
  timers := List.Subset.trans h'.timers h.timers

namespace Calms

theorem refl (c : Cape σ) : Calms c c :=
  ⟨(Quiet.refl c).sameTargets, fun _ _ => rfl, fun _ => Or.inr rfl, fun _ hr => hr⟩

theorem trans (h : Calms c c') (h' : Calms c' c'') : Calms c c'' where
  toSameTargets := h.toSameTargets.trans h'.toSameTargets
  resource o ho := (h'.resource o (ho.trans_le h.opCount)).trans (h.resource o ho)
  monitorOp r := (h'.monitorOp r).elim Or.inl fun heq =>
    (h.monitorOp r).imp heq.trans heq.trans
  stopped r hr := h.stopped r (h'.stopped r hr)

theorem of_same (h : c.SameMonitors c') : Calms c c' where
  opCount := h.opCount.ge
  target o _ := by rw [h.ops]
  timers := h.timers.subset
  resource o _ := by rw [h.ops]
  monitorOp r := Or.inr (h.monitorOp r)
  stopped r hr := h.stopped r ▸ hr

theorem of_unwinds (h : c.Unwinds c') : Calms c c' where
  toSameTargets := h.sameTargets
  resource o _ := h.resource o
  monitorOp := h.monitorOp
  stopped r hr := h.stopped r ▸ hr

theorem execute (c : Cape σ) (o : Nat) (ec : Int) : Calms c (c.execute o ec) := by
  have hresources : (c.execute o ec).resources = c.resources := by
    simp only [Cape.execute, confirmFirst]
    split <;> rfl
  refine ⟨⟨by simp, fun x _ => ?_, by simp⟩, fun x _ => ?_,
    fun r => Or.inr (by rw [hresources]), fun r hr => by rwa [hresources] at hr⟩
  · by_cases hx : x = o <;> simp [hx, PeOperation.target]
  · by_cases hx : x = o <;> simp [hx]

theorem peResourceRef (c : Cape σ) (o : Nat) : Calms c (c.peResourceRef o) := by
  refine { refl c with
    toSameTargets := (Quiet.peResourceRef c o).sameTargets
    resource := fun x _ => ?_ }
  by_cases hx : x = o <;> simp [Cape.peResourceRef, modifyOp, hx]

theorem hand (c : Cape σ) (o : Nat) : Calms c (c.hand o) :=
  { peResourceRef c o with }

theorem peResourceCompleted (c : Cape σ) (o : Nat) (returnCode : Int) :
    Calms c (c.peResourceCompleted o returnCode) :=
  { refl c with }

theorem settle (c : Cape σ) (o : Nat) (returnCode : Int) :
    Calms c (c.settle o returnCode) :=
  (peResourceCompleted c o returnCode).trans (of_unwinds (.peResourceUnref _ o))

theorem of_new (hcount : c.opCount ≤ c'.opCount) (hops : ∀ o < c.opCount, c'.ops o = c.ops o)
    (htimers : c'.monitorTimers = c.monitorTimers) (hresources : c'.resources = c.resources) :
    Calms c c' where
  opCount := hcount
  target o ho := by rw [hops o ho]
  timers := htimers ▸ List.Subset.refl _
  resource o ho := by rw [hops o ho]
  monitorOp r := Or.inr (by rw [hresources])
  stopped r hr := hresources ▸ hr

theorem create (c : Cape σ) (graph : Nat) (spec : OpSpec) :
    Calms c (World.execRscAction c graph spec) :=
  of_new (Nat.le_succ _) (fun _ ho => Function.update_of_ne ho.ne _ _) rfl rfl

theorem create_setResource (c : Cape σ) (graph : Nat) (spec : OpSpec)
    (r : Option ResourceId) :
    Calms c ((World.execRscAction c graph spec).setResource c.opCount r) := by
  refine of_new (Nat.le_succ _) (fun o ho => ?_) rfl rfl
  simp [setResource, modifyOp, World.execRscAction, Function.update_of_ne ho.ne]

theorem unstop (c : Cape σ) (r : ResourceId) : Calms c (c.setStopped r false) := by
  refine { refl c with monitorOp := fun r' => Or.inr ?_, stopped := fun r' h => ?_ }
  · by_cases hr : r' = r <;> simp [setStopped, modifyResource, hr]
  · by_cases hr : r' = r
    · simp [setStopped, modifyResource, hr] at h
    · simpa [setStopped, modifyResource, Function.update_of_ne hr] using h

end Calms

theorem Armed.calm (h : SameTargets c c') (hlt : ∀ x ∈ c.monitorTimers, x.2 < c.opCount)
    (harmed : c'.Armed r) : c.Armed r := by
  obtain ⟨x, hx, rfl⟩ := harmed
  exact ⟨x, h.timers hx, (h.target x.2 (hlt x (h.timers hx))).symm⟩

namespace Silent

theorem calm (h : Silent c) (hcalms : Calms c c') : Silent c' where
  owner {r o} hr := by
    rcases hcalms.monitorOp r with hnone | hsame
    · simp [hnone] at hr
    · obtain ⟨hresource, hlt⟩ := h.owner (hsame ▸ hr)
      exact ⟨(hcalms.resource o hlt).trans hresource, hlt.trans_le hcalms.opCount⟩
  armed_lt x hx := (h.armed_lt x (hcalms.timers hx)).trans_le hcalms.opCount
  silent r hr harmed :=
    h.silent r (hcalms.stopped r hr) (harmed.calm hcalms.toSameTargets h.armed_lt)

theorem arm (h : Silent c) {o : Nat} (hlt : o < c.opCount)
    (hstopped : (c.resources (c.ops o).target).stopped = false) :
    Silent (c.monitorTimerAdd r o) := by
  have hfields : ∀ r', ((c.monitorTimerAdd r o).resources r').monitorOp =
      (c.resources r').monitorOp ∧
      ((c.monitorTimerAdd r o).resources r').stopped = (c.resources r').stopped := by
    intro r'
    by_cases hr : r' = r <;> simp [monitorTimerAdd, hr]
  constructor
  case owner => exact fun hr => h.owner ((hfields _).1 ▸ hr)
  case armed_lt =>
    intro x hx
    rcases List.mem_append.mp hx with hold | hnew
    · exact h.armed_lt x hold
    · rw [List.mem_singleton.mp hnew]
      exact hlt
  case silent =>
    rintro r' hr ⟨x, hx, htarget⟩
    rw [(hfields r').2] at hr
    rcases List.mem_append.mp hx with hold | hnew
    · exact h.silent r' hr ⟨x, hold, htarget⟩
    · rw [List.mem_singleton.mp hnew] at htarget
      rw [← htarget] at hr
      exact absurd (hr.symm.trans hstopped) (by simp)

theorem stop (h : Silent c) (harmed : ¬ c.Armed r) : Silent (c.setStopped r true) := by
  have hfields : ∀ r', ((c.setStopped r true).resources r').monitorOp =
      (c.resources r').monitorOp := by
    intro r'
    by_cases hr : r' = r <;> simp [setStopped, modifyResource, hr]
  refine ⟨fun hr => h.owner (hfields _ ▸ hr), h.armed_lt, fun r' hr => ?_⟩
  by_cases hr' : r' = r
  · subst hr'
    exact harmed
  · exact h.silent r' (by simpa [setStopped, modifyResource, Function.update_of_ne hr'] using hr)

theorem startMonitor (h : Silent c) {o : Nat} (hlt : o < c.opCount)
    (hresource : (c.ops o).resource = some r) : Silent (c.startMonitor r o) := by
  have href : Calms c ((c.setStopped r false).peResourceRef o) :=
    (Calms.unstop c r).trans (.peResourceRef _ o)
  have hbefore := h.calm href
  refine ⟨fun {r' x} hr => ?_, hbefore.armed_lt, fun r' hr => hbefore.silent r' ?_⟩
  · by_cases hr' : r' = r
    · subst hr'
      obtain rfl : o = x := by
        simpa [Cape.startMonitor, modifyResource] using hr
      exact ⟨(href.resource o hlt).trans hresource, hlt⟩
    · exact hbefore.owner (by
        simpa [Cape.startMonitor, modifyResource, Function.update_of_ne hr'] using hr)
  · by_cases hr' : r' = r
    · subst hr'
      simpa [Cape.startMonitor, modifyResource] using hr
    · simpa [Cape.startMonitor, modifyResource, Function.update_of_ne hr'] using hr

end Silent

/-! ## Stopping every timer of a resource -/

theorem mem_stopMonitor_timers (h : Silent c) {x : Nat × Nat}
    (hx : x ∈ (c.stopMonitor r).monitorTimers) :
    x ∈ c.monitorTimers ∧
      (x.1 = (c.resources r).monitorTimer → (c.resources r).monitorOp = none) := by
  refine ⟨(Unwinds.stopMonitor c r).timers.mem hx, fun hhandle => ?_⟩
  by_contra hsome
  obtain ⟨o, ho⟩ := Option.ne_none_iff_exists'.mp hsome
  simp only [stopMonitor, ho, recurringMonitorStop, (h.owner ho).1] at hx
  have hbefore := (Unwinds.peResourceUnref _ o).timers.mem hx
  split at hbefore
  case isTrue hrunning =>
    have hfilter := (Unwinds.peResourceUnref _ o).timers.mem hbefore
    simp [timerDel, hhandle] at hfilter
  case isFalse hrunning =>
    simp only [timerIsRunning, List.any_eq_true, not_exists, not_and] at hrunning
    exact hrunning x hbefore (by simpa using hhandle)

theorem stopMonitor_monitorOp (h : Silent c) {r' : ResourceId} (hne : r ≠ r') :
    ((c.stopMonitor r').resources r).monitorOp = (c.resources r).monitorOp := by
  unfold stopMonitor
  split
  case h_2 => rfl
  case h_1 o ho =>
    simp only [recurringMonitorStop, (h.owner ho).1, peResourceUnref_resources,
      modifyResource, Function.update_of_ne hne]
    split
    · simp [timerDel]
    · rfl

theorem Unwinds.stoppable (h : c.Unwinds c')
    (hop : (c'.resources r).monitorOp = (c.resources r).monitorOp)
    (hstoppable : c.Stoppable r) : c'.Stoppable r := by
  intro x hx htarget
  rw [h.monitorTimer, hop]
  exact hstoppable x (h.timers.mem hx) (h.target x.2 ▸ htarget)

theorem stopMonitor_not_armed (h : Silent c) (hstoppable : c.Stoppable r) :
    ¬ (c.stopMonitor r).Armed r := by
  rintro ⟨x, hx, htarget⟩
  obtain ⟨hmem, hnone⟩ := mem_stopMonitor_timers h hx
  rw [(Unwinds.stopMonitor c r).target] at htarget
  obtain ⟨hhandle, hsome⟩ := hstoppable x hmem htarget
  simp [hnone hhandle] at hsome

theorem clearEntry_not_armed (h : Silent c) {oh : OperationHistory}
    (hstoppable : c.Stoppable oh.resource) : ¬ (c.clearEntry oh).Armed oh.resource := by
  simp only [Armed, clearEntry, digestFree, stopWaitingMonitor]
  split
  case isTrue => exact stopMonitor_not_armed h hstoppable
  case isFalse hrunning =>
    rintro ⟨x, hx, htarget⟩
    refine hrunning (List.any_eq_true.mpr ⟨x, hx, ?_⟩)
    simpa using (hstoppable x hx htarget).1

theorem clearEntry_stoppable (h : Silent c) {oh : OperationHistory}
    (hne : r ≠ oh.resource) (hstoppable : c.Stoppable r) : (c.clearEntry oh).Stoppable r := by
  refine (Unwinds.clearEntry c oh).stoppable ?_ hstoppable
  simp only [clearEntry, digestFree, stopWaitingMonitor]
  split
  · exact stopMonitor_monitorOp h hne
  · rfl

theorem foldl_clearEntry_not_armed (drop : ResourceId → Bool) (hdrop : drop r = true)
    (entries : List OperationHistory) (h : Silent c) (hstoppable : c.Stoppable r)
    (hentry : ∃ oh ∈ entries, oh.resource = r) :
    ¬ (entries.foldl (fun c oh => if drop oh.resource then c.clearEntry oh else c)
      c).Armed r := by
  induction entries generalizing c with
  | nil => simp at hentry
  | cons oh entries ih =>
      rw [List.foldl_cons]
      by_cases hr : r = oh.resource
      · subst hr
        rw [if_pos hdrop]
        have hsilent := h.calm (.of_unwinds (.clearEntry c oh))
        refine fun harmed => clearEntry_not_armed h hstoppable
          (harmed.calm (Unwinds.toQuiet ?_).sameTargets hsilent.armed_lt)
        refine foldl_rel Unwinds.refl Unwinds.trans (fun c oh => ?_) entries _
        split
        · exact .clearEntry c oh
        · exact .refl c
      · have hrest : ∃ oh ∈ entries, oh.resource = r := by
          simpa [Ne.symm hr] using hentry
        split
        · exact ih (h.calm (.of_unwinds (.clearEntry c oh)))
            (clearEntry_stoppable h hr hstoppable) hrest
        · exact ih h hstoppable hrest

/-- Clearing the history of the node deletes every timer that is armed for it. -/
def Clearable (c : Cape σ) (a : CString) : Prop :=
  ∀ x ∈ c.monitorTimers, (c.ops x.2).hostname = a →
    c.Stoppable (c.ops x.2).target ∧ ∃ oh ∈ c.history, oh.resource = (c.ops x.2).target

instance (c : Cape σ) (a : CString) : Decidable (c.Clearable a) :=
  inferInstanceAs (Decidable (∀ x ∈ _, _))

theorem resourceActionCompleted_calms [Stopwatch σ] {d : Deployable} {env : Env} {o : Nat}
    {ec : Int} (hok : c.resourceActionCompleted d env o ec = .ok c') :
    ¬ (c.ops o).Recurs ec ∧ Calms c c' ∨
      (c.ops o).Recurs ec ∧ ∃ mid r, Calms c mid ∧ c' = mid.monitorTimerAdd r o := by
  obtain ⟨mid, hmid, hcases⟩ := resourceActionCompleted_ok hok
  have hcalms : Calms c mid := (Calms.execute c o ec).trans (.of_same hmid.toSameMonitors)
  rcases hcases with ⟨honce, hc⟩ | ⟨r, -, hrecurs, hc⟩
  · rw [hc]
    exact Or.inl ⟨honce, hcalms.trans (.of_unwinds (.peResourceUnref mid o))⟩
  · exact Or.inr ⟨hrecurs, mid, r, hcalms, hc⟩

namespace Silent

theorem nodeOpHistoryClear (h : Silent c) {a : CString} (hclearable : c.Clearable a) :
    Silent (c.nodeOpHistoryClear a) := by
  have hcalms : Calms c (c.clearHistory fun r => r.assembly = a) :=
    .of_unwinds (.clearHistory c _)
  have hcleared := h.calm hcalms
  have hnone : ∀ r, r.assembly = a →
      ¬ (c.clearHistory fun r => r.assembly = a).Armed r := by
    intro r hr harmed
    obtain ⟨x, hx, rfl⟩ := harmed.calm hcalms.toSameTargets h.armed_lt
    obtain ⟨hstoppable, hentry⟩ := hclearable x hx hr
    exact foldl_clearEntry_not_armed (fun r => r.assembly = a) (decide_eq_true hr)
      c.history h hstoppable hentry harmed
  have hfields : ∀ r, ((c.nodeOpHistoryClear a).resources r).monitorOp =
      ((c.clearHistory fun r => r.assembly = a).resources r).monitorOp := by
    intro r
    simp only [Cape.nodeOpHistoryClear]
    split <;> rfl
  refine ⟨fun hr => hcleared.owner (hfields _ ▸ hr), hcleared.armed_lt, fun r hr => ?_⟩
  by_cases ha : r.assembly = a
  · exact hnone r ha
  · refine hcleared.silent r ?_
    simpa [Cape.nodeOpHistoryClear, ha] using hr

section

variable [Stopwatch σ] {d : Deployable} {env : Env} {o : Nat} {ec : Int}

theorem completed (h : Silent c) (hlt : o < c.opCount)
    (hrecurs : (c.ops o).Recurs ec → (c.resources (c.ops o).target).stopped = false)
    (hok : c.resourceActionCompleted d env o ec = .ok c') : Silent c' := by
  rcases resourceActionCompleted_calms hok with ⟨-, hcalms⟩ | ⟨hagain, mid, r, hcalms, hc⟩
  · exact h.calm hcalms
  · rw [hc]
    refine (h.calm hcalms).arm (hlt.trans_le hcalms.opCount) ?_
    rw [hcalms.target o hlt]
    exact Bool.eq_false_iff.mpr fun hstopped =>
      Bool.eq_false_iff.mp (hrecurs hagain) (hcalms.stopped _ hstopped)

theorem completion {sshRc : Int} (h : Silent c) (hlt : o < c.opCount)
    (hrecurs : (c.ops o).Recurs ((c.ops o).exitcode sshRc) →
      (c.resources (c.ops o).target).stopped = false)
    (hok : c.resourceActionCompletion d env o sshRc = .ok c') : Silent c' := by
  obtain ⟨mid, hmid, hc⟩ := bind_eq_ok.mp hok
  rw [← Except.ok.inj hc]
  exact (h.completed hlt hrecurs hmid).calm (.of_unwinds (.peResourceUnref mid o))

end

end Silent

/-! ## Executing an operation -/

/--
The operation stops nothing while a timer is armed that stays, and the failure
reported for a node that is not running arms none.
-/
def Silences (c : Cape σ) (spec : OpSpec) (state : RecoverState) : Prop :=
  (state = .running → spec.method = .stop → c.Stoppable spec.target) ∧
    (state ≠ .running → spec.method = .stop → ¬ c.Armed spec.target) ∧
    (state ≠ .running → spec.Recurs ocfUnknownError →
      spec.method ≠ .stop ∧ (c.resources spec.target).stopped = false)

instance (c : Cape σ) (spec : OpSpec) (state : RecoverState) :
    Decidable (c.Silences spec state) :=
  inferInstanceAs (Decidable ((_ → _ → _) ∧ (_ → _ → _) ∧ (_ → _ → _)))

theorem Silent.offline [Stopwatch σ] {d : Deployable} {env : Env} {graph : Nat}
    {spec : OpSpec} {state : RecoverState} (h : Silent c) (hstate : state ≠ .running)
    (hsilences : c.Silences spec state)
    (hok : (World.execRscAction c graph spec).resourceActionCompleted d env c.opCount
      ocfUnknownError = .ok c') :
    Silent c' ∧ (spec.method = .stop → ¬ c'.Armed spec.target) := by
  obtain ⟨-, hstop, hagain⟩ := hsilences
  have hcreate := Calms.create c graph spec
  have hop : ((World.execRscAction c graph spec).ops c.opCount).target = spec.target ∧
      (((World.execRscAction c graph spec).ops c.opCount).Recurs ocfUnknownError ↔
        spec.Recurs ocfUnknownError) := by
    simp [World.execRscAction, PeOperation.target, OpSpec.target, PeOperation.Recurs,
      PeOperation.Unexpected, OpSpec.Recurs]
  refine ⟨(h.calm hcreate).completed (Nat.lt_succ_self _) (fun hrecurs => ?_) hok,
    fun hmethod harmed => ?_⟩
  · rw [hop.1]
    exact (hagain hstate (hop.2.mp hrecurs)).2
  · rcases resourceActionCompleted_calms hok with ⟨-, hcalms⟩ | ⟨hrecurs, -⟩
    · exact hstop hstate hmethod (harmed.calm (hcreate.trans hcalms).toSameTargets h.armed_lt)
    · exact (hagain hstate (hop.2.mp hrecurs)).1 hmethod

theorem Silent.executeCb [Stopwatch σ] {d : Deployable} {env : Env} {graph : Nat}
    {spec : OpSpec} {state : RecoverState} {queued : Bool} (h : Silent c)
    (hsilences : c.Silences spec state)
    (hexec : (World.execRscAction c graph spec).Executed d env c.opCount state c' queued) :
    Silent c' := by
  have hset := fun r => h.calm (.create_setResource c graph spec r)
  have hop : ((World.execRscAction c graph spec).ops c.opCount).method = spec.method ∧
      ((World.execRscAction c graph spec).ops c.opCount).hostname = spec.hostname ∧
      ((World.execRscAction c graph spec).ops c.opCount).rname = spec.rname := by
    simp [World.execRscAction]
  cases hexec with
  | offline hstate hok =>
      obtain ⟨hdone, hnone⟩ := h.offline hstate hsilences hok
      split
      case h_1 r hmethod hr =>
        rw [hop.2.1, hop.2.2] at hr
        rw [Deployable.resource?_eq_some hr]
        exact hdone.stop (hnone (hop.1.symm.trans hmethod))
      case h_2 => exact hdone
  | foreign => exact (hset _).calm (.settle _ _ _)
  | @monitored r => exact (hset _).calm ((Calms.unstop _ r).trans (.settle _ _ _))
  | @monitor r =>
      refine ((hset (some r)).startMonitor (Nat.lt_succ_self _) ?_).calm (.hand _ _)
      simp [Cape.setResource, modifyOp]
  | probe => exact (hset _).calm (.hand _ _)
  | start => exact (hset _).calm (.hand _ _)
  | @stop r hmethod hr =>
      have hcreate := Calms.create_setResource c graph spec (some r)
      rw [hop.2.1, hop.2.2] at hr
      have hr : r = spec.target := Deployable.resource?_eq_some hr
      have hstoppable :
          ((World.execRscAction c graph spec).setResource c.opCount (some r)).Stoppable r := by
        intro x hx htarget
        rw [hcreate.target x.2 (h.armed_lt x hx)] at htarget
        rw [hr] at htarget ⊢
        exact hsilences.1 rfl (hop.1.symm.trans hmethod) x hx htarget
      have hsilent := (hset (some r)).calm (.of_unwinds (.stopMonitor _ r))
      refine (hsilent.calm (.hand _ _)).stop fun harmed => ?_
      exact stopMonitor_not_armed (hset (some r)) hstoppable
        (harmed.calm (Calms.hand _ _).toSameTargets hsilent.armed_lt)
  | delete =>
      exact (hset _).calm ((Calms.of_unwinds (.clearHistory _ _)).trans (.settle _ _ _))

/-- A recurring operation completes only if its resource is not stopped. -/
def Resumes (c : Cape σ) : Output → Prop
  | .actionCompleted o _ =>
      0 < (c.ops o).interval → (c.resources (c.ops o).target).stopped = false
  | _ => True

instance (c : Cape σ) : ∀ x, Decidable (c.Resumes x)
  | .actionCompleted _ _ => inferInstanceAs (Decidable (_ → _))
  | .stateChanging | .restarted | .address _ => inferInstanceAs (Decidable True)

end Cape

namespace World

variable {σ : Type} [Stopwatch σ] {d : Deployable} {w : World σ} {e : Event}

/--
A stop or a restart deletes every timer of the resource, and no request of a recurring
operation that is still in flight after it completes.
-/
def StopsEveryTimer (w : World σ) (e : Event) : Prop :=
  (∀ x ∈ w.restarting e, w.cape.Clearable x.1) ∧
    (∀ x ∈ w.outputs e, w.cape.Resumes x) ∧
    match e with
    | .fire (.rsc spec) _ =>
        w.cape.Silences spec (w.assemblies spec.hostname).recover.state
    | _ => True

instance (w : World σ) : ∀ e, Decidable (StopsEveryTimer w e)
  | .fire (.rsc _) _ => inferInstanceAs (Decidable (_ ∧ _ ∧ Cape.Silences _ _ _))
  | .fire .confirmed _ | .job _ _ _ | .timer _ _ _ | .monitorTimer _ _ | .processJob
  | .processNextJob _ | .runGraphReturn _ => inferInstanceAs (Decidable (_ ∧ _ ∧ True))

theorem Change.silent {q : CString → List Nat} {c : Cape σ} (h : w.cape.Silent)
    (haccounted : w.ledger.Accounted) (hstops : StopsEveryTimer w e)
    (hchange : w.Change d e q c) : c.Silent := by
  cases hchange with
  | idle hkept => exact h.calm (.of_same hkept.toSameMonitors)
  | flushed htimeout hkept => exact h.calm (.of_same hkept.toSameMonitors)
  | @restarted e a env hrestart =>
      have hschedule := h.calm
        (.of_same (Cape.Bookkeeping.scheduleProcessing w.cape).toSameMonitors)
      exact (hschedule.nodeOpHistoryClear (hstops.1 (a, env) hrestart)).calm
        { Cape.Calms.refl _ with }
  | @completed e a env o sshRc rest c houtputs hactions hok =>
      have hmem : o ∈ w.actions a := by simp [hactions]
      have hlt : o < w.cape.opCount := (haccounted.queued hmem).1
      have hresumes := hstops.2.1 (.actionCompleted o sshRc) (by simp [houtputs])
      exact h.completion hlt (fun hrecurs => hresumes hrecurs.1) hok
  | @monitorOffline handle o env c htimer hok =>
      have hdeleted := h.calm
        (.of_same (Cape.Bookkeeping.timerDel w.cape handle).toSameMonitors)
      refine hdeleted.completed (h.armed_lt _ htimer) (fun _ => ?_) hok
      -- the timer that has just expired was armed, so the resource is not stopped
      exact Bool.eq_false_iff.mpr fun hstopped => h.silent _ hstopped ⟨_, htimer, rfl⟩
  | @monitorRequest handle o env htimer =>
      exact h.calm ((Cape.Calms.of_same
        (Cape.Bookkeeping.timerDel w.cape handle).toSameMonitors).trans (.hand _ o))
  | engine hengine => exact h.calm (.of_same hengine.same.1)
  | fire hgraph hexec => exact h.executeCb hstops.2.2 hexec

/-- A stopped resource is reported FAILED by a monitor that is executed now, and by no other. -/
theorem fired_of_failed {w' : World σ} {r : ResourceId} (h : w.cape.Silent)
    (hsound : ∀ a, (w.assemblies a).Sound) (hstops : StopsEveryTimer w e)
    (hstopped : (w.cape.resources r).stopped = true) (hstep : step d w e = .ok w')
    (hfailed : w'.cape.records r = .failed) :
    w.cape.records r = .failed ∨
      ∃ spec env, e = .fire (.rsc spec) env ∧ spec.target = r ∧ spec.method = .monitor := by
  rcases step_reports hsound hstep with hsame | ⟨op, ec, hreports, hreported⟩
  · exact Or.inl (congrFun hsame r ▸ hfailed)
  · rcases hreported.failed hfailed with hbefore | ⟨hmethod, hinterval, rfl⟩
    · exact Or.inl hbefore
    · cases hreports with
      | completed hmem =>
          exact absurd (hstops.2.1 _ hmem hinterval) (Bool.eq_false_iff.not_left.mpr hstopped)
      | monitorTimer htimer => exact absurd ⟨_, htimer, rfl⟩ (h.silent _ hstopped)
      | @fire graph spec env =>
          refine Or.inr ⟨spec, env, rfl, ?_, ?_⟩
          · simp [execRscAction, PeOperation.target, OpSpec.target]
          · simpa [execRscAction] using hmethod

/--
In every run that stops every timer, no timer is armed for a resource from its stop,
or the restart of its node, to the next `recurring_monitor_start`, and no event but the
execution of another monitor reports it FAILED.
-/
theorem not_armed_of_stopsEveryTimer {errno : ResourceId → Int}
    {answers : CString → Env} {events : List Event}
    (halong : Along (step d) StopsEveryTimer (load d errno answers : World σ) events)
    (h : Reaches d errno answers events w) (r : ResourceId)
    (hstopped : (w.cape.resources r).stopped = true) :
    ¬ w.cape.Armed r ∧
      ∀ e w', StopsEveryTimer w e → step d w e = .ok w' →
        (w'.cape.resources r).recover.state = .failed →
          (w.cape.resources r).recover.state = .failed ∨
            ∃ spec env, e = .fire (.rsc spec) env ∧ spec.target = r ∧
              spec.method = .monitor := by
  have hinit : (load d errno answers : World σ).cape.Silent := by
    obtain ⟨cloud, hcape⟩ := load_cape (σ := σ) d errno answers
    constructor <;> simp [hcape, empty]
  have hkept := run_invariant (I := Kept fun l => l.cape.Silent)
    (fun hkept hstops => hkept.step fun hchange =>
      hchange.silent hkept.fact hkept.accounted hstops)
    (.load hinit) halong h
  refine ⟨hkept.fact.silent r hstopped, fun e w' hstops hstep hfailed => ?_⟩
  exact fired_of_failed hkept.fact hkept.sound hstops hstopped hstep hfailed

def angusId : ResourceId := ⟨bar, "rsc_bar_angus".toList⟩

theorem not_armed_of_stopsEveryTimer_stopping :
    ∃ w, BarReaches stopping w ∧ (w.cape.resources angusId).stopped = true ∧
      ¬ w.cape.Armed angusId := by
  obtain ⟨w, hreach, hstopped⟩ :
      ∃ w, BarReaches stopping w ∧ (w.cape.resources angusId).stopped = true :=
    exists_reaches (by decide +kernel)
  exact ⟨w, hreach, hstopped,
    (not_armed_of_stopsEveryTimer (by decide +kernel) hreach angusId hstopped).1⟩

def stoppedInFlight : List Event :=
  monitoring ++ [.monitorTimer 1 workingEnv, .processNextJob 0, .fire (angus .stop 0 0) workingEnv,
    .runGraphReturn .active]

/--
The request answers that the service runs, and the timer is armed again; or it answers that the
service does not run, and the stopped service is reported FAILED.
-/
theorem stop_leaves_monitor_armed :
    (∃ w, BarReaches (stoppedInFlight ++ [.job bar (.assemblySshExec 3) workingEnv]) w ∧
      (w.cape.resources angusId).stopped = true ∧ w.cape.Armed angusId) ∧
    ∃ w, BarReaches (stoppedInFlight ++
        [.job bar (.assemblySshExec 3) { workingEnv with exitStatus := 3 }]) w ∧
      (w.cape.resources angusId).stopped = true ∧
        (w.cape.resources angusId).recover.state = .failed :=
  ⟨exists_reaches (by decide +kernel), exists_reaches (by decide +kernel)⟩

end World

end PacemakerCloud

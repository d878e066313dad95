import PacemakerCloud.Daemon.Change
import Mathlib.Logic.Relation

/-!
# The ledger of operations

What happens to the operations in a run is a sequence of small moves: an
operation is created, handed to a transport, executed, confirmed, armed, dropped.
Every change of the daemon is a chain of them, so that an invariant of the
operations has to be shown for the moves only.
-/

namespace PacemakerCloud

open Foundation

structure Ledger (σ : Type) where
  cape : Cape σ
  actions : CString → List Nat

def World.ledger {σ : Type} (w : World σ) : Ledger σ :=
  ⟨w.cape, w.actions⟩

namespace Cape

variable {σ : Type}

@[simp] theorem execute_opCount (c : Cape σ) (o : Nat) (ec : Int) :
    (c.execute o ec).opCount = c.opCount := by
  simp only [execute, confirmFirst]
  split <;> rfl

@[simp] theorem execute_handed (c : Cape σ) (o : Nat) (ec : Int) :
    (c.execute o ec).handed = c.handed := by
  simp only [execute, confirmFirst]
  split <;> rfl

@[simp] theorem execute_monitorTimers (c : Cape σ) (o : Nat) (ec : Int) :
    (c.execute o ec).monitorTimers = c.monitorTimers := by
  simp only [execute, confirmFirst]
  split <;> rfl

@[simp] theorem execute_ops (c : Cape σ) (o : Nat) (ec : Int) :
    (c.execute o ec).ops = Function.update c.ops o
      { c.ops o with
        timesExecuted := ((c.ops o).timesExecuted + 1) % 2 ^ 32
        executions := (c.ops o).executions + 1 } := by
  simp only [execute, confirmFirst]
  split <;> rfl

@[simp] theorem execute_workingSet (c : Cape σ) (o : Nat) (ec : Int) :
    (c.execute o ec).pe.workingSet = c.pe.workingSet := by
  simp only [execute, confirmFirst]
  split <;> rfl

@[simp] theorem execute_jobs (c : Cape σ) (o : Nat) (ec : Int) :
    (c.execute o ec).pe.nextJobs = c.pe.nextJobs ∧
      (c.execute o ec).pe.inRunGraph = c.pe.inRunGraph := by
  simp only [execute, confirmFirst]
  split <;> exact ⟨rfl, rfl⟩

theorem execute_completions (c : Cape σ) (o : Nat) (ec : Int) :
    (c.execute o ec).pe.completions =
      if ((c.ops o).timesExecuted + 1) % 2 ^ 32 ≤ 1 then
        ⟨o, c.pe.workingSet, toUInt32 ec⟩ :: c.pe.completions
      else c.pe.completions := by
  simp only [execute, confirmFirst, timesExecutedAdd, modifyOp, Function.update_self]
  split <;> rfl

theorem timerDel_execute (c : Cape σ) (handle o : Nat) (ec : Int) :
    (c.timerDel handle).execute o ec = (c.execute o ec).timerDel handle := by
  unfold execute confirmFirst
  rw [apply_ite (timerDel · handle)]
  rfl

theorem confirmed_of_pe {c c' : Cape σ} (h : c'.pe = c.pe) {o : Nat} :
    c'.Confirmed o ↔ c.Confirmed o := by
  simp only [Confirmed, h]

theorem Confirmed.execute {c : Cape σ} {x : Nat} (h : c.Confirmed x) (o : Nat)
    (ec : Int) : (c.execute o ec).Confirmed x := by
  obtain ⟨e, he, hx⟩ := h
  refine ⟨e, ?_, hx⟩
  rw [execute_completions]
  split
  · exact List.mem_cons_of_mem _ he
  · exact he

theorem Confirmed.peResourceCompleted {c : Cape σ} {x : Nat} (h : c.Confirmed x)
    (o : Nat) (returnCode : Int) : (c.peResourceCompleted o returnCode).Confirmed x := by
  obtain ⟨e, he, hx⟩ := h
  exact ⟨e, List.mem_cons_of_mem _ he, hx⟩

end Cape

namespace Ledger

variable {σ : Type} {l l' : Ledger σ}

def Called (l : Ledger σ) (o : Nat) : Prop :=
  ∃ e ∈ l.cape.pe.completions, e.op = o

def Carried (l : Ledger σ) (o : Nat) : Prop :=
  (∃ a, o ∈ l.actions a) ∨ ∃ x ∈ l.cape.monitorTimers, x.2 = o

inductive Move (lost : Nat → Prop) (l : Ledger σ) : Ledger σ → Prop where
  | quiet {c : Cape σ} (h : l.cape.Quiet c) : Move lost l { l with cape := c }
  | lose {a : CString} (h : ∀ o ∈ l.actions a, lost o) :
      Move lost l { l with actions := Function.update l.actions a [] }
  | done {a : CString} {o : Nat} {rest : List Nat} (hactions : l.actions a = o :: rest)
      (h : l.cape.Confirmed o) :
      Move lost l { l with actions := Function.update l.actions a rest }
  | execute {o : Nat} {ec : Int} (hlt : o < l.cape.opCount)
      (h : l.Called o → l.Carried o) :
      Move lost l { l with cape := l.cape.execute o ec }
  | hand {o : Nat} (hlt : o < l.cape.opCount) (h : l.Called o → l.Carried o) :
      Move lost l ⟨l.cape.hand o, Function.update l.actions (l.cape.ops o).hostname
        (l.actions (l.cape.ops o).hostname ++ [o])⟩
  | arm {r : ResourceId} {o : Nat} (hlt : o < l.cape.opCount)
      (h : 1 ≤ (l.cape.ops o).executions) :
      Move lost l { l with cape := l.cape.monitorTimerAdd r o }
  | settle {o : Nat} {returnCode : Int} (hlt : o < l.cape.opCount)
      (hcalled : ¬ l.Called o) (hcarried : ¬ l.Carried o) :
      Move lost l { l with cape := l.cape.peResourceCompleted o returnCode }
  | create {graph : Nat} (spec : OpSpec) (hgraph : l.cape.pe.inRunGraph = some graph) :
      Move lost l { l with cape := World.execRscAction l.cape graph spec }
  | engine {c : Cape σ} (h : World.Engine l.cape c) : Move lost l { l with cape := c }

/--
The transition in progress is the one `run_graph` or its job works on, and every
operation that was not confirmed belongs to it and was never executed.
-/
structure Accounted (l : Ledger σ) : Prop where
  jobs : l.cape.pe.nextJobs ++ l.cape.pe.inRunGraph.toList = l.cape.pe.workingSet.toList
  queued : ∀ {a o}, o ∈ l.actions a → o < l.cape.opCount ∧ (l.cape.ops o).hostname = a
  armed : ∀ x ∈ l.cape.monitorTimers, x.2 < l.cape.opCount
  handed : ∀ o ∈ l.cape.handed, o < l.cape.opCount
  completed : ∀ e ∈ l.cape.pe.completions, e.op < l.cape.opCount
  times : ∀ o < l.cape.opCount,
    (l.cape.ops o).timesExecuted = (l.cape.ops o).executions % 2 ^ 32
  pending : ∀ o < l.cape.opCount, ¬ l.cape.Confirmed o →
    (l.cape.ops o).executions = 0 ∧ l.cape.pe.workingSet = some (l.cape.ops o).graph

namespace Accounted

theorem quiet {c : Cape σ} (h : Accounted l) (hquiet : l.cape.Quiet c) :
    Accounted { l with cape := c } where
  jobs := by simpa only [hquiet.pe] using h.jobs
  queued ho := by simpa only [hquiet.opCount, hquiet.hostname] using h.queued ho
  armed x hx := by simpa only [hquiet.opCount] using h.armed x (hquiet.timers.mem hx)
  handed := by simpa only [hquiet.opCount, hquiet.handed] using h.handed
  completed := by simpa only [hquiet.opCount, hquiet.pe] using h.completed
  times := by
    simpa only [hquiet.opCount, hquiet.timesExecuted, hquiet.executions] using h.times
  pending := by
    simpa only [hquiet.opCount, hquiet.executions, hquiet.graph, hquiet.pe,
      Cape.confirmed_of_pe hquiet.pe] using h.pending

theorem restrict (h : Accounted l) {a : CString} {os : List Nat}
    (hsub : os ⊆ l.actions a) :
    Accounted { l with actions := Function.update l.actions a os } := by
  refine { h with queued := fun {b o} ho => h.queued ?_ }
  rcases mem_update.mp ho with ⟨rfl, hos⟩ | ⟨-, hold⟩
  · exact hsub hos
  · exact hold

theorem confirmed_execute (h : Accounted l) {o : Nat} (hlt : o < l.cape.opCount)
    (ec : Int) : (l.cape.execute o ec).Confirmed o := by
  by_cases hconf : l.cape.Confirmed o
  · exact hconf.execute o ec
  · obtain ⟨hzero, hset⟩ := h.pending o hlt hconf
    have hfirst : ((l.cape.ops o).timesExecuted + 1) % 2 ^ 32 ≤ 1 := by
      simp [h.times o hlt, hzero]
    refine ⟨⟨o, l.cape.pe.workingSet, toUInt32 ec⟩, ?_, rfl, by simp [hset]⟩
    rw [Cape.execute_completions, if_pos hfirst]
    exact List.mem_cons_self

theorem execute (h : Accounted l) {o : Nat} (hlt : o < l.cape.opCount) (ec : Int) :
    Accounted { l with cape := l.cape.execute o ec } where
  jobs := by simpa using h.jobs
  queued {a x} hx := by
    refine ⟨by simpa using (h.queued hx).1, ?_⟩
    rw [← (h.queued hx).2]
    by_cases hxo : x = o <;> simp [hxo]
  armed := by simpa using h.armed
  handed := by simpa using h.handed
  completed e he := by
    simp only [Cape.execute_completions] at he
    simp only [Cape.execute_opCount]
    split at he
    · rcases List.mem_cons.mp he with rfl | he
      · exact hlt
      · exact h.completed e he
    · exact h.completed e he
  times x hx := by
    simp only [Cape.execute_opCount] at hx
    by_cases hxo : x = o
    · subst hxo
      simp [h.times x hx]
    · simpa [Function.update_of_ne hxo] using h.times x hx
  pending x hx hconf := by
    simp only [Cape.execute_opCount] at hx
    by_cases hxo : x = o
    · subst hxo
      exact absurd (h.confirmed_execute hlt ec) hconf
    · simpa [Function.update_of_ne hxo] using
        h.pending x hx fun hbefore => hconf (hbefore.execute o ec)

theorem hand (h : Accounted l) {o : Nat} (hlt : o < l.cape.opCount) :
    Accounted ⟨l.cape.hand o, Function.update l.actions (l.cape.ops o).hostname
      (l.actions (l.cape.ops o).hostname ++ [o])⟩ := by
  have href := h.quiet (.peResourceRef l.cape o)
  refine { href with queued := fun {a x} hx => ?_, handed := fun x hx => ?_ }
  · rcases mem_update.mp hx with ⟨rfl, hnew⟩ | ⟨-, hold⟩
    · rcases List.mem_append.mp hnew with hold | hlast
      · exact href.queued hold
      · rw [List.mem_singleton.mp hlast]
        exact ⟨hlt, (Cape.Quiet.peResourceRef l.cape o).hostname o⟩
    · exact href.queued hold
  · rcases List.mem_cons.mp hx with rfl | hx
    · exact hlt
    · exact h.handed x hx

theorem arm (h : Accounted l) {o : Nat} (hlt : o < l.cape.opCount) (r : ResourceId) :
    Accounted { l with cape := l.cape.monitorTimerAdd r o } := by
  refine { h with armed := fun x hx => ?_ }
  rcases List.mem_append.mp hx with hx | hx
  · exact h.armed x hx
  · rw [List.mem_singleton.mp hx]
    exact hlt

theorem settle (h : Accounted l) {o : Nat} (hlt : o < l.cape.opCount)
    (returnCode : Int) :
    Accounted { l with cape := l.cape.peResourceCompleted o returnCode } := by
  refine { h with completed := fun e he => ?_, pending := fun x hx hconf => ?_ }
  · rcases List.mem_cons.mp he with rfl | he
    · exact hlt
    · exact h.completed e he
  · exact h.pending x hx fun hbefore => hconf (hbefore.peResourceCompleted o returnCode)

theorem running (h : Accounted l) {graph : Nat}
    (hgraph : l.cape.pe.inRunGraph = some graph) :
    l.cape.pe.workingSet = some graph ∧ l.cape.pe.nextJobs = [] := by
  have hjobs := h.jobs
  rw [hgraph, Option.toList_some] at hjobs
  cases hset : l.cape.pe.workingSet with
  | none => simp [hset] at hjobs
  | some g =>
      rw [hset, Option.toList_some] at hjobs
      rcases List.append_eq_singleton_iff.mp hjobs with ⟨hnone, hg⟩ | ⟨-, hg⟩
      · exact ⟨congrArg some (List.singleton_injective hg).symm, hnone⟩
      · cases hg

theorem create (h : Accounted l) {graph : Nat} {spec : OpSpec}
    (hgraph : l.cape.pe.inRunGraph = some graph) :
    Accounted { l with cape := World.execRscAction l.cape graph spec } := by
  have hset := (h.running hgraph).1
  have hold : ∀ {x}, x < l.cape.opCount →
      (World.execRscAction l.cape graph spec).ops x = l.cape.ops x := fun hx => by
    simp [World.execRscAction, Function.update_of_ne (Nat.ne_of_lt hx)]
  constructor
  case jobs => exact h.jobs
  case queued =>
    intro a o ho
    obtain ⟨hlt, hhost⟩ := h.queued ho
    exact ⟨Nat.lt_succ_of_lt hlt, by rw [hold hlt, hhost]⟩
  case armed => exact fun x hx => Nat.lt_succ_of_lt (h.armed x hx)
  case handed => exact fun o ho => Nat.lt_succ_of_lt (h.handed o ho)
  case completed => exact fun e he => Nat.lt_succ_of_lt (h.completed e he)
  case times =>
    intro o ho
    rcases Nat.lt_succ_iff_lt_or_eq.mp ho with hlt | rfl
    · simpa only [hold hlt] using h.times o hlt
    · simp [World.execRscAction]
  case pending =>
    intro o ho hconf
    rcases Nat.lt_succ_iff_lt_or_eq.mp ho with hlt | rfl
    · rw [hold hlt]
      exact h.pending o hlt hconf
    · simp [World.execRscAction, hset]

theorem engine (h : Accounted l) {c : Cape σ} (hengine : World.Engine l.cape c) :
    Accounted { l with cape := c } := by
  cases hengine with
  | processJob =>
      simp only [World.processJob]
      split
      case isTrue => exact { h with }
      case isFalse hset =>
        rw [Option.not_isSome_iff_eq_none] at hset
        have hjobs : l.cape.pe.nextJobs = [] ∧ l.cape.pe.inRunGraph = none := by
          simpa [show l.cape.pe.workingSet = none from hset] using h.jobs
        refine { h with jobs := ?_, pending := fun o ho hconf => ?_ }
        · simp [World.peProcessState, hjobs]
        · simpa [show l.cape.pe.workingSet = none from hset] using h.pending o ho hconf
  | @processNextJob graph hgraph hmem =>
      have hjobs := h.jobs
      have hset : l.cape.pe.workingSet = some graph := by
        rw [hgraph, Option.toList_none, List.append_nil] at hjobs
        simpa [hjobs, eq_comm] using hmem
      have hnext : l.cape.pe.nextJobs = [graph] := by simpa [hgraph, hset] using hjobs
      simp only [World.processNextJob]
      split
      · exact { h with jobs := by simp [hnext, hset] }
      · exact { h with jobs := by simp [hnext, hset, hgraph] }
  | confirmed => exact { h with }
  | @returned graph status hgraph hconfirmed =>
      obtain ⟨hset, hnext⟩ := h.running hgraph
      have hfinished : status = .complete ∨ status = .terminated →
          ∀ o < l.cape.opCount, l.cape.Confirmed o := by
        intro hstatus o ho
        by_contra hconf
        obtain ⟨-, hsome⟩ := h.pending o ho hconf
        exact hconf (hconfirmed hstatus o (List.mem_range.mpr ho)
          (Option.some.inj (hsome.symm.trans hset)))
      cases status with
      | active | pending => exact { h with jobs := by simp [World.runGraphReturn, hnext, hset] }
      | complete =>
          exact { h with
            jobs := by simp [World.runGraphReturn, hnext]
            pending := fun o ho hconf => absurd (hfinished (Or.inl rfl) o ho) hconf }
      | terminated =>
          exact { h with
            jobs := by simp [World.runGraphReturn, hnext]
            pending := fun o ho hconf => absurd (hfinished (Or.inr rfl) o ho) hconf }

theorem move {lost : Nat → Prop} (h : Accounted l) (hmove : Move lost l l') :
    Accounted l' := by
  cases hmove with
  | quiet hquiet => exact h.quiet hquiet
  | lose hlost => exact h.restrict (List.nil_subset _)
  | done hactions hconf => exact h.restrict (hactions ▸ List.subset_cons_self _ _)
  | execute hlt hcalled => exact h.execute hlt _
  | hand hlt hcalled => exact h.hand hlt
  | arm hlt hpos => exact h.arm hlt _
  | settle hlt hcalled hcarried => exact h.settle hlt _
  | create spec hgraph => exact h.create hgraph
  | engine hengine => exact h.engine hengine

end Accounted

/-! ## A change is a chain of moves -/

def Lost [Stopwatch σ] (w : World σ) (e : Event) (o : Nat) : Prop :=
  ∃ a, (w.timingOut e = some a ∨ ∃ env, w.restarting e = some (a, env)) ∧ o ∈ w.actions a

abbrev Moves (lost : Nat → Prop) : Ledger σ → Ledger σ → Prop :=
  Relation.ReflTransGen (Move lost)

theorem Moves.quiet {lost : Nat → Prop} {c c' : Cape σ} {q : CString → List Nat}
    (hmoves : Moves lost l ⟨c, q⟩) (h : c.Quiet c') : Moves lost l ⟨c', q⟩ :=
  hmoves.tail (.quiet h)

section

variable {lost : Nat → Prop} {c c' : Cape σ} {o : Nat} {q : CString → List Nat}

theorem Moves.accounted (hmoves : Moves lost l l') (h : Accounted l) : Accounted l' := by
  induction hmoves with
  | refl => exact h
  | tail _ hmove ih => exact ih.move hmove

theorem moves_hand (hquiet : l.cape.Quiet c) (hlt : o < l.cape.opCount)
    (hcalled : ¬ l.Called o) :
    Moves lost l ⟨c.hand o, Function.update l.actions (l.cape.ops o).hostname
      (l.actions (l.cape.ops o).hostname ++ [o])⟩ := by
  have hhand : Move lost ⟨c, l.actions⟩ _ := Move.hand (o := o) (hquiet.opCount ▸ hlt)
    fun hafter => absurd (by simpa only [Called, hquiet.pe] using hafter) hcalled
  rw [hquiet.hostname] at hhand
  exact .tail (.single (.quiet hquiet)) hhand

theorem moves_settle (hquiet : l.cape.Quiet c) (hlt : o < l.cape.opCount)
    (hcalled : ¬ l.Called o) (hcarried : ¬ l.Carried o) (returnCode : Int) :
    Moves lost l ⟨c.settle o returnCode, l.actions⟩ := by
  have hsettle : Move lost ⟨c, l.actions⟩ ⟨c.peResourceCompleted o returnCode, l.actions⟩ :=
    .settle (hquiet.opCount ▸ hlt)
      (fun hafter => hcalled (by simpa only [Called, hquiet.pe] using hafter))
      (fun hafter => hcarried
        (hafter.imp_right fun ⟨x, hx, hxo⟩ => ⟨x, hquiet.timers.mem hx, hxo⟩))
  exact Moves.quiet (.tail (.single (.quiet hquiet)) hsettle)
    (Cape.Unwinds.peResourceUnref _ o).toQuiet

variable [Stopwatch σ] {d : Deployable} {env : Env}

theorem moves_completed {ec : Int} (hlt : o < c.opCount)
    (hexecute : Moves lost l ⟨c.execute o ec, q⟩)
    (hok : c.resourceActionCompleted d env o ec = .ok c') : Moves lost l ⟨c', q⟩ := by
  obtain ⟨mid, hmid, hend⟩ := Cape.resourceActionCompleted_ok hok
  have hmoves : Moves lost l ⟨mid, q⟩ := hexecute.quiet hmid.quiet
  rcases hend with ⟨-, hc⟩ | ⟨r, -, -, hc⟩ <;> rw [hc]
  · exact hmoves.quiet (Cape.Unwinds.peResourceUnref mid o).toQuiet
  · refine hmoves.tail (.arm ?_ ?_)
    · simpa [hmid.opCount] using hlt
    · simp [hmid.ops]

theorem confirmed_completed {ec : Int} (h : (c.execute o ec).Confirmed o)
    (hok : c.resourceActionCompleted d env o ec = .ok c') : c'.Confirmed o := by
  obtain ⟨mid, hmid, hend⟩ := Cape.resourceActionCompleted_ok hok
  have hconf : mid.Confirmed o := (Cape.confirmed_of_pe hmid.pe).mpr h
  rcases hend with ⟨-, hc⟩ | ⟨r, -, -, hc⟩ <;> rw [hc]
  · exact (Cape.confirmed_of_pe (Cape.Unwinds.peResourceUnref mid o).pe).mpr hconf
  · exact hconf

theorem moves_executed {state : RecoverState} {queued : Bool} (hlt : o < l.cape.opCount)
    (hcalled : ¬ l.Called o) (hcarried : ¬ l.Carried o)
    (h : l.cape.Executed d env o state c queued) :
    Moves lost l ⟨c, if queued then
        Function.update l.actions (l.cape.ops o).hostname
          (l.actions (l.cape.ops o).hostname ++ [o])
      else l.actions⟩ := by
  have hset : ∀ r, l.cape.Quiet (l.cape.setResource o r) := .setResource l.cape o
  cases h with
  | offline hstate hok =>
      have hmoves : Moves lost l ⟨_, l.actions⟩ :=
        moves_completed hlt (.single (.execute hlt fun h => absurd h hcalled)) hok
      split
      · exact hmoves.quiet (.setStopped _ _ _)
      · exact hmoves
  | foreign => exact moves_settle (hset _) hlt hcalled hcarried _
  | monitored =>
      exact moves_settle ((hset _).trans (.setStopped _ _ _)) hlt hcalled hcarried _
  | monitor => exact moves_hand ((hset _).trans (.startMonitor _ _ _)) hlt hcalled
  | probe => exact moves_hand (hset _) hlt hcalled
  | start => exact moves_hand (hset _) hlt hcalled
  | stop =>
      exact (moves_hand ((hset _).trans (Cape.Unwinds.stopMonitor _ _).toQuiet) hlt hcalled).quiet
        (.setStopped _ _ _)
  | delete =>
      exact moves_settle ((hset _).trans (Cape.Unwinds.clearHistory _ _).toQuiet) hlt hcalled
        hcarried _

variable {w w' : World σ} {e : Event}

theorem moves_change (h : Accounted w.ledger) (hchange : w.Change d e q c) :
    Moves (Lost w e) w.ledger ⟨c, q⟩ := by
  cases hchange with
  | idle hkept => exact .single (.quiet hkept.quiet)
  | flushed htimeout hkept =>
      exact Moves.quiet (.single (.lose fun o ho => ⟨_, Or.inl htimeout, ho⟩)) hkept.quiet
  | restarted hrestart =>
      refine Moves.quiet (.single (.lose fun o ho => ⟨_, Or.inr ⟨_, hrestart⟩, ho⟩)) ?_
      exact ((Cape.Bookkeeping.scheduleProcessing _).quiet.trans
        (.nodeOpHistoryClear _ _)).trans (.instanceRequests _ _ _)
  | @completed e a env o sshRc rest c houtputs hactions hok =>
      obtain ⟨c₁, hok, heq⟩ := bind_eq_ok.mp hok
      rw [← Except.ok.inj heq]
      have hmem : o ∈ w.actions a := by simp [hactions]
      have hlt : o < w.cape.opCount := (h.queued hmem).1
      have hmoves : Moves (Lost w e) w.ledger ⟨c₁, w.actions⟩ :=
        moves_completed hlt (.single (.execute hlt fun _ => Or.inl ⟨a, hmem⟩)) hok
      have hconf : (c₁.peResourceUnref o).Confirmed o :=
        (Cape.confirmed_of_pe (Cape.Unwinds.peResourceUnref c₁ o).pe).mpr
          (confirmed_completed (h.confirmed_execute hlt _) hok)
      exact (hmoves.quiet (Cape.Unwinds.peResourceUnref c₁ o).toQuiet).tail (.done hactions hconf)
  | @monitorOffline handle o env c htimer hok =>
      have hlt : o < w.cape.opCount := h.armed _ htimer
      have hexecute : Moves (Lost w (.monitorTimer handle env)) w.ledger
          ⟨w.cape.execute o ocfUnknownError, w.actions⟩ :=
        .single (.execute hlt fun _ => Or.inr ⟨_, htimer, rfl⟩)
      have hdeleted := hexecute.quiet (Cape.Bookkeeping.timerDel _ handle).quiet
      rw [← Cape.timerDel_execute] at hdeleted
      exact moves_completed (c := w.cape.timerDel handle) hlt hdeleted hok
  | @monitorRequest handle o env htimer =>
      exact Moves.quiet (.single (.hand (h.armed _ htimer)
        fun _ => Or.inr ⟨_, htimer, rfl⟩)) (Cape.Bookkeeping.timerDel _ handle).quiet
  | engine hengine => exact .single (.engine hengine)
  | @fire graph spec env c queued hgraph hexec =>
      have hcalled : ¬ Called ⟨World.execRscAction w.cape graph spec, w.actions⟩
          w.cape.opCount := by
        rintro ⟨e, he, heq⟩
        exact (h.completed e he).ne heq
      have hcarried : ¬ Carried ⟨World.execRscAction w.cape graph spec, w.actions⟩
          w.cape.opCount := by
        rintro (⟨a, ha⟩ | ⟨x, hx, heq⟩)
        · exact (h.queued ha).1.ne rfl
        · exact (h.armed x hx).ne heq
      have hhost : ((World.execRscAction w.cape graph spec).ops w.cape.opCount).hostname =
          spec.hostname := by
        simp [World.execRscAction]
      refine .head (.create spec hgraph)
        (?_ : Moves _ ⟨World.execRscAction w.cape graph spec, w.actions⟩ _)
      simpa only [hhost] using
        moves_executed (Nat.lt_succ_self w.cape.opCount) hcalled hcarried hexec

end

end Ledger

end PacemakerCloud

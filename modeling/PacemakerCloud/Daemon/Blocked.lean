import PacemakerCloud.Assembly.Stalled
import PacemakerCloud.Daemon.Completion
import PacemakerCloud.Daemon.Disconnect

/-!
# A transition that never ends

An operation of the transition in progress that is not on a queue, or on a queue that is not
served, is never confirmed.  Its transition then stays in progress for ever, and the engine, which
computes no new one before the last one is finished, does nothing any more.
-/

namespace PacemakerCloud

open Foundation

namespace Cape

variable {σ : Type} {c c' c'' : Cape σ} {o x : Nat}

structure Passes (o : Nat) (c c' : Cape σ) : Prop where
  opCount : c.opCount ≤ c'.opCount
  confirmed : c'.Confirmed o → c.Confirmed o
  timers : (∃ y ∈ c'.monitorTimers, y.2 = o) → ∃ y ∈ c.monitorTimers, y.2 = o
  hostname : (c'.ops o).hostname = (c.ops o).hostname
  graph : (c'.ops o).graph = (c.ops o).graph
  transitions : c'.pe.transitionCount = c.pe.transitionCount

namespace Passes

theorem trans (h : Passes o c c') (h' : Passes o c' c'') : Passes o c c'' where
  opCount := h.opCount.trans h'.opCount
  confirmed := h.confirmed ∘ h'.confirmed
  timers := h.timers ∘ h'.timers
  hostname := h'.hostname.trans h.hostname
  graph := h'.graph.trans h.graph
  transitions := h'.transitions.trans h.transitions

theorem of_quiet (h : c.Quiet c') (o : Nat) : Passes o c c' where
  opCount := h.opCount.ge
  confirmed := (confirmed_of_pe h.pe).mp
  timers := fun ⟨y, hy, hyo⟩ => ⟨y, h.timers.mem hy, hyo⟩
  hostname := h.hostname o
  graph := h.graph o
  transitions := by rw [h.pe]

theorem peResourceCompleted (h : o ≠ x) (returnCode : Int) :
    Passes o c (c.peResourceCompleted x returnCode) where
  opCount := le_rfl
  confirmed := by
    rintro ⟨e, he, heq, hset⟩
    rcases List.mem_cons.mp he with rfl | he
    · exact absurd heq.symm h
    · exact ⟨e, he, heq, hset⟩
  timers := id
  hostname := rfl
  graph := rfl
  transitions := rfl

theorem timesExecutedAdd (c : Cape σ) (h : o ≠ x) : Passes o c (c.timesExecutedAdd x) where
  opCount := le_rfl
  confirmed := id
  timers := id
  hostname := by simp [Cape.timesExecutedAdd, Cape.modifyOp, h]
  graph := by simp [Cape.timesExecutedAdd, Cape.modifyOp, h]
  transitions := rfl

theorem execute (c : Cape σ) (h : o ≠ x) (ec : Int) : Passes o c (c.execute x ec) := by
  unfold Cape.execute confirmFirst
  split
  · exact (timesExecutedAdd c h).trans (peResourceCompleted h ec)
  · exact timesExecutedAdd c h

theorem monitorTimerAdd (c : Cape σ) (h : o ≠ x) (r : ResourceId) :
    Passes o c (c.monitorTimerAdd r x) where
  opCount := le_rfl
  confirmed := id
  timers := by
    rintro ⟨y, hy, hyo⟩
    rcases List.mem_append.mp hy with hold | hnew
    · exact ⟨y, hold, hyo⟩
    · rw [List.mem_singleton.mp hnew] at hyo
      exact absurd hyo.symm h
  hostname := rfl
  graph := rfl
  transitions := rfl

theorem settle (c : Cape σ) (h : o ≠ x) (returnCode : Int) :
    Passes o c (c.settle x returnCode) :=
  (peResourceCompleted h returnCode).trans (of_quiet (Unwinds.peResourceUnref _ x).toQuiet o)

theorem hand (c : Cape σ) (o x : Nat) : Passes o c (c.hand x) :=
  have href := of_quiet (Quiet.peResourceRef c x) o
  { href with }

theorem create (c : Cape σ) (h : o < c.opCount) (graph : Nat) (spec : OpSpec) :
    Passes o c (World.execRscAction c graph spec) where
  opCount := Nat.le_succ _
  confirmed := id
  timers := id
  hostname := by simp [World.execRscAction, Nat.ne_of_lt h]
  graph := by simp [World.execRscAction, Nat.ne_of_lt h]
  transitions := rfl

theorem engine (hengine : World.Engine c c') (hset : c.pe.workingSet.isSome) (o : Nat) :
    Passes o c c' := by
  cases hengine with
  | processJob =>
      simp only [World.processJob, hset, if_true]
      exact ⟨le_rfl, id, id, rfl, rfl, rfl⟩
  | processNextJob =>
      simp only [World.processNextJob]
      split <;> exact ⟨le_rfl, id, id, rfl, rfl, rfl⟩
  | confirmed => exact ⟨le_rfl, id, id, rfl, rfl, rfl⟩
  | @returned graph status => cases status <;> exact ⟨le_rfl, id, id, rfl, rfl, rfl⟩

variable [Stopwatch σ] {d : Deployable} {env : Env}

theorem completed {ec : Int} (h : o ≠ x) (hok : c.resourceActionCompleted d env x ec = .ok c') :
    Passes o c c' := by
  obtain ⟨mid, hmid, hend⟩ := resourceActionCompleted_ok hok
  have hexecuted := (execute c h ec).trans (of_quiet hmid.quiet o)
  rcases hend with ⟨-, hc⟩ | ⟨r, -, -, hc⟩ <;> rw [hc]
  · exact hexecuted.trans (of_quiet (Unwinds.peResourceUnref mid x).toQuiet o)
  · exact hexecuted.trans (monitorTimerAdd mid h r)

theorem completion {sshRc : Int} (h : o ≠ x)
    (hok : c.resourceActionCompletion d env x sshRc = .ok c') : Passes o c c' := by
  obtain ⟨mid, hmid, heq⟩ := bind_eq_ok.mp hok
  rw [← Except.ok.inj heq]
  exact (completed h hmid).trans (of_quiet (Unwinds.peResourceUnref mid x).toQuiet o)

theorem executed {state : RecoverState} {queued : Bool} (h : o ≠ x)
    (hexec : c.Executed d env x state c' queued) : Passes o c c' := by
  have hset : ∀ r, Passes o c (c.setResource x r) :=
    fun r => of_quiet (Quiet.setResource c x r) o
  have hstopped : ∀ (b : Cape σ) r stopped, Passes o b (b.setStopped r stopped) :=
    fun b r stopped => of_quiet (Quiet.setStopped b r stopped) o
  cases hexec with
  | offline hstate hok =>
      split
      · exact (completed h hok).trans (hstopped _ _ _)
      · exact completed h hok
  | foreign => exact (hset _).trans (settle _ h _)
  | monitored => exact ((hset _).trans (hstopped _ _ _)).trans (settle _ h _)
  | monitor =>
      exact ((hset _).trans (of_quiet (Quiet.startMonitor _ _ _) o)).trans (hand _ o x)
  | probe | start => exact (hset _).trans (hand _ o x)
  | stop =>
      exact (((hset _).trans (of_quiet (Unwinds.stopMonitor _ _).toQuiet o)).trans
        (hand _ o x)).trans (hstopped _ _ _)
  | delete =>
      exact ((hset _).trans (of_quiet (Unwinds.clearHistory _ _).toQuiet o)).trans
        (settle _ h _)

end Passes

end Cape

namespace Ledger

variable {σ : Type} {l l' : Ledger σ} {lost : Nat → Prop}

def Armed (l : Ledger σ) : Prop :=
  ∀ y ∈ l.cape.monitorTimers, 1 ≤ (l.cape.ops y.2).executions

theorem Armed.move (h : Armed l) (haccounted : Accounted l) (hmove : Move lost l l') :
    Armed l' := by
  cases hmove with
  | quiet hquiet =>
      intro y hy
      rw [hquiet.executions]
      exact h y (hquiet.timers.mem hy)
  | lose | done | settle => exact h
  | @execute x ec =>
      intro y hy
      have hbefore := h y (by simpa using hy)
      by_cases hx : y.2 = x
      · simp [hx]
      · simpa [hx] using hbefore
  | @hand x =>
      intro y hy
      have hexecutions := (Cape.Quiet.peResourceRef l.cape x).executions y.2
      exact (h y hy).trans hexecutions.ge
  | arm hlt hpos =>
      intro y hy
      rcases List.mem_append.mp hy with hold | hnew
      · exact h y hold
      · rw [List.mem_singleton.mp hnew]
        exact hpos
  | create spec hgraph =>
      intro y hy
      have hne := Nat.ne_of_lt (haccounted.armed y hy)
      simpa [World.execRscAction, hne] using h y hy
  | engine hengine =>
      obtain ⟨hsame, -⟩ := hengine.same
      intro y hy
      rw [hsame.ops]
      exact h y (hsame.timers.mem hy)

theorem Moves.armed (hmoves : Moves lost l l') (haccounted : Accounted l) (h : Armed l) :
    Armed l' := by
  induction hmoves with
  | refl => exact h
  | tail hbefore hmove ih => exact ih.move (Moves.accounted hbefore haccounted) hmove

end Ledger

namespace World

variable {σ : Type}

structure Tracked (w : World σ) : Prop extends w.Linked where
  accounted : w.ledger.Accounted
  armed : w.ledger.Armed
  busy : ∀ a, (w.assemblies a).Busy

/-- The operation waits, and no dispatch will run its command. -/
structure Forgotten (w : World σ) (o : Nat) : Prop where
  lt : o < w.cape.opCount
  waits : ¬ w.cape.Confirmed o
  unarmed : ∀ y ∈ w.cape.monitorTimers, y.2 ≠ o
  unserved : o ∈ w.actions (w.cape.ops o).hostname →
    (w.assemblies (w.cape.ops o).hostname).Idle

theorem submit_busy {a : Assembly σ} (h : a.Busy) (o : Nat) (command : CString) :
    (a.submit o command).Busy := by
  cases ht : a.transport with
  | none => simpa [Assembly.submit, ht] using h
  | some t =>
      rw [Assembly.submit_eq ht]
      exact Assembly.enqueue_busy ht _ _

theorem submit_idle {a : Assembly σ} (hbusy : a.Busy) (hsound : a.Sound)
    (hrunning : a.recover.state = .running) (hactions : a.actions ≠ []) (hidle : a.Idle)
    (o : Nat) (command : CString) : (a.submit o command).Idle := by
  obtain ⟨⟨t, hconnected⟩, -⟩ := hsound.healthy hrunning
  rw [Assembly.submit_eq hconnected.1.1]
  exact Assembly.enqueue_idle (hbusy.scheduled hconnected hactions) hidle _ _

variable [Stopwatch σ] {d : Deployable} {w w' : World σ} {e : Event} {o : Nat}

theorem Transition.busy (h : Transition d w e w') (htracked : w.Tracked) (a : CString) :
    (w'.assemblies a).Busy := by
  have update : ∀ {b : CString} {asm : Assembly σ}, asm.Busy →
      (Function.update w.assemblies b asm a).Busy := by
    intro b asm hasm
    by_cases ha : a = b
    · subst ha
      rwa [Function.update_self]
    · rw [Function.update_of_ne ha]
      exact htracked.busy a
  cases h with
  | job hgraph hjob hreact hcalls =>
      exact update (Assembly.reactJob_busy (htracked.busy _) (htracked.dialing _)
        (htracked.sound _) hjob hreact)
  | timer hgraph htimer hreact hcalls =>
      exact update (Assembly.reactTimer_busy (htracked.busy _) (htracked.sound _) htimer hreact)
  | monitorRequest hgraph htimer hstate => exact update (submit_busy (htracked.busy _) _ _)
  | @fire graph spec env c queued command hgraph hexec =>
      cases queued with
      | false => exact htracked.busy a
      | true => exact update (submit_busy (htracked.busy _) _ _)
  | monitorOffline | processJob | processNextJob | confirmed | returned =>
      exact htracked.busy a

theorem Tracked.step (h : w.Tracked) (hstep : World.step d w e = .ok w') : w'.Tracked := by
  have hmoves := Ledger.moves_change h.accounted (step_change h.sound hstep)
  exact { h.toLinked.step hstep with
    accounted := hmoves.accounted h.accounted
    armed := hmoves.armed h.accounted h.armed
    busy := (step_transition h.sound hstep).busy h }

theorem load_tracked (d : Deployable) (errno : ResourceId → Int) (answers : CString → Env) :
    (load d errno answers : World σ).Tracked :=
  { load_linked d errno answers with
    accounted := load_accounted d errno answers
    armed := by
      obtain ⟨cloud, hcape⟩ := load_cape (σ := σ) d errno answers
      simp [Ledger.Armed, ledger, hcape, empty]
    busy := fun a => Assembly.busy_of_not_connected (load_sound d errno answers a).commands
      fun t hconnected => (load_down d errno answers a).not_live t hconnected.1 }

theorem reaches_tracked {errno : ResourceId → Int} {answers : CString → Env}
    {events : List Event} (h : Reaches d errno answers events w) : w.Tracked :=
  run_invariant_of_step (fun htracked hstep => htracked.step hstep)
    (load_tracked d errno answers) h

/-! ## A forgotten operation stays forgotten -/

omit [Stopwatch σ] in
theorem Forgotten.not_queued (h : w.Forgotten o) (htracked : w.Tracked) {a : CString}
    {job : AssemblyJob} (hjob : job ∈ (w.assemblies a).jobs) : o ∉ w.actions a := by
  intro hmem
  have hhost : (w.cape.ops o).hostname = a := (htracked.accounted.queued hmem).2
  obtain ⟨s, rfl⟩ := (htracked.sound a).exec_of_actions (List.ne_nil_of_mem hmem) hjob
  subst hhost
  exact h.unserved hmem s hjob

omit [Stopwatch σ] in
theorem Forgotten.pass {c : Cape σ} (h : w.Forgotten o) (hpass : w.cape.Passes o c) :
    Forgotten { w with cape := c } o where
  lt := h.lt.trans_le hpass.opCount
  waits := fun hconfirmed => h.waits (hpass.confirmed hconfirmed)
  unarmed := by
    intro y hy hyo
    obtain ⟨y', hy', hyo'⟩ := hpass.timers ⟨y, hy, hyo⟩
    exact h.unarmed y' hy' hyo'
  unserved := by
    rw [hpass.hostname]
    exact h.unserved

omit [Stopwatch σ] in
theorem Forgotten.update (h : w.Forgotten o) {b : CString} {asm : Assembly σ}
    (hunserved : b = (w.cape.ops o).hostname → o ∈ asm.actions → asm.Idle) :
    Forgotten ⟨Function.update w.assemblies b asm, w.cape⟩ o := by
  refine { h with unserved := fun hmem => ?_ }
  simp only [actions] at hmem ⊢
  by_cases hb : (w.cape.ops o).hostname = b
  · subst hb
    rw [Function.update_self] at hmem ⊢
    exact hunserved rfl hmem
  · rw [Function.update_of_ne hb] at hmem ⊢
    exact h.unserved hmem

omit [Stopwatch σ] in
theorem Forgotten.submit (h : w.Forgotten o) (htracked : w.Tracked) {b : CString}
    (hrunning : (w.assemblies b).recover.state = .running) {x : Nat} (hx : o ≠ x)
    (command : CString) :
    Forgotten ⟨Function.update w.assemblies b ((w.assemblies b).submit x command), w.cape⟩ o := by
  refine h.update fun hb hmem => ?_
  subst hb
  rw [((htracked.sound _).submit hrunning x command).2, List.mem_append, List.mem_singleton] at hmem
  have hold : o ∈ w.actions (w.cape.ops o).hostname := hmem.resolve_right hx
  exact submit_idle (htracked.busy _) (htracked.sound _) hrunning (List.ne_nil_of_mem hold)
    (h.unserved hold) x command

theorem passes_receive {a : CString} {env : Env} {asm : Assembly σ} {outputs : List Output}
    {c : Cape σ} (heffect : (w.assemblies a).Effect asm outputs)
    (hother : ∀ x sshRc, outputs = [.actionCompleted x sshRc] → o ≠ x)
    (hcalls : outputs.foldlM (Cape.receive d a env) w.cape = .ok c) : w.cape.Passes o c := by
  cases heffect with
  | kept hquiet hactions => exact .of_quiet (foldlM_receive_quiet hquiet hcalls).quiet o
  | @completed x sshRc hactions =>
      have hdone : w.cape.resourceActionCompletion d env x sshRc = .ok c := by
        simpa [Cape.receive] using hcalls
      exact .completion (hother x sshRc rfl) hdone
  | restarted hactions =>
      obtain rfl := Except.ok.inj hcalls
      exact .of_quiet (((Cape.Bookkeeping.scheduleProcessing _).quiet.trans
        (.nodeOpHistoryClear _ _)).trans (.instanceRequests _ _ _)) o

theorem Transition.forgotten (h : Transition d w e w') (htracked : w.Tracked)
    (hforgotten : w.Forgotten o) : w.cape.Passes o w'.cape ∧ w'.Forgotten o := by
  have hset : w.cape.pe.workingSet.isSome := Option.isSome_of_eq_some
    (htracked.accounted.pending o hforgotten.lt hforgotten.waits).2
  have hengine : ∀ {c : Cape σ}, Engine w.cape c →
      w.cape.Passes o c ∧ Forgotten { w with cape := c } o := by
    intro c hc
    have hpass := Cape.Passes.engine hc hset o
    exact ⟨hpass, hforgotten.pass hpass⟩
  cases h with
  | @job a job env asm outputs c hgraph hjob hreact hcalls =>
      obtain ⟨-, heffect⟩ := Assembly.reactJob_sound (htracked.sound a) hjob hreact
      have hnot := hforgotten.not_queued htracked hjob
      have hpass : w.cape.Passes o c := by
        refine passes_receive heffect (fun x sshRc houtputs => ?_) hcalls
        subst houtputs
        rintro rfl
        cases heffect with
        | kept hquiet => exact hquiet _ List.mem_cons_self
        | completed hactions => exact hnot (by simp [actions, hactions])
      refine ⟨hpass, (hforgotten.update fun hb hmem => absurd ?_ hnot).pass hpass⟩
      cases heffect with
      | kept hquiet hactions => rwa [actions, ← hactions]
      | completed hactions => simp [actions, hactions, hmem]
      | restarted hactions => simp [hactions] at hmem
  | @timer a handle timer env asm outputs c hgraph htimer hreact hcalls =>
      have heffect := (Assembly.reactTimer_sound (htracked.sound a) htimer hreact).2
      have hnone := Assembly.reactTimer_completes_none (htracked.sound a) htimer hreact
      have hpass : w.cape.Passes o c := by
        rcases heffect with heffect | ⟨-, -, hquiet⟩
        · refine passes_receive heffect (fun x sshRc houtputs => ?_) hcalls
          exact absurd (houtputs ▸ List.mem_cons_self) (hnone x sshRc)
        · exact .of_quiet (foldlM_receive_quiet hquiet hcalls).quiet o
      refine ⟨hpass, (hforgotten.update fun hb hmem => ?_).pass hpass⟩
      have hold : o ∈ w.actions a := by
        rcases heffect with heffect | ⟨-, hempty, -⟩
        · cases heffect with
          | kept hquiet hactions => rwa [actions, ← hactions]
          | completed hactions => exact absurd List.mem_cons_self (hnone _ _)
          | restarted hactions => simp [hactions] at hmem
        · simp [hempty] at hmem
      subst hb
      rcases Assembly.reactTimer_stalled (htracked.busy _) (htracked.sound _)
        (hforgotten.unserved hold) (List.ne_nil_of_mem hold) htimer hreact with hempty | hidle
      · simp [hempty] at hmem
      · exact hidle
  | @monitorOffline handle x env c hgraph htimer hstate hok =>
      have hx : o ≠ x := fun heq => hforgotten.unarmed _ htimer heq.symm
      have hdeleted := (Cape.Bookkeeping.timerDel w.cape handle).quiet
      have hpass := (Cape.Passes.of_quiet hdeleted o).trans (.completed hx hok)
      exact ⟨hpass, hforgotten.pass hpass⟩
  | @monitorRequest handle x env command hgraph htimer hstate =>
      have hx : o ≠ x := fun heq => hforgotten.unarmed _ htimer heq.symm
      have hdeleted := (Cape.Bookkeeping.timerDel w.cape handle).quiet
      have hpass := (Cape.Passes.of_quiet hdeleted o).trans (.hand _ o x)
      exact ⟨hpass, (hforgotten.submit htracked hstate hx command).pass hpass⟩
  | processJob hgraph hpos => exact hengine .processJob
  | processNextJob hgraph hmem => exact hengine (.processNextJob hgraph hmem)
  | confirmed hgraph => exact hengine .confirmed
  | @fire graph spec env c queued command hgraph hexec =>
      have hx := Nat.ne_of_lt hforgotten.lt
      have hpass := (Cape.Passes.create w.cape hforgotten.lt graph spec).trans
        (.executed hx hexec)
      cases queued with
      | false => exact ⟨hpass, hforgotten.pass hpass⟩
      | true => exact ⟨hpass, (hforgotten.submit htracked hexec.running hx command).pass hpass⟩
  | returned hgraph hconfirmed => exact hengine (.returned hgraph hconfirmed)

/--
An operation that is not confirmed and whose command no dispatch will run is never confirmed: its
transition stays in progress in every continuation of the run, and the engine computes no other.
-/
theorem transition_blocked {errno : ResourceId → Int} {answers : CString → Env}
    {events more : List Event} (h : Reaches d errno answers events w) (hlt : o < w.cape.opCount)
    (hwaits : ¬ w.cape.Confirmed o)
    (hunserved : o ∈ w.actions (w.cape.ops o).hostname →
      (w.assemblies (w.cape.ops o).hostname).Idle)
    (hrun : run (World.step d) w more = .ok w') :
    ¬ w'.cape.Confirmed o ∧ w'.cape.pe.workingSet = some (w.cape.ops o).graph ∧
      w'.cape.pe.transitionCount = w.cape.pe.transitionCount := by
  have htracked := reaches_tracked h
  have hforgotten : w.Forgotten o := by
    refine ⟨hlt, hwaits, fun y hy hyo => ?_, hunserved⟩
    have hexecuted : 1 ≤ (w.cape.ops y.2).executions := htracked.armed y hy
    have hnever : (w.cape.ops o).executions = 0 := (htracked.accounted.pending o hlt hwaits).1
    rw [hyo] at hexecuted
    omega
  obtain ⟨htracked', hforgotten', hpass⟩ :
      w'.Tracked ∧ w'.Forgotten o ∧ w.cape.Passes o w'.cape := by
    refine run_invariant_of_step
      (I := fun v => v.Tracked ∧ v.Forgotten o ∧ w.cape.Passes o v.cape) ?_
      ⟨htracked, hforgotten, .of_quiet (.refl _) o⟩ hrun
    rintro v e v' ⟨hv, hf, hp⟩ hstep
    obtain ⟨hpass, hf'⟩ := (step_transition hv.sound hstep).forgotten hv hf
    exact ⟨hv.step hstep, hf', hp.trans hpass⟩
  have hset : w'.cape.pe.workingSet = some (w'.cape.ops o).graph :=
    (htracked'.accounted.pending o hforgotten'.lt hforgotten'.waits).2
  exact ⟨hforgotten'.waits, hset.trans (congrArg some hpass.graph), hpass.transitions⟩

/-- The channel of the health check in front of the probe cannot be opened. -/
theorem transition_blocked_unopened :
    ∃ w : World Ring, BarReaches (probing ++ [.job bar (.assemblySshExec 0)
        { workingEnv with exec := fun _ => .error }]) w ∧
      0 ∈ w.actions bar ∧ ¬ w.cape.Confirmed 0 ∧
      ∀ more w', run (World.step barDeployable) w more = .ok w' →
        w'.cape.pe.workingSet = some 0 := by
  obtain ⟨w, hreach, hlt, hwaits, hhost, hgraph, hqueued, hidle⟩ :
      ∃ w : World Ring, BarReaches (probing ++ [.job bar (.assemblySshExec 0)
          { workingEnv with exec := fun _ => .error }]) w ∧
        0 < w.cape.opCount ∧ ¬ w.cape.Confirmed 0 ∧ (w.cape.ops 0).hostname = bar ∧
        (w.cape.ops 0).graph = 0 ∧ 0 ∈ w.actions bar ∧ (w.assemblies bar).jobs = [] :=
    exists_reaches (by decide +kernel)
  refine ⟨w, hreach, hqueued, hwaits, fun more w' hrun => ?_⟩
  have hunserved : (w.assemblies (w.cape.ops 0).hostname).Idle := by
    intro s
    simp [hhost, hidle]
  rw [← hgraph]
  exact (transition_blocked hreach hlt hwaits (fun _ => hunserved) hrun).2.1

end World

end PacemakerCloud

import PacemakerCloud.Daemon.Ledger

/-!
# Confirming operations

`pe_resource_completed` is called once for an operation, while its transition is
in progress.  That it is called at all rests on the transport: an operation whose
command was dropped before it ran is never confirmed.
-/

namespace PacemakerCloud

open Foundation

namespace Ledger

variable {σ : Type} {l l' : Ledger σ} {lost : Nat → Prop}

/-! ## At most once -/

/-- No operation was executed so often that `times_executed` wrapped around. -/
def Bounded (l : Ledger σ) : Prop :=
  ∀ o < l.cape.opCount, (l.cape.ops o).executions < 2 ^ 32

structure Once (l : Ledger σ) : Prop where
  nodup : (l.cape.pe.completions.map PeCompletion.op).Nodup
  live : ∀ e ∈ l.cape.pe.completions, ∀ g, e.workingSet = some g →
    (l.cape.ops e.op).graph = g
  executed : ∀ o, l.Carried o → l.Called o → 1 ≤ (l.cape.ops o).executions

theorem mem_completions_iff {o : Nat} :
    o ∈ l.cape.pe.completions.map PeCompletion.op ↔ l.Called o :=
  List.mem_map

theorem Accounted.lt_of_carried (h : Accounted l) {o : Nat} (hcarried : l.Carried o) :
    o < l.cape.opCount := by
  rcases hcarried with ⟨a, ha⟩ | ⟨x, hx, rfl⟩
  · exact (h.queued ha).1
  · exact h.armed x hx

theorem Accounted.workingSet_of_not_called (h : Accounted l) {o : Nat}
    (hlt : o < l.cape.opCount) (hcalled : ¬ l.Called o) :
    l.cape.pe.workingSet = some (l.cape.ops o).graph :=
  (h.pending o hlt fun ⟨e, he, heq, _⟩ => hcalled ⟨e, he, heq⟩).2

theorem Move.bounded (hmove : Move lost l l') (h : Bounded l') : Bounded l := by
  intro o ho
  cases hmove with
  | quiet hquiet =>
      rw [← hquiet.executions]
      exact h o (hquiet.opCount ▸ ho)
  | lose | done | settle | arm => exact h o ho
  | @execute x ec hlt hcalled =>
      have hx := h o (by simpa using ho)
      by_cases hox : o = x
      · subst hox
        simp only [Cape.execute_ops, Function.update_self] at hx
        omega
      · simpa [Function.update_of_ne hox] using hx
  | @hand x hlt hcalled =>
      rw [← (Cape.Quiet.peResourceRef l.cape x).executions]
      exact h o ho
  | create spec hgraph =>
      have hx := h o (Nat.lt_succ_of_lt ho)
      simpa [World.execRscAction, Function.update_of_ne (Nat.ne_of_lt ho)] using hx
  | engine hengine =>
      obtain ⟨hsame, -⟩ := hengine.same
      rw [← hsame.ops]
      exact h o (hsame.opCount ▸ ho)

namespace Once

theorem congr (h : Once l)
    (hcompletions : l'.cape.pe.completions = l.cape.pe.completions)
    (hgraph : ∀ e ∈ l.cape.pe.completions,
      (l'.cape.ops e.op).graph = (l.cape.ops e.op).graph)
    (hcarried : ∀ o, l'.Carried o → l.Called o →
      l.Carried o ∧ (l.cape.ops o).executions ≤ (l'.cape.ops o).executions ∨
        1 ≤ (l'.cape.ops o).executions) : Once l' where
  nodup := hcompletions ▸ h.nodup
  live e he g hg := by
    rw [hcompletions] at he
    rw [hgraph e he]
    exact h.live e he g hg
  executed o ho hcalled := by
    have hbefore : l.Called o := by simpa only [Called, hcompletions] using hcalled
    rcases hcarried o ho hbefore with ⟨hc, hle⟩ | hpos
    · exact (h.executed o hc hbefore).trans hle
    · exact hpos

theorem restrict (h : Once l) {a : CString} {os : List Nat} (hsub : os ⊆ l.actions a) :
    Once { l with actions := Function.update l.actions a os } := by
  refine h.congr rfl (fun _ _ => rfl) fun o ho _ => Or.inl ⟨?_, le_rfl⟩
  refine ho.imp_left fun ⟨b, hb⟩ => ?_
  rcases mem_update.mp hb with ⟨rfl, hos⟩ | ⟨-, hold⟩
  · exact ⟨b, hsub hos⟩
  · exact ⟨b, hold⟩

theorem call (h : Once l) (haccounted : Accounted l) {o returnCode : Nat}
    (hlt : o < l.cape.opCount) (hcalled : ¬ l.Called o)
    (hcompletions : l'.cape.pe.completions =
      ⟨o, l.cape.pe.workingSet, returnCode⟩ :: l.cape.pe.completions)
    (hgraph : ∀ x, (l'.cape.ops x).graph = (l.cape.ops x).graph)
    (hcarried : ∀ x, l'.Carried x → l.Carried x)
    (hle : ∀ x, (l.cape.ops x).executions ≤ (l'.cape.ops x).executions)
    (ho : l.Carried o → 1 ≤ (l'.cape.ops o).executions) : Once l' where
  nodup := by
    rw [hcompletions, List.map_cons, List.nodup_cons, mem_completions_iff]
    exact ⟨hcalled, h.nodup⟩
  live e he g hg := by
    rw [hcompletions] at he
    rw [hgraph]
    rcases List.mem_cons.mp he with rfl | he
    · rw [haccounted.workingSet_of_not_called hlt hcalled] at hg
      exact Option.some.inj hg
    · exact h.live e he g hg
  executed x hx hafter := by
    obtain ⟨e, he, heq⟩ := hafter
    rw [hcompletions] at he
    rcases List.mem_cons.mp he with rfl | he
    · subst heq
      exact ho (hcarried _ hx)
    · exact (h.executed x (hcarried x hx) ⟨e, he, heq⟩).trans (hle x)

theorem execute (h : Once l) (haccounted : Accounted l) {o : Nat} {ec : Int}
    (hlt : o < l.cape.opCount) (hcalled : l.Called o → l.Carried o)
    (hbound : Bounded { l with cape := l.cape.execute o ec }) :
    Once { l with cape := l.cape.execute o ec } := by
  have hgraph : ∀ x, ((l.cape.execute o ec).ops x).graph = (l.cape.ops x).graph := by
    intro x
    by_cases hx : x = o <;> simp [hx]
  have hle : ∀ x, (l.cape.ops x).executions ≤
      ((l.cape.execute o ec).ops x).executions := by
    intro x
    by_cases hx : x = o <;> simp [hx]
  have hcarried : ∀ x, Carried { l with cape := l.cape.execute o ec } x → l.Carried x :=
    fun x hx => by simpa [Carried] using hx
  have htimes : ((l.cape.ops o).timesExecuted + 1) % 2 ^ 32 =
      (l.cape.ops o).executions + 1 := by
    have hexec := hbound o (by simpa using hlt)
    simp only [Cape.execute_ops, Function.update_self] at hexec
    rw [haccounted.times o hlt]
    omega
  by_cases hfirst : (l.cape.ops o).executions = 0
  · have hcompletions := (l.cape.execute_completions o ec).trans (if_pos (by omega))
    refine h.call haccounted hlt (fun hc => ?_) hcompletions hgraph hcarried hle
      fun _ => by simp
    have := h.executed o (hcalled hc) hc
    omega
  · refine h.congr ?_ (fun e _ => hgraph e.op) fun x hx _ => Or.inl ⟨hcarried x hx, hle x⟩
    exact (Cape.execute_completions _ _ _).trans (if_neg (by omega))

theorem move (h : Once l) (haccounted : Accounted l) (hmove : Move lost l l')
    (hbound : Bounded l') : Once l' := by
  cases hmove with
  | quiet hquiet =>
      refine h.congr (congrArg _ hquiet.pe) (fun e _ => hquiet.graph e.op)
        fun o ho _ => Or.inl ⟨?_, (hquiet.executions o).ge⟩
      exact ho.imp_right fun ⟨x, hx, hxo⟩ => ⟨x, hquiet.timers.mem hx, hxo⟩
  | lose hlost => exact h.restrict (List.nil_subset _)
  | done hactions hconf => exact h.restrict (hactions ▸ List.subset_cons_self _ _)
  | execute hlt hcalled => exact h.execute haccounted hlt hcalled hbound
  | @hand o hlt hcalled =>
      have href := Cape.Quiet.peResourceRef l.cape o
      refine h.congr rfl (fun e _ => href.graph e.op) fun x hx hcalled' =>
        Or.inl ⟨?_, (href.executions x).ge⟩
      rcases hx with ⟨b, hb⟩ | htimer
      · rcases mem_update.mp hb with ⟨rfl, hnew⟩ | ⟨-, hold⟩
        · rcases List.mem_append.mp hnew with hold | hlast
          · exact Or.inl ⟨_, hold⟩
          · obtain rfl := List.mem_singleton.mp hlast
            exact hcalled hcalled'
        · exact Or.inl ⟨b, hold⟩
      · exact Or.inr htimer
  | @arm r o hlt hpos =>
      refine h.congr rfl (fun _ _ => rfl) fun x hx _ => ?_
      rcases hx with hqueued | ⟨y, hy, rfl⟩
      · exact Or.inl ⟨Or.inl hqueued, le_rfl⟩
      · rcases List.mem_append.mp hy with hold | hlast
        · exact Or.inl ⟨Or.inr ⟨y, hold, rfl⟩, le_rfl⟩
        · obtain rfl := List.mem_singleton.mp hlast
          exact Or.inr hpos
  | settle hlt hcalled hcarried =>
      exact h.call haccounted hlt hcalled rfl (fun _ => rfl) (fun _ hx => hx)
        (fun _ => le_rfl) fun ho => absurd ho hcarried
  | @create graph spec hgraph =>
      have hold : ∀ {x}, x < l.cape.opCount →
          (World.execRscAction l.cape graph spec).ops x = l.cape.ops x := fun hx => by
        simp [World.execRscAction, Function.update_of_ne (Nat.ne_of_lt hx)]
      refine h.congr rfl (fun e he => ?_) fun o ho _ => Or.inl ⟨ho, ?_⟩
      · exact congrArg _ (hold (haccounted.completed e he))
      · exact (congrArg PeOperation.executions (hold (haccounted.lt_of_carried ho))).ge
  | engine hengine =>
      obtain ⟨hsame, -, hcompletions⟩ := hengine.same
      refine h.congr hcompletions (fun e _ => by rw [hsame.ops]) fun o ho _ =>
        Or.inl ⟨?_, by rw [hsame.ops]⟩
      exact ho.imp_right fun ⟨x, hx, hxo⟩ => ⟨x, hsame.timers.mem hx, hxo⟩

end Once

theorem Moves.once (hmoves : Moves lost l l') (haccounted : Accounted l)
    (h : Bounded l → Once l) (hbound : Bounded l') : Once l' := by
  induction hmoves with
  | refl => exact h hbound
  | tail hbefore hmove ih =>
      exact (ih (hmove.bounded hbound)).move (Moves.accounted hbefore haccounted) hmove
        hbound

/-! ## Operations that wait -/

/-- An operation that waits for its confirmation is queued or was lost. -/
def Awaited (lost : Nat → Prop) (l : Ledger σ) : Prop :=
  ∀ o ∈ l.cape.handed, ¬ l.cape.Confirmed o →
    o ∈ l.actions (l.cape.ops o).hostname ∨ lost o

theorem Move.confirmed (hmove : Move lost l l') {o : Nat} (h : l.cape.Confirmed o) :
    l'.cape.Confirmed o := by
  cases hmove with
  | quiet hquiet => exact (Cape.confirmed_of_pe hquiet.pe).mpr h
  | lose | done | hand | arm | create => exact h
  | execute => exact h.execute _ _
  | settle => exact h.peResourceCompleted _ _
  | engine hengine =>
      simpa only [Cape.Confirmed, hengine.same.2.2] using h

theorem Awaited.move (h : Awaited lost l) (haccounted : Accounted l)
    (hmove : Move lost l l') : Awaited lost l' := by
  intro o ho hconf
  have hbefore : ¬ l.cape.Confirmed o := fun hc => hconf (hmove.confirmed hc)
  cases hmove with
  | quiet hquiet =>
      rw [hquiet.hostname]
      exact h o (hquiet.handed ▸ ho) hbefore
  | @lose a hlost =>
      rcases h o ho hbefore with hqueued | hlost'
      · by_cases ha : (l.cape.ops o).hostname = a
        · exact Or.inr (hlost o (ha ▸ hqueued))
        · exact Or.inl (mem_update.mpr (Or.inr ⟨ha, hqueued⟩))
      · exact Or.inr hlost'
  | @done a x rest hactions hx =>
      refine (h o ho hbefore).imp_left fun hqueued => mem_update.mpr ?_
      by_cases ha : (l.cape.ops o).hostname = a
      · rw [ha, hactions] at hqueued
        rcases List.mem_cons.mp hqueued with rfl | hrest
        · exact absurd hx hbefore
        · exact Or.inl ⟨ha, hrest⟩
      · exact Or.inr ⟨ha, hqueued⟩
  | @execute x ec hlt hcalled =>
      have hne : o ≠ x := by
        rintro rfl
        exact hconf (haccounted.confirmed_execute hlt ec)
      simpa [Function.update_of_ne hne] using h o (by simpa using ho) hbefore
  | @hand x hlt hcalled =>
      have hhost : ((l.cape.hand x).ops o).hostname = (l.cape.ops o).hostname :=
        (Cape.Quiet.peResourceRef l.cape x).hostname o
      simp only [hhost]
      rcases List.mem_cons.mp ho with rfl | ho
      · exact Or.inl (mem_update.mpr (Or.inl ⟨rfl, by simp⟩))
      · refine (h o ho hbefore).imp_left fun hqueued => mem_update.mpr ?_
        by_cases ha : (l.cape.ops o).hostname = (l.cape.ops x).hostname
        · exact Or.inl ⟨ha, by simp [← ha, hqueued]⟩
        · exact Or.inr ⟨ha, hqueued⟩
  | arm | settle => exact h o ho hbefore
  | @create graph spec hgraph =>
      have hlt := haccounted.handed o ho
      simpa [World.execRscAction, Function.update_of_ne (Nat.ne_of_lt hlt)] using
        h o ho hbefore
  | engine hengine =>
      obtain ⟨hsame, hhanded, -⟩ := hengine.same
      rw [hsame.ops]
      exact h o (hhanded ▸ ho) hbefore

theorem Moves.awaited (hmoves : Moves lost l l') (haccounted : Accounted l)
    (h : Awaited lost l) : Awaited lost l' := by
  induction hmoves with
  | refl => exact h
  | tail hbefore hmove ih => exact ih.move (Moves.accounted hbefore haccounted) hmove

theorem Moves.confirmed (hmoves : Moves lost l l') {o : Nat} (h : l.cape.Confirmed o) :
    l'.cape.Confirmed o := by
  induction hmoves with
  | refl => exact h
  | tail _ hmove ih => exact hmove.confirmed ih

end Ledger

namespace World

variable {σ : Type}

/-! ## Loading -/

theorem foldl_instanceCreate_cape (answers : CString → Env) (nodes : List AssemblyNode)
    (w : World σ) :
    ∃ cloud, (nodes.foldl
      (fun w node => core.instanceCreate w node.name (answers node.name)) w).cape =
        { w.cape with cloud := cloud } := by
  induction nodes generalizing w with
  | nil => exact ⟨w.cape.cloud, rfl⟩
  | cons node nodes ih =>
      obtain ⟨cloud, hcloud⟩ := ih (core.instanceCreate w node.name (answers node.name))
      exact ⟨cloud, hcloud⟩

variable [Stopwatch σ] {d : Deployable} {w : World σ} {errno : ResourceId → Int}
  {answers : CString → Env} {events : List Event}

theorem load_cape (d : Deployable) (errno : ResourceId → Int) (answers : CString → Env) :
    ∃ cloud, (load d errno answers : World σ).cape =
      { (empty d errno : World σ).cape with cloud := cloud } :=
  foldl_instanceCreate_cape answers d.assemblies (empty d errno)

theorem load_actions (d : Deployable) (errno : ResourceId → Int)
    (answers : CString → Env) (a : CString) :
    (load d errno answers : World σ).actions a = [] := by
  rw [actions, load_assemblies]
  split <;> rfl

theorem load_accounted (d : Deployable) (errno : ResourceId → Int)
    (answers : CString → Env) :
    (load d errno answers : World σ).ledger.Accounted := by
  obtain ⟨cloud, hcape⟩ := load_cape (σ := σ) d errno answers
  have hactions := load_actions (σ := σ) d errno answers
  constructor <;> simp [ledger, hcape, hactions, empty]

structure Kept (I : Ledger σ → Prop) (w : World σ) : Prop where
  sound : ∀ a, (w.assemblies a).Sound
  accounted : w.ledger.Accounted
  fact : I w.ledger

theorem Kept.step {I : Ledger σ → Prop} {e : Event} {w' : World σ} (h : Kept I w)
    (keep : w.Change d e w'.actions w'.cape → I w'.ledger)
    (hstep : World.step d w e = .ok w') : Kept I w' :=
  have hchange := step_change h.sound hstep
  ⟨step_sound h.sound hstep, (Ledger.moves_change h.accounted hchange).accounted h.accounted,
    keep hchange⟩

theorem Kept.load {I : Ledger σ → Prop} (h : I (World.load d errno answers).ledger) :
    Kept I (World.load d errno answers) :=
  ⟨load_sound d errno answers, load_accounted d errno answers, h⟩

/--
In every run in which no operation is executed `2 ^ 32` times,
`pe_resource_completed` is called at most once for an operation, and the
transition it finds in progress is the operation's own.
-/
theorem completed_once (h : Reaches d errno answers events w)
    (hbound : ∀ o < w.cape.opCount, (w.cape.ops o).executions < 2 ^ 32) :
    (w.cape.pe.completions.map PeCompletion.op).Nodup ∧
      ∀ e ∈ w.cape.pe.completions, ∀ g, e.workingSet = some g →
        (w.cape.ops e.op).graph = g := by
  have hinit : (load d errno answers : World σ).ledger.Once := by
    obtain ⟨cloud, hcape⟩ := load_cape (σ := σ) d errno answers
    constructor <;> simp [Ledger.Called, ledger, hcape, empty]
  have hkept := run_invariant_of_step (I := Kept fun l => l.Bounded → l.Once)
    (fun hkept => hkept.step fun hchange =>
      (Ledger.moves_change hkept.accounted hchange).once hkept.accounted hkept.fact)
    (.load fun _ => hinit) h
  exact ⟨(hkept.fact hbound).nodup, (hkept.fact hbound).live⟩

def angusOn (node : CString) (method : Method) (interval targetOutcome : Nat) : OpSpec where
  hostname := node
  method := method
  rname := "rsc_bar_angus".toList
  rclass := "lsb".toList
  rprovider := none
  rtype := "httpd".toList
  params := []
  opDigest := []
  interval := interval
  targetOutcome := targetOutcome
  graphId := 1
  actionId := 1

def angus (method : Method) (interval targetOutcome : Nat) : GraphAction :=
  .rsc (angusOn bar method interval targetOutcome)

def probing : List Event :=
  bringUp ++ [.processJob, .processNextJob 0, .fire (angus .monitor 0 7) workingEnv,
    .runGraphReturn .active]

def monitoring : List Event :=
  bringUp ++ [.job bar (.assemblySshExec 0) workingEnv, .processJob, .processNextJob 0,
    .fire (angus .monitor 0 7) workingEnv, .fire (angus .monitor 1000 0) workingEnv,
    .runGraphReturn .active, .job bar (.assemblySshExec 1) workingEnv,
    .job bar (.assemblySshExec 2) workingEnv]

theorem completed_once_monitoring :
    ∃ w, BarReaches (monitoring ++
        [.monitorTimer 1 workingEnv, .job bar (.assemblySshExec 3) workingEnv]) w ∧
      (w.cape.ops 1).executions = 2 ∧
      (w.cape.pe.completions.map PeCompletion.op).Nodup ∧
      ∀ e ∈ w.cape.pe.completions, ∀ g, e.workingSet = some g →
        (w.cape.ops e.op).graph = g := by
  obtain ⟨w, hreach, htwice, hbound⟩ :
      ∃ w, BarReaches (monitoring ++
          [.monitorTimer 1 workingEnv, .job bar (.assemblySshExec 3) workingEnv]) w ∧
        (w.cape.ops 1).executions = 2 ∧
        ∀ o < w.cape.opCount, (w.cape.ops o).executions < 2 ^ 32 :=
    exists_reaches (by decide +kernel)
  exact ⟨w, hreach, htwice, completed_once hreach hbound⟩

/-! ## No operation is forgotten -/

/-- Commands are dropped only if the operations they carry are confirmed. -/
def DropsConfirmed (w : World σ) (e : Event) : Prop :=
  (∀ a ∈ w.timingOut e, ∀ o ∈ w.actions a, w.cape.Confirmed o) ∧
    ∀ x ∈ w.restarting e, ∀ o ∈ w.actions x.1, w.cape.Confirmed o

instance (w : World σ) (e : Event) : Decidable (DropsConfirmed w e) :=
  inferInstanceAs (Decidable (_ ∧ _))

/--
An operation that was handed to the transport and not confirmed is carried by a
command of its assembly, in every run in which timeouts and restarts drop the
commands of confirmed operations only.
-/
theorem carried_of_dropsConfirmed
    (halong : Along (step d) DropsConfirmed (load d errno answers : World σ) events)
    (h : Reaches d errno answers events w) :
    ∀ o ∈ w.cape.handed, ¬ w.cape.Confirmed o →
      o ∈ w.actions (w.cape.ops o).hostname := by
  have hinit : (load d errno answers : World σ).ledger.Awaited fun _ => False := by
    obtain ⟨cloud, hcape⟩ := load_cape (σ := σ) d errno answers
    intro o ho
    simp [ledger, hcape, empty] at ho
  have hkept := run_invariant (I := Kept (Ledger.Awaited fun _ => False)) ?_ (.load hinit)
    halong h
  · intro o ho hconf
    exact (hkept.fact o ho hconf).resolve_right id
  · rintro w e w' hkept ⟨htimeout, hrestart⟩
    refine hkept.step fun hchange o ho hconf => ?_
    have hmoves := Ledger.moves_change hkept.accounted hchange
    have hbefore : w.ledger.Awaited (Ledger.Lost w e) := fun x hx hxconf =>
      (hkept.fact x hx hxconf).imp_right False.elim
    refine (hmoves.awaited hkept.accounted hbefore o ho hconf).imp_right ?_
    rintro ⟨a, ha, hqueued⟩
    refine hconf (hmoves.confirmed ?_)
    rcases ha with ha | ⟨env, ha⟩
    · exact htimeout a ha o hqueued
    · exact hrestart (a, env) ha o hqueued

theorem carried_of_dropsConfirmed_probing :
    ∃ w, BarReaches probing w ∧ 0 ∈ w.cape.handed ∧ ¬ w.cape.Confirmed 0 ∧
      0 ∈ w.actions (w.cape.ops 0).hostname := by
  obtain ⟨w, hreach, hhanded, hwaits⟩ :
      ∃ w, BarReaches probing w ∧ 0 ∈ w.cape.handed ∧ ¬ w.cape.Confirmed 0 :=
    exists_reaches (by decide +kernel)
  exact ⟨w, hreach, hhanded, hwaits,
    carried_of_dropsConfirmed (by decide +kernel) hreach 0 hhanded hwaits⟩

/--
The health check in front of the probe times out: the probe is dropped with it, and
its transition stays in progress with nothing left to confirm the probe.
-/
theorem timeout_forgets_probe :
    ∃ w, BarReaches (probing ++ [.timer bar 2 workingEnv]) w ∧ 0 ∈ w.cape.handed ∧
      ¬ w.cape.Confirmed 0 ∧ w.actions (w.cape.ops 0).hostname = [] ∧
      w.cape.pe.workingSet = some (w.cape.ops 0).graph :=
  exists_reaches (by decide +kernel)

end World

end PacemakerCloud

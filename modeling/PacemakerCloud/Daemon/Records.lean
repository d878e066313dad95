import PacemakerCloud.Daemon.Change

/-!
# The recovery records of the resources

Only a result of an operation sets the state of a resource: a command that has completed, or a
failure that is reported for a node that is not running.  Only a recurring monitor sets it to
FAILED.
-/

namespace PacemakerCloud

open Foundation

namespace Cape

variable {σ : Type} {c c' c'' : Cape σ} {d : Deployable} {env : Env} {o : Nat} {ec : Int}

def records (c : Cape σ) (r : ResourceId) : RecoverState := (c.resources r).recover.state

def SameRecords (c c' : Cape σ) : Prop := c'.records = c.records

namespace SameRecords

theorem trans (h : SameRecords c c') (h' : SameRecords c' c'') : SameRecords c c'' :=
  Eq.trans h' h

theorem modifyResource (c : Cape σ) (r : ResourceId) {f : Resource σ → Resource σ}
    (hf : ∀ x, (f x).recover = x.recover) : SameRecords c (c.modifyResource r f) := by
  funext r'
  by_cases hr : r' = r
  · subst hr
    simp [records, Cape.modifyResource, hf]
  · simp [records, Cape.modifyResource, Function.update_of_ne hr]

theorem unwinding : Unwinding (SameRecords (σ := σ)) where
  refl _ := rfl
  trans := trans
  timerDel _ _ := rfl
  peResourceUnref c o := by
    unfold SameRecords records
    rw [peResourceUnref_resources]
  clearMonitorOp c r := modifyResource c r fun _ => rfl

theorem nodeOpHistoryClear (c : Cape σ) (a : CString) :
    SameRecords c (c.nodeOpHistoryClear a) := by
  have hclear : SameRecords c (c.clearHistory fun r => r.assembly = a) :=
    unwinding.clearHistory (fun _ _ => rfl) c _
  refine hclear.trans (funext fun r => ?_)
  simp only [records, Cape.nodeOpHistoryClear]
  split <;> rfl

theorem engine (h : World.Engine c c') : SameRecords c c' := by
  cases h with
  | processJob =>
      simp only [World.processJob]
      split <;> rfl
  | processNextJob =>
      simp only [World.processNextJob]
      split <;> rfl
  | confirmed => rfl
  | @returned graph status => cases status <;> rfl

theorem opHistorySave (c : Cape σ) (now : Nat) (r : ResourceId) (o : Nat) (ec : Int) :
    SameRecords c (c.opHistorySave now r o ec) := by
  have hentry : (c.opHistoryEntry r (c.ops o)).1.records = c.records := by
    unfold opHistoryEntry
    split
    · rfl
    · split <;> rfl
  exact hentry

theorem opHistoryRecord {r : Option ResourceId} (h : c.opHistoryRecord env r o ec = .ok c') :
    SameRecords c c' := by
  unfold Cape.opHistoryRecord at h
  split at h
  · obtain ⟨r, -, heq⟩ := bind_eq_ok.mp h
    cases heq
    exact opHistorySave c env.now r o ec
  · cases h
    rfl

theorem confirmFirst (c : Cape σ) (o : Nat) (ec : Int) : SameRecords c (c.confirmFirst o ec) := by
  unfold Cape.confirmFirst
  split <;> rfl

theorem resourceActionRelease {r : Option ResourceId}
    (h : c.resourceActionRelease r o ec = .ok c') : SameRecords c c' := by
  rcases resourceActionRelease_ok h with ⟨-, rfl⟩ | ⟨r', -, -, rfl⟩
  · exact unwinding.peResourceUnref c o
  · have hadded : SameRecords c
        (c.modifyResource r' ({ · with monitorTimer := c.timerCount + 1 })) :=
      modifyResource c r' fun _ => rfl
    exact hadded

end SameRecords

variable [Stopwatch σ]

theorem records_resourceRecoverSet (c : Cape σ) (env : Env) (r : ResourceId)
    (state : RecoverState) :
    (c.resourceRecoverSet env r state).records = Function.update c.records r state := by
  have hcalls := foldl_rel (R := SameRecords) (fun _ => rfl) SameRecords.trans
    (f := resourceCallback env r) (fun c call => by cases call <;> rfl)
    (recoverStateSet (c.resources r).recover env.now state).2
    (c.modifyResource r
      ({ · with recover := (recoverStateSet (c.resources r).recover env.now state).1 }))
  refine Eq.trans hcalls (funext fun r' => ?_)
  by_cases hr : r' = r
  · subst hr
    simp [records, modifyResource, recoverStateSet_state]
  · simp [records, modifyResource, Function.update_of_ne hr]

theorem recurring_of_failed {op : PeOperation} (h : resourceStateOf op ec = some .failed) :
    op.method = .monitor ∧ 0 < op.interval := by
  unfold resourceStateOf at h
  split at h
  case h_1 hmethod =>
    refine ⟨hmethod, Nat.pos_of_ne_zero fun hinterval => ?_⟩
    rw [if_pos hinterval] at h
    split at h <;> cases h
  case h_2 =>
    split at h
    · cases h
    · split at h <;> cases h
  case h_3 =>
    split at h
    · cases h
    · split at h <;> cases h
  all_goals cases h

inductive Reported (d : Deployable) (op : PeOperation) (ec : Int) (c c' : Cape σ) : Prop where
  | kept (hstate : resourceStateOf op ec = none) (h : SameRecords c c')
  | set {r : ResourceId} {state : RecoverState} (hstate : resourceStateOf op ec = some state)
      (hr : d.resource? op.hostname op.rname = some r)
      (h : c'.records = Function.update c.records r state)

omit [Stopwatch σ] in
theorem Reported.congr {op : PeOperation} {b b' : Cape σ} (h : Reported d op ec b b')
    (hbefore : SameRecords c b) (hafter : SameRecords b' c') : Reported d op ec c c' := by
  cases h with
  | kept hstate h => exact .kept hstate ((hbefore.trans h).trans hafter)
  | set hstate hr h =>
      rw [hbefore] at h
      exact .set hstate hr (Eq.trans hafter h)

theorem reported_of_resourceStateSet {op : PeOperation}
    (h : c.resourceStateSet env (d.resource? op.hostname op.rname) op ec = .ok c') :
    Reported d op ec c c' := by
  unfold resourceStateSet at h
  split at h
  case h_1 hstate =>
    cases h
    exact .kept hstate rfl
  case h_2 state hstate =>
    obtain ⟨r, hfound, heq⟩ := bind_eq_ok.mp h
    cases heq
    have hr : d.resource? op.hostname op.rname = some r := by
      revert hfound
      cases d.resource? op.hostname op.rname with
      | none => exact fun hfound => nomatch hfound
      | some r' => exact fun hfound => congrArg some (Except.ok.inj hfound)
    exact .set hstate hr (records_resourceRecoverSet c env r state)

theorem reported_of_completed (h : c.resourceActionCompleted d env o ec = .ok c') :
    Reported d (c.ops o) ec c c' := by
  simp only [resourceActionCompleted] at h
  split at h
  case h_1 => cases h
  case h_2 =>
    obtain ⟨c₁, hrecord, h⟩ := bind_eq_ok.mp h
    obtain ⟨c₂, hset, h⟩ := bind_eq_ok.mp h
    refine (reported_of_resourceStateSet hset).congr ?_ ?_
    · exact (SameRecords.opHistoryRecord hrecord).trans (.confirmFirst c₁ o ec)
    · refine SameRecords.trans ?_ (SameRecords.resourceActionRelease h)
      split <;> rfl

theorem reported_of_completion {sshRc : Int}
    (h : c.resourceActionCompletion d env o sshRc = .ok c') :
    Reported d (c.ops o) ((c.ops o).exitcode sshRc) c c' := by
  obtain ⟨mid, hmid, heq⟩ := bind_eq_ok.mp h
  cases heq
  exact (reported_of_completed hmid).congr rfl (SameRecords.unwinding.peResourceUnref mid o)

theorem reported_of_executed {state : RecoverState} {queued : Bool}
    (h : c.Executed d env o state c' queued) :
    state = .running ∧ SameRecords c c' ∨
      state ≠ .running ∧ Reported d (c.ops o) ocfUnknownError c c' := by
  have hfound : ∀ r, SameRecords c (c.setResource o r) := fun _ => rfl
  have hsettle : ∀ (b : Cape σ) ec, SameRecords b (b.settle o ec) :=
    fun b ec => SameRecords.unwinding.peResourceUnref (b.peResourceCompleted o ec) o
  have hstopped : ∀ (b : Cape σ) r stopped, SameRecords b (b.setStopped r stopped) :=
    fun b r stopped => .modifyResource b r fun _ => rfl
  cases h with
  | offline hstate hok =>
      refine Or.inr ⟨hstate, (reported_of_completed hok).congr rfl ?_⟩
      split
      · exact hstopped _ _ _
      · rfl
  | foreign => exact Or.inl ⟨rfl, (hfound _).trans (hsettle _ _)⟩
  | monitored => exact Or.inl ⟨rfl, ((hfound _).trans (hstopped _ _ _)).trans (hsettle _ _)⟩
  | @monitor r =>
      have hstarted : SameRecords ((c.setResource o (some r)).setStopped r false)
          (((c.setResource o (some r)).setStopped r false).modifyResource r
            ({ · with monitorOp := some o })) := .modifyResource _ r fun _ => rfl
      exact Or.inl ⟨rfl, ((hfound (some r)).trans (hstopped _ r false)).trans hstarted⟩
  | probe | start => exact Or.inl ⟨rfl, rfl⟩
  | @stop r =>
      have hstop := (hfound (some r)).trans (SameRecords.unwinding.stopMonitor _ r)
      exact Or.inl ⟨rfl, (hstop.trans rfl).trans (hstopped _ r true)⟩
  | delete =>
      exact Or.inl ⟨rfl, ((hfound _).trans
        (SameRecords.unwinding.clearHistory (fun _ _ => rfl) _ _)).trans (hsettle _ _)⟩

omit [Stopwatch σ] in
theorem Reported.failed {op : PeOperation} {r : ResourceId} (h : Reported d op ec c c')
    (hfailed : c'.records r = .failed) :
    c.records r = .failed ∨ op.method = .monitor ∧ 0 < op.interval ∧ op.target = r := by
  cases h with
  | kept hstate h => exact Or.inl (congrFun h r ▸ hfailed)
  | @set r' state hstate hr h =>
      rw [h] at hfailed
      by_cases hrr : r = r'
      · subst hrr
        rw [Function.update_self] at hfailed
        subst hfailed
        obtain ⟨hmethod, hinterval⟩ := recurring_of_failed hstate
        exact Or.inr ⟨hmethod, hinterval, (Deployable.resource?_eq_some hr).symm⟩
      · rw [Function.update_of_ne hrr] at hfailed
        exact Or.inl hfailed

end Cape

namespace World

variable {σ : Type} [Stopwatch σ] {d : Deployable} {w w' : World σ} {e : Event} {a : CString}
  {env : Env} {outputs : List Output} {asm : Assembly σ} {c : Cape σ}

theorem records_receive_quiet {c' : Cape σ} (hquiet : ∀ x ∈ outputs, x.Quiet)
    (h : outputs.foldlM (Cape.receive d a env) c = .ok c') : c.SameRecords c' := by
  induction outputs generalizing c with
  | nil =>
      cases h
      rfl
  | cons x outputs ih =>
      rw [List.foldlM_cons] at h
      rw [List.forall_mem_cons] at hquiet
      obtain ⟨mid, hx, hrest⟩ := bind_eq_ok.mp h
      refine Cape.SameRecords.trans ?_ (ih hquiet.2 hrest)
      cases x with
      | stateChanging | address =>
          cases hx
          rfl
      | restarted | actionCompleted => exact hquiet.1.elim

inductive Reports (w : World σ) : Event → PeOperation → Int → Prop where
  | completed {e : Event} {o : Nat} {sshRc : Int} (h : .actionCompleted o sshRc ∈ w.outputs e) :
      Reports w e (w.cape.ops o) ((w.cape.ops o).exitcode sshRc)
  | monitorTimer {handle o : Nat} {env : Env} (h : (handle, o) ∈ w.cape.monitorTimers) :
      Reports w (.monitorTimer handle env) (w.cape.ops o) ocfUnknownError
  | fire {graph : Nat} {spec : OpSpec} {env : Env} :
      Reports w (.fire (.rsc spec) env)
        ((execRscAction w.cape graph spec).ops w.cape.opCount) ocfUnknownError

theorem effect_reports (houtputs : w.outputs e = outputs)
    (heffect : (w.assemblies a).Effect asm outputs)
    (hcalls : outputs.foldlM (Cape.receive d a env) w.cape = .ok c) :
    w.cape.SameRecords c ∨ ∃ op ec, w.Reports e op ec ∧ Cape.Reported d op ec w.cape c := by
  cases heffect with
  | kept hquiet => exact Or.inl (records_receive_quiet hquiet hcalls)
  | @completed o sshRc =>
      have hdone : w.cape.resourceActionCompletion d env o sshRc = .ok c := by
        simpa [Cape.receive] using hcalls
      exact Or.inr ⟨_, _, .completed (by simp [houtputs]), Cape.reported_of_completion hdone⟩
  | restarted =>
      obtain rfl := Except.ok.inj hcalls
      exact Or.inl (Cape.SameRecords.nodeOpHistoryClear w.cape.scheduleProcessing a)

theorem step_reports (hsound : ∀ a, (w.assemblies a).Sound) (hstep : step d w e = .ok w') :
    w.cape.SameRecords w'.cape ∨
      ∃ op ec, w.Reports e op ec ∧ Cape.Reported d op ec w.cape w'.cape := by
  cases step_transition hsound hstep with
  | job hgraph hjob hreact hcalls =>
      obtain ⟨-, heffect⟩ := Assembly.reactJob_sound (hsound _) hjob hreact
      exact effect_reports (by simp [World.outputs, hreact]) heffect hcalls
  | timer hgraph htimer hreact hcalls =>
      obtain ⟨-, heffect | ⟨-, -, hquiet⟩⟩ := Assembly.reactTimer_sound (hsound _) htimer hreact
      · refine effect_reports ?_ heffect hcalls
        simp [World.outputs, find_timer (hsound _) htimer, hreact]
      · exact Or.inl (records_receive_quiet hquiet hcalls)
  | monitorOffline hgraph htimer hstate h =>
      exact Or.inr ⟨_, _, .monitorTimer htimer, (Cape.reported_of_completed h).congr rfl rfl⟩
  | monitorRequest => exact Or.inl rfl
  | processJob => exact Or.inl (.engine .processJob)
  | processNextJob hgraph hmem => exact Or.inl (.engine (.processNextJob hgraph hmem))
  | confirmed => exact Or.inl (.engine .confirmed)
  | fire hgraph h =>
      rcases Cape.reported_of_executed h with ⟨-, hsame⟩ | ⟨-, hreported⟩
      · exact Or.inl hsame
      · exact Or.inr ⟨_, _, .fire, hreported.congr rfl rfl⟩
  | returned hgraph hconfirmed => exact Or.inl (.engine (.returned hgraph hconfirmed))

end World

end PacemakerCloud

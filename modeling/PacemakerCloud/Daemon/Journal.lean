import PacemakerCloud.Daemon.LastWrite

/-!
# The journal of a run

What the events of a run write into the operation history, and drop from it, is a journal: a
completed operation is written under its key, the restart of a node drops the keys of its
resources, and a delete those of one resource.  The history that `process` reports to the policy
engine is the map that the journal describes.
-/

namespace PacemakerCloud

open Foundation

namespace Cape

variable {σ : Type} {c c' c'' : Cape σ} {o : Nat}

/-! ## Functions that leave the history alone -/

namespace Elsewhere

theorem of_same (hhistory : c'.history = c.history) (hcall : c'.callOrder = c.callOrder)
    (hcount : c'.opCount = c.opCount) (hdigestCount : c'.digestCount = c.digestCount)
    (hdigests : c'.digests = c.digests)
    (hops : ∀ o, (c'.ops o).opDigest = (c.ops o).opDigest) : Elsewhere c c' where
  history := hhistory
  callOrder := hcall
  opCount := hcount.ge
  digestCount := hdigestCount.ge
  digests _ _ := by rw [hdigests]
  opDigest o _ := hops o
  created o hold hnew := absurd hnew (Nat.not_lt.mpr (hcount.le.trans hold))

theorem refl (c : Cape σ) : Elsewhere c c :=
  of_same rfl rfl rfl rfl rfl fun _ => rfl

theorem trans (h : Elsewhere c c') (h' : Elsewhere c' c'') : Elsewhere c c'' where
  history := h'.history.trans h.history
  callOrder := h'.callOrder.trans h.callOrder
  opCount := h.opCount.trans h'.opCount
  digestCount := h.digestCount.trans h'.digestCount
  digests x hx := (h'.digests x (hx.trans_le h.digestCount)).trans (h.digests x hx)
  opDigest o ho := by
    have hmid : o < c'.opCount ∨ c''.opCount ≤ o :=
      ho.imp_left fun hlt => hlt.trans_le h.opCount
    rw [h'.opDigest o hmid, h.opDigest o (ho.imp_right h'.opCount.trans)]
  created o hold hnew := by
    by_cases hmid : o < c'.opCount
    · obtain ⟨hge, hlt⟩ := h.created o hold hmid
      rw [h'.opDigest o (Or.inl hmid)]
      exact ⟨hge, hlt.trans_le h'.digestCount⟩
    · obtain ⟨hge, hlt⟩ := h'.created o (Nat.le_of_not_lt hmid) hnew
      exact ⟨h.digestCount.trans hge, hlt⟩

theorem modifyOp (c : Cape σ) (o : Nat) {f : PeOperation → PeOperation}
    (hf : ∀ op, (f op).opDigest = op.opDigest) : Elsewhere c (c.modifyOp o f) := by
  refine of_same rfl rfl rfl rfl rfl fun x => ?_
  by_cases hx : x = o
  · subst hx
    simpa [Cape.modifyOp] using hf (c.ops x)
  · simp [Cape.modifyOp, Function.update_of_ne hx]

theorem setResource (c : Cape σ) (o : Nat) (r : Option ResourceId) :
    Elsewhere c (c.setResource o r) :=
  modifyOp c o fun _ => rfl

theorem hand (c : Cape σ) (o : Nat) : Elsewhere c (c.hand o) := by
  have href : Elsewhere c (c.peResourceRef o) := modifyOp c o fun _ => rfl
  exact href.trans (of_same rfl rfl rfl rfl rfl fun _ => rfl)

theorem setStopped (c : Cape σ) (r : ResourceId) (stopped : Bool) :
    Elsewhere c (c.setStopped r stopped) :=
  of_same rfl rfl rfl rfl rfl fun _ => rfl

theorem startMonitor (c : Cape σ) (r : ResourceId) (o : Nat) :
    Elsewhere c (c.startMonitor r o) := by
  have href : Elsewhere c ((c.setStopped r false).peResourceRef o) :=
    (setStopped c r false).trans (modifyOp _ o fun _ => rfl)
  exact href.trans (of_same rfl rfl rfl rfl rfl fun _ => rfl)

theorem confirmFirst (c : Cape σ) (o : Nat) (ec : Int) :
    Elsewhere c (c.confirmFirst o ec) := by
  unfold Cape.confirmFirst
  split
  · exact of_same rfl rfl rfl rfl rfl fun _ => rfl
  · exact refl c

theorem resourceCallback (env : Env) (r : ResourceId) (c : Cape σ) (call : RecoverCall) :
    Elsewhere c (c.resourceCallback env r call) := by
  cases call <;> exact of_same rfl rfl rfl rfl rfl fun _ => rfl

theorem resourceStateSet [Stopwatch σ] {env : Env} {r : Option ResourceId} {op : PeOperation}
    {ec : Int} (h : c.resourceStateSet env r op ec = .ok c') : Elsewhere c c' := by
  unfold Cape.resourceStateSet at h
  split at h
  · rw [← Except.ok.inj h]
    exact refl c
  · obtain ⟨r, -, heq⟩ := bind_eq_ok.mp h
    rw [← Except.ok.inj heq]
    have hset : ∀ recover, Elsewhere c (c.modifyResource r ({ · with recover := recover })) :=
      fun _ => of_same rfl rfl rfl rfl rfl fun _ => rfl
    exact (hset _).trans (foldl_rel refl trans (resourceCallback env r) _ _)

theorem engine (h : World.Engine c c') : Elsewhere c c' := by
  cases h with
  | processJob =>
      simp only [World.processJob]
      split <;> exact of_same rfl rfl rfl rfl rfl fun _ => rfl
  | processNextJob =>
      simp only [World.processNextJob]
      split <;> exact of_same rfl rfl rfl rfl rfl fun _ => rfl
  | confirmed => exact of_same rfl rfl rfl rfl rfl fun _ => rfl
  | @returned graph status =>
      cases status <;> exact of_same rfl rfl rfl rfl rfl fun _ => rfl

end Elsewhere

/-! ## Names of operations -/

structure SameKeys (c c' : Cape σ) : Prop where
  opCount : c.opCount ≤ c'.opCount
  target : ∀ o < c.opCount, (c'.ops o).target = (c.ops o).target
  key : ∀ o < c.opCount, opHistoryKey (c'.ops o) = opHistoryKey (c.ops o)

namespace SameKeys

theorem trans (h : SameKeys c c') (h' : SameKeys c' c'') : SameKeys c c'' where
  opCount := h.opCount.trans h'.opCount
  target o ho := (h'.target o (ho.trans_le h.opCount)).trans (h.target o ho)
  key o ho := (h'.key o (ho.trans_le h.opCount)).trans (h.key o ho)

theorem of_core (hcount : c.opCount ≤ c'.opCount)
    (h : ∀ o < c.opCount, (c'.ops o).core = (c.ops o).core) : SameKeys c c' where
  opCount := hcount
  target o ho := congrArg (fun op => op.target) (h o ho)
  key o ho := by
    have hcore : ∀ op : PeOperation, opHistoryKey op.core = opHistoryKey op := fun _ => rfl
    rw [← hcore, h o ho, hcore]

theorem of_ops (hcount : c.opCount ≤ c'.opCount) (h : ∀ o < c.opCount, c'.ops o = c.ops o) :
    SameKeys c c' :=
  of_core hcount fun o ho => by rw [h o ho]

theorem execute (c : Cape σ) (o : Nat) (ec : Int) : SameKeys c (c.execute o ec) where
  opCount := by simp
  target x _ := by by_cases hx : x = o <;> simp [hx, PeOperation.target]
  key x _ := by by_cases hx : x = o <;> simp [hx, opHistoryKey]

end SameKeys

end Cape

namespace Ledger

variable {σ : Type} {l l' : Ledger σ} {lost : Nat → Prop}

theorem Move.sameKeys (h : Move lost l l') : l.cape.SameKeys l'.cape := by
  cases h with
  | quiet hquiet => exact .of_core hquiet.opCount.ge fun o _ => hquiet.core o
  | lose | done | arm | settle => exact .of_ops le_rfl fun _ _ => rfl
  | execute => exact .execute _ _ _
  | @hand o =>
      exact .of_core le_rfl fun x _ => (Cape.Quiet.peResourceRef l.cape o).core x
  | create =>
      exact .of_ops (Nat.le_succ _) fun o ho => Function.update_of_ne (Nat.ne_of_lt ho) _ _
  | engine hengine => exact .of_ops hengine.same.1.opCount.ge fun o _ => by rw [hengine.same.1.ops]

theorem Moves.sameKeys (h : Moves lost l l') : l.cape.SameKeys l'.cape := by
  induction h with
  | refl => exact .of_ops le_rfl fun _ _ => rfl
  | tail _ hmove ih => exact ih.trans hmove.sameKeys

end Ledger

namespace Cape

variable {σ : Type} {c c' : Cape σ} {o : Nat} {ec : Int} {env : Env} {d : Deployable}
  {owner : CString → ResourceId} {log : List (LogEvent CString SavedResult)}

def KeyedBy (d : Deployable) (owner : CString → ResourceId) (c : Cape σ) : Prop :=
  ∀ o < c.opCount, ∀ r ∈ d.resource? (c.ops o).hostname (c.ops o).rname,
    owner (opHistoryKey (c.ops o)) = r

instance (d : Deployable) (owner : CString → ResourceId) (c : Cape σ) :
    Decidable (c.KeyedBy d owner) :=
  inferInstanceAs (Decidable (∀ o < c.opCount, ∀ r ∈ d.resource? _ _, _))

theorem KeyedBy.of_sameKeys (h : c'.KeyedBy d owner) (hkeys : SameKeys c c') :
    c.KeyedBy d owner := by
  intro o ho r hr
  have htarget := hkeys.target o ho
  simp only [PeOperation.target, ResourceId.mk.injEq] at htarget
  rw [← hkeys.key o ho]
  refine h o (ho.trans_le hkeys.opCount) r ?_
  rwa [htarget.1, htarget.2]

/-! ## Completing operations -/

def recorded (c : Cape σ) (now o : Nat) (ec : Int) : List (LogEvent CString SavedResult) :=
  if strstr (c.ops o).rname (c.ops o).hostname then
    [.write (opHistoryKey (c.ops o)) (c.savedResult now o ec)]
  else []

/-- The result is not the one that a new entry starts with. -/
def NotPending : LogEvent CString SavedResult → Prop
  | .write _ saved => saved.rc ≠ ocfPending
  | .drop _ => True

instance : DecidablePred NotPending
  | .write _ _ => inferInstanceAs (Decidable (_ ≠ _))
  | .drop _ => .isTrue trivial

theorem notPending_recorded (c : Cape σ) (now o : Nat) (hec : ec ≠ ocfPending) :
    ∀ x ∈ c.recorded now o ec, NotPending x := by
  unfold recorded
  split
  · exact List.forall_mem_singleton.mpr hec
  · exact List.forall_mem_nil _

theorem recorded_reverse (c : Cape σ) (now o : Nat) (ec : Int) :
    (c.recorded now o ec).reverse = c.recorded now o ec := by
  unfold recorded
  split <;> rfl

theorem sameDigest_timesExecutedAdd (h : c.SameDigest o) : (c.timesExecutedAdd o).SameDigest o := by
  simpa [SameDigest, findEntry, timesExecutedAdd, modifyOp, opHistoryKey] using h

theorem recorded_timesExecutedAdd (c : Cape σ) (now o : Nat) (ec : Int) :
    (c.timesExecutedAdd o).recorded now o ec = c.recorded now o ec := by
  simp [recorded, savedResult, timesExecutedAdd, modifyOp, opHistoryKey]

namespace Logs

theorem opHistoryRecord {r : Option ResourceId} (h : Logs owner c log) (ho : o < c.opCount)
    (hec : ∀ x ∈ c.recorded env.now o ec, NotPending x)
    (hr : ∀ x ∈ r, owner (opHistoryKey (c.ops o)) = x) (hsame : c.SameDigest o)
    (hok : c.opHistoryRecord env r o ec = .ok c') :
    Logs owner c' (c.recorded env.now o ec ++ log) := by
  unfold Cape.opHistoryRecord at hok
  unfold recorded
  split at hok
  case isFalse hname =>
    rw [if_neg hname, ← Except.ok.inj hok]
    exact h
  case isTrue hname =>
    obtain ⟨x, hfound, heq⟩ := bind_eq_ok.mp hok
    rw [if_pos hname, ← Except.ok.inj heq]
    obtain ⟨oh, hsaves⟩ := exists_saves c env.now x o ec
    have hrc : ec ≠ ocfPending := by
      rw [recorded, if_pos hname] at hec
      exact hec _ List.mem_cons_self
    refine h.saves hsaves ho hrc ?_ hsame
    cases r with
    | none => cases hfound
    | some r =>
        cases hfound
        exact (hr _ rfl).symm

variable [Stopwatch σ]

theorem resourceActionCompleted (h : Logs owner c log) (ho : o < c.opCount)
    (hec : ∀ x ∈ c.recorded env.now o ec, NotPending x)
    (hr : ∀ r ∈ d.resource? (c.ops o).hostname (c.ops o).rname,
      owner (opHistoryKey (c.ops o)) = r) (hsame : c.SameDigest o)
    (hok : c.resourceActionCompleted d env o ec = .ok c') :
    Logs owner c' (c.recorded env.now o ec ++ log) := by
  simp only [Cape.resourceActionCompleted] at hok
  split at hok
  · cases hok
  obtain ⟨c₁, hrecord, hok⟩ := bind_eq_ok.mp hok
  obtain ⟨c₂, hset, hrelease⟩ := bind_eq_ok.mp hok
  have hadded : Logs owner (c.timesExecutedAdd o) log := h.elsewhere (.modifyOp c o fun _ => rfl)
  have hkey : opHistoryKey ((c.timesExecutedAdd o).ops o) = opHistoryKey (c.ops o) := by
    simp [timesExecutedAdd, Cape.modifyOp, opHistoryKey]
  rw [← recorded_timesExecutedAdd] at hec ⊢
  have hrecorded := hadded.opHistoryRecord ho hec (by rwa [hkey])
    (sameDigest_timesExecutedAdd hsame) hrecord
  have hstate := hrecorded.elsewhere
    ((Elsewhere.confirmFirst c₁ o ec).trans (.resourceStateSet hset))
  have hscheduled : Logs owner
      (if (c.ops o).Unexpected ec then c₂.scheduleProcessing else c₂)
      ((c.timesExecutedAdd o).recorded env.now o ec ++ log) := by
    split
    · exact hstate.elsewhere (.of_same rfl rfl rfl rfl rfl fun _ => rfl)
    · exact hstate
  rcases resourceActionRelease_ok hrelease with ⟨-, rfl⟩ | ⟨r, -, -, rfl⟩
  · exact hscheduled.unref (.peResourceUnref _ o)
  · exact hscheduled.elsewhere (.of_same rfl rfl rfl rfl rfl fun _ => rfl)

theorem resourceActionCompletion {sshRc : Int} (h : Logs owner c log) (ho : o < c.opCount)
    (hec : ∀ x ∈ c.recorded env.now o ((c.ops o).exitcode sshRc), NotPending x)
    (hr : ∀ r ∈ d.resource? (c.ops o).hostname (c.ops o).rname,
      owner (opHistoryKey (c.ops o)) = r) (hsame : c.SameDigest o)
    (hok : c.resourceActionCompletion d env o sshRc = .ok c') :
    Logs owner c' (c.recorded env.now o ((c.ops o).exitcode sshRc) ++ log) := by
  obtain ⟨mid, hmid, heq⟩ := bind_eq_ok.mp hok
  rw [← Except.ok.inj heq]
  exact (h.resourceActionCompleted ho hec hr hsame hmid).unref (.peResourceUnref mid o)

theorem executed {state : RecoverState} {queued : Bool} (h : Logs owner c log)
    (ho : o < c.opCount)
    (hr : ∀ r ∈ d.resource? (c.ops o).hostname (c.ops o).rname,
      owner (opHistoryKey (c.ops o)) = r)
    (hsame : state ≠ .running → c.SameDigest o) (hexec : c.Executed d env o state c' queued) :
    Logs owner c' ((if state ≠ .running then c.recorded env.now o ocfUnknownError
      else if (c.ops o).method = .delete then
        [.drop fun key => some (owner key) = d.resource? (c.ops o).hostname (c.ops o).rname]
      else []) ++ log) := by
  have hset : ∀ r, Logs owner (c.setResource o r) log := fun r => h.elsewhere (.setResource c o r)
  have hsettle : ∀ {b : Cape σ} (returnCode : Int), Logs owner b log →
      Logs owner (b.settle o returnCode) log := by
    intro b returnCode hb
    have hcompleted : Elsewhere b (b.peResourceCompleted o returnCode) :=
      .of_same rfl rfl rfl rfl rfl fun _ => rfl
    exact (hb.elsewhere hcompleted).unref (.peResourceUnref _ o)
  have hstopped : ∀ {b : Cape σ} {log} (r : ResourceId) (stopped : Bool), Logs owner b log →
      Logs owner (b.setStopped r stopped) log :=
    fun r stopped hb => hb.elsewhere (.setStopped _ r stopped)
  cases hexec with
  | offline hstate hok =>
      have hdone := h.resourceActionCompleted ho (notPending_recorded c _ o (by decide)) hr
        (hsame hstate) hok
      rw [if_pos hstate]
      split
      · exact hstopped _ _ hdone
      · exact hdone
  | foreign hmethod => simpa [hmethod] using hsettle _ (hset _)
  | monitored hmethod => simpa [hmethod] using hsettle _ (hstopped _ _ (hset _))
  | monitor hmethod =>
      simpa [hmethod] using ((hset _).elsewhere (.startMonitor _ _ o)).elsewhere (.hand _ o)
  | probe hmethod => simpa [hmethod] using (hset _).elsewhere (.hand _ o)
  | start hmethod => simpa [hmethod] using (hset _).elsewhere (.hand _ o)
  | @stop r hmethod =>
      have hstop := (hset (some r)).unref (Clears.unwinding.stopMonitor _ r)
      simpa [hmethod] using hstopped r true (hstop.elsewhere (.hand _ o))
  | delete hmethod =>
      generalize hresource : d.resource? (c.ops o).hostname (c.ops o).rname = resource
      have hop : ((c.setResource o resource).ops o).resource = resource := by
        simp [Cape.setResource, Cape.modifyOp]
      have hclears := Clears.opHistoryDelete (c.setResource o resource) o
      rw [hop] at hclears
      simpa [hmethod] using (hset resource).clears (fun r => some r = resource) hclears

end Logs

end Cape

namespace World

variable {σ : Type} [Stopwatch σ]

/-! ## The daemon -/

def journalOf (owner : CString → ResourceId) (c : Cape σ) (a : CString) (env : Env) :
    Output → List (LogEvent CString SavedResult)
  | .restarted => [.drop fun key => (owner key).assembly = a]
  | .actionCompleted o sshRc => c.recorded env.now o ((c.ops o).exitcode sshRc)
  | .stateChanging | .address _ => []

def journal (d : Deployable) (owner : CString → ResourceId) (w : World σ) (e : Event) :
    List (LogEvent CString SavedResult) :=
  match e with
  | .job a _ env | .timer a _ env => (w.outputs e).flatMap (journalOf owner w.cape a env)
  | .monitorTimer handle env =>
      match w.cape.monitorTimers.find? (·.1 = handle) with
      | none => []
      | some (_, o) =>
          if (w.assemblies (w.cape.ops o).hostname).recover.state ≠ .running then
            w.cape.recorded env.now o ocfUnknownError
          else []
  | .fire (.rsc spec) env =>
      if (w.assemblies spec.hostname).recover.state ≠ .running then
        (execRscAction w.cape (w.cape.pe.inRunGraph.getD 0) spec).recorded env.now
          w.cape.opCount ocfUnknownError
      else if spec.method = .delete then
        [.drop fun key => some (owner key) = d.resource? spec.hostname spec.rname]
      else []
  | .fire .confirmed _ | .processJob | .processNextJob _ | .runGraphReturn _ => []

/-- A result that is saved now has the digest of its key. -/
def CompletesSameDigest (c : Cape σ) : Output → Prop
  | .actionCompleted o _ => c.SameDigest o
  | _ => True

instance (c : Cape σ) : DecidablePred (CompletesSameDigest c)
  | .actionCompleted o _ => inferInstanceAs (Decidable (c.SameDigest o))
  | .stateChanging | .restarted | .address _ => .isTrue trivial

def SavesSameDigest (w : World σ) (e : Event) : Prop :=
  (∀ x ∈ w.outputs e, CompletesSameDigest w.cape x) ∧
    match e with
    | .monitorTimer handle _ => ∀ x ∈ w.cape.monitorTimers, x.1 = handle →
        (w.assemblies (w.cape.ops x.2).hostname).recover.state ≠ .running →
          w.cape.SameDigest x.2
    | .fire (.rsc spec) _ => (w.assemblies spec.hostname).recover.state ≠ .running →
        (execRscAction w.cape (w.cape.pe.inRunGraph.getD 0) spec).SameDigest w.cape.opCount
    | _ => True

instance (w : World σ) : ∀ e, Decidable (SavesSameDigest w e)
  | .monitorTimer _ _ => inferInstanceAs (Decidable (_ ∧ ∀ x ∈ _, _ → _ → _))
  | .fire (.rsc _) _ => inferInstanceAs (Decidable (_ ∧ (_ → _)))
  | .fire .confirmed _ | .job _ _ _ | .timer _ _ _ | .processJob | .processNextJob _
  | .runGraphReturn _ => inferInstanceAs (Decidable (_ ∧ True))

variable {d : Deployable} {w w' : World σ} {e : Event} {owner : CString → ResourceId}
  {log : List (LogEvent CString SavedResult)} {a : CString} {env : Env} {outputs : List Output}
  {c : Cape σ}

theorem logs_receive_quiet {c' : Cape σ} (hlogs : c.Logs owner log)
    (hquiet : ∀ x ∈ outputs, x.Quiet)
    (hcalls : outputs.foldlM (Cape.receive d a env) c = .ok c') : c'.Logs owner log := by
  induction outputs generalizing c with
  | nil =>
      cases hcalls
      exact hlogs
  | cons x outputs ih =>
      rw [List.foldlM_cons] at hcalls
      obtain ⟨mid, hx, hrest⟩ := bind_eq_ok.mp hcalls
      refine ih ?_ (fun y hy => hquiet y (List.mem_cons_of_mem x hy)) hrest
      cases x with
      | stateChanging | address =>
          cases hx
          exact hlogs.elsewhere (.of_same rfl rfl rfl rfl rfl fun _ => rfl)
      | restarted => exact (hquiet _ List.mem_cons_self).elim
      | actionCompleted o sshRc => exact (hquiet _ List.mem_cons_self).elim

omit [Stopwatch σ] in
theorem journalOf_quiet (hquiet : ∀ x ∈ outputs, x.Quiet) :
    outputs.flatMap (journalOf owner c a env) = [] := by
  refine List.flatMap_eq_nil_iff.mpr fun x hx => ?_
  cases x with
  | stateChanging | address => rfl
  | restarted => exact (hquiet _ hx).elim
  | actionCompleted o sshRc => exact (hquiet _ hx).elim

theorem logs_effect {asm : Assembly σ} (haccounted : w.ledger.Accounted)
    (hlogs : w.cape.Logs owner log) (hkeyed : w.cape.KeyedBy d owner)
    (heffect : (w.assemblies a).Effect asm outputs)
    (hpending : ∀ x ∈ outputs.flatMap (journalOf owner w.cape a env), Cape.NotPending x)
    (hsame : ∀ x ∈ outputs, CompletesSameDigest w.cape x)
    (hcalls : outputs.foldlM (Cape.receive d a env) w.cape = .ok c) :
    c.Logs owner ((outputs.flatMap (journalOf owner w.cape a env)).reverse ++ log) := by
  cases heffect with
  | kept hquiet =>
      rw [journalOf_quiet hquiet]
      exact logs_receive_quiet hlogs hquiet hcalls
  | @completed o sshRc hactions =>
      have hmem : o ∈ w.actions a := by simp [actions, hactions]
      have hlt : o < w.cape.opCount := (haccounted.queued hmem).1
      have hdone : w.cape.resourceActionCompletion d env o sshRc = .ok c := by
        simpa [Cape.receive] using hcalls
      simp only [List.flatMap_singleton, journalOf] at hpending ⊢
      rw [Cape.recorded_reverse]
      exact hlogs.resourceActionCompletion hlt hpending (hkeyed o hlt)
        (hsame _ List.mem_cons_self) hdone
  | restarted hactions =>
      obtain rfl := Except.ok.inj hcalls
      have hscheduled : w.cape.scheduleProcessing.Logs owner log :=
        hlogs.elsewhere (.of_same rfl rfl rfl rfl rfl fun _ => rfl)
      have hcleared := hscheduled.clears (fun r => r.assembly = a) (.nodeOpHistoryClear _ a)
      exact hcleared.elsewhere (.of_same rfl rfl rfl rfl rfl fun _ => rfl)

theorem sameKeys_fired {graph : Nat} {spec : OpSpec} {state : RecoverState} {queued : Bool}
    (haccounted : w.ledger.Accounted)
    (hexec : (execRscAction w.cape graph spec).Executed d env w.cape.opCount state c queued) :
    (execRscAction w.cape graph spec).SameKeys c := by
  have hcalled : ¬ Ledger.Called ⟨execRscAction w.cape graph spec, w.actions⟩ w.cape.opCount := by
    rintro ⟨e, he, heq⟩
    exact (haccounted.completed e he).ne heq
  have hcarried : ¬ Ledger.Carried ⟨execRscAction w.cape graph spec, w.actions⟩
      w.cape.opCount := by
    rintro (⟨a, ha⟩ | ⟨x, hx, heq⟩)
    · exact (haccounted.queued ha).1.ne rfl
    · exact (haccounted.armed x hx).ne heq
  have hmoves : Ledger.Moves (fun _ => False) ⟨execRscAction w.cape graph spec, w.actions⟩ _ :=
    Ledger.moves_executed (Nat.lt_succ_self _) hcalled hcarried hexec
  exact hmoves.sameKeys

theorem step_monitorTimer {handle : Nat} (hsound : ∀ a, (w.assemblies a).Sound)
    (hstep : step d w (.monitorTimer handle env) = .ok w') :
    ∃ o, w.cape.monitorTimers.find? (·.1 = handle) = some (handle, o) ∧
      ((w.assemblies (w.cape.ops o).hostname).recover.state ≠ .running ∧
          (w.cape.timerDel handle).resourceActionCompleted d env o ocfUnknownError =
            .ok w'.cape ∨
        (w.assemblies (w.cape.ops o).hostname).recover.state = .running ∧
          w'.cape = (w.cape.timerDel handle).hand o) := by
  unfold step at hstep
  split at hstep
  case h_2 => cases hstep
  simp only [dispatch, Transport.dispatch] at hstep
  split at hstep
  case h_2 => cases hstep
  case h_1 handle' o hfind =>
    obtain rfl : handle' = handle := by simpa using List.find?_some hfind
    rw [ofFault_eq_ok] at hstep
    refine ⟨o, hfind, ?_⟩
    by_cases hrunning : (w.assemblies (w.cape.ops o).hostname).recover.state = .running
    · have hw := resourceMonitorExecute_ok hstep rfl (hsound _) hrunning
      exact Or.inr ⟨hrunning, congrArg World.cape hw⟩
    · obtain ⟨c, hc, hw⟩ := resourceMonitorExecute_offline hstep hrunning
      exact Or.inl ⟨hrunning, by rw [hw]; exact hc⟩

theorem logs_monitorTimer {handle : Nat} (hstep : step d w (.monitorTimer handle env) = .ok w')
    (hsound : ∀ a, (w.assemblies a).Sound) (haccounted : w.ledger.Accounted)
    (hlogs : w.cape.Logs owner log) (hkeyed : w.cape.KeyedBy d owner)
    (hpending : ∀ x ∈ w.journal d owner (.monitorTimer handle env), Cape.NotPending x)
    (hsame : w.SavesSameDigest (.monitorTimer handle env)) :
    w'.cape.Logs owner ((w.journal d owner (.monitorTimer handle env)).reverse ++ log) := by
  obtain ⟨o, hfind, hcape⟩ := step_monitorTimer hsound hstep
  have hlt : o < w.cape.opCount := haccounted.armed _ (List.mem_of_find?_eq_some hfind)
  have hdeleted : (w.cape.timerDel handle).Logs owner log :=
    hlogs.elsewhere (.of_same rfl rfl rfl rfl rfl fun _ => rfl)
  simp only [journal, hfind] at hpending ⊢
  rcases hcape with ⟨hstate, hok⟩ | ⟨hstate, hhand⟩
  · rw [if_pos hstate] at hpending ⊢
    rw [Cape.recorded_reverse]
    exact hdeleted.resourceActionCompleted hlt hpending (hkeyed o hlt)
      (hsame.2 _ (List.mem_of_find?_eq_some hfind) rfl hstate) hok
  · rw [if_neg (not_not.mpr hstate), hhand]
    exact hdeleted.elsewhere (.hand _ o)

theorem journal_fire_reverse (spec : OpSpec) :
    (w.journal d owner (.fire (.rsc spec) env)).reverse =
      w.journal d owner (.fire (.rsc spec) env) := by
  simp only [journal]
  split
  · exact Cape.recorded_reverse _ _ _ _
  · split <;> rfl

theorem logs_fire {graph : Nat} {spec : OpSpec} {c : Cape σ} {queued : Bool}
    (haccounted : w.ledger.Accounted) (hlogs : w.cape.Logs owner log)
    (hkeyed : c.KeyedBy d owner) (hgraph : w.cape.pe.inRunGraph = some graph)
    (hsame : w.SavesSameDigest (.fire (.rsc spec) env))
    (hexec : (execRscAction w.cape graph spec).Executed d env w.cape.opCount
      (w.assemblies spec.hostname).recover.state c queued) :
    c.Logs owner ((w.journal d owner (.fire (.rsc spec) env)).reverse ++ log) := by
  have hcreated := hlogs.elsewhere (.execRscAction w.cape graph spec)
  have hfired := hkeyed.of_sameKeys (sameKeys_fired haccounted hexec)
  have hsaved : (w.assemblies spec.hostname).recover.state ≠ .running →
      (execRscAction w.cape graph spec).SameDigest w.cape.opCount := by
    simpa only [hgraph, Option.getD_some] using hsame.2
  have hdone := hcreated.executed (Nat.lt_succ_self _) (hfired _ (Nat.lt_succ_self _)) hsaved
    hexec
  have hop : ((execRscAction w.cape graph spec).ops w.cape.opCount).hostname = spec.hostname ∧
      ((execRscAction w.cape graph spec).ops w.cape.opCount).rname = spec.rname ∧
      ((execRscAction w.cape graph spec).ops w.cape.opCount).method = spec.method := by
    simp [execRscAction]
  rw [hop.1, hop.2.1, hop.2.2] at hdone
  rw [journal_fire_reverse]
  simpa only [journal, hgraph, Option.getD_some] using hdone

theorem step_logs (hstep : step d w e = .ok w') (hsound : ∀ a, (w.assemblies a).Sound)
    (haccounted : w.ledger.Accounted) (hlogs : w.cape.Logs owner log)
    (hkeyed : w'.cape.KeyedBy d owner) (hpending : ∀ x ∈ w.journal d owner e, Cape.NotPending x)
    (hsame : w.SavesSameDigest e) :
    w'.cape.Logs owner ((w.journal d owner e).reverse ++ log) := by
  have h := step_transition hsound hstep
  have hbefore : w.cape.KeyedBy d owner :=
    hkeyed.of_sameKeys (Ledger.moves_change haccounted (h.change hsound)).sameKeys
  have hengine : ∀ {c : Cape σ}, Engine w.cape c → c.Logs owner log :=
    fun hc => hlogs.elsewhere (.engine hc)
  cases h with
  | @job a job env asm outputs c hgraph hjob hreact hcalls =>
      obtain ⟨-, heffect⟩ := Assembly.reactJob_sound (hsound _) hjob hreact
      have houtputs : w.outputs (.job a job env) = outputs := by simp [World.outputs, hreact]
      have hsaved := hsame.1
      rw [houtputs] at hsaved
      simp only [journal, houtputs] at hpending ⊢
      exact logs_effect haccounted hlogs hbefore heffect hpending hsaved hcalls
  | @timer a handle timer env asm outputs c hgraph htimer hreact hcalls =>
      have hfind := find_timer (hsound _) htimer
      have houtputs : w.outputs (.timer a handle env) = outputs := by
        simp [World.outputs, hfind, hreact]
      have hsaved := hsame.1
      rw [houtputs] at hsaved
      simp only [journal, houtputs] at hpending ⊢
      obtain ⟨-, heffect | ⟨-, -, hquiet⟩⟩ := Assembly.reactTimer_sound (hsound _) htimer hreact
      · exact logs_effect haccounted hlogs hbefore heffect hpending hsaved hcalls
      · rw [journalOf_quiet hquiet]
        exact logs_receive_quiet hlogs hquiet hcalls
  | monitorOffline | monitorRequest =>
      exact logs_monitorTimer hstep hsound haccounted hlogs hbefore hpending hsame
  | processJob hgraph hpos => exact hengine .processJob
  | processNextJob hgraph hmem => exact hengine (.processNextJob hgraph hmem)
  | confirmed hgraph => exact hengine .confirmed
  | @fire graph spec env c queued command hgraph hexec =>
      exact logs_fire haccounted hlogs hkeyed hgraph hsame hexec
  | returned hgraph hconfirmed => exact hengine (.returned hgraph hconfirmed)

/--
In every run in which the digest under a key stays, the operation history is the map that the
journal of the run describes: an entry shows the latest result of its operation since the node
was last restarted or the resource was deleted, and since when the results have been the same.
-/
theorem history_follows_journal {errno : ResourceId → Int} {answers : CString → Env}
    {events : List Event} (h : Reaches d errno answers events w)
    (hsame : Along (step d) SavesSameDigest (load (σ := σ) d errno answers) events)
    (hkeyed : w.cape.KeyedBy d owner)
    (hpending : ∀ x ∈ trace (step d) (journal d owner) (load (σ := σ) d errno answers) events,
      Cape.NotPending x) :
    w.cape.LastWriteWins owner
      (trace (step d) (journal d owner) (load (σ := σ) d errno answers) events).reverse := by
  have hinit : (load d errno answers : World σ).cape.Logs owner (List.reverse []) :=
    (load_fresh d errno answers).logs
  obtain ⟨-, -, hlogs⟩ := run_trace_along (I := fun w ms => (∀ a, (w.assemblies a).Sound) ∧
      w.ledger.Accounted ∧ (w.cape.KeyedBy d owner → (∀ x ∈ ms, Cape.NotPending x) →
        w.cape.Logs owner ms.reverse)) (journal d owner)
    (fun {w e w' ms} ⟨hsound, haccounted, hlogs⟩ hsame hstep => by
      have hmoves := Ledger.moves_change haccounted (step_change hsound hstep)
      refine ⟨step_sound hsound hstep, hmoves.accounted haccounted, fun hkeyed hpending => ?_⟩
      obtain ⟨hold, hnew⟩ := List.forall_mem_append.mp hpending
      have hbefore := hlogs (hkeyed.of_sameKeys hmoves.sameKeys) hold
      rw [List.reverse_append]
      exact step_logs hstep hsound haccounted hbefore hkeyed hnew hsame)
    ⟨load_sound d errno answers, load_accounted d errno answers, fun _ _ => hinit⟩ hsame h
  exact (hlogs hkeyed hpending).lastWriteWins

/-- The probe and the first two results of the monitor, of which the entry shows the second. -/
theorem history_follows_journal_monitoring :
    ∃ w, BarReaches (monitoring ++
        [.monitorTimer 1 workingEnv, .job bar (.assemblySshExec 3) workingEnv]) w ∧
      w.cape.history.map (·.callId) = [0, 2] ∧
      w.cape.LastWriteWins (fun key => ⟨bar, rnameOf key⟩)
        (trace (step barDeployable) (journal barDeployable fun key => ⟨bar, rnameOf key⟩)
          (load (σ := Ring) barDeployable (fun _ => 0) fun _ => workingEnv) (monitoring ++
            [.monitorTimer 1 workingEnv, .job bar (.assemblySshExec 3) workingEnv])).reverse := by
  obtain ⟨w, hreach, hcalls, hkeyed⟩ :
      ∃ w, BarReaches (monitoring ++
          [.monitorTimer 1 workingEnv, .job bar (.assemblySshExec 3) workingEnv]) w ∧
        w.cape.history.map (·.callId) = [0, 2] ∧
        w.cape.KeyedBy barDeployable fun key => ⟨bar, rnameOf key⟩ :=
    exists_reaches (by decide +kernel)
  exact ⟨w, hreach, hcalls,
    history_follows_journal hreach (by decide +kernel) hkeyed (by decide +kernel)⟩

end World

end PacemakerCloud

import PacemakerCloud.Qmf.Requests

/-!
# Agents of the console

What an agent keeps: a table of the calls that wait for an answer, and the list of the
objects that were ever added to it.  An answer with an unknown correlator adds a null pointer
to the table, a second flush of the pending jobs a request that may be gone.  When an agent is
lost, all objects on its list are disconnected, also those that have found another agent since.
-/

namespace PacemakerCloud

open Foundation

namespace Qmf

variable {q q' : Qmf} {o : ObjectId} {i r cid : Nat} {name : CString} {events : List Event}

/-! ## Outstanding calls -/

def SentTo (q : Qmf) (i cid r : Nat) : Prop :=
  ∃ call, .call call ∈ q.traffic ∧ call.agent = i ∧ call.cid = cid ∧ call.request = r

/-- Every entry of a table is a request that was sent, not answered since and not deleted. -/
def OutstandingSent (q : Qmf) : Prop :=
  ∀ i, ∀ entry ∈ (q.agents i).outstandingCalls,
    ∃ r, entry.2 = some r ∧ q.SentTo i entry.1 r ∧ r ∉ q.answered ∧
      (q.requests r).deleted = false

/-- A response or an exception belongs to a call of its agent, and jobs are flushed once. -/
def AnswersKnown (q : Qmf) : Event → Prop
  | .answer name cid _ => ∀ i ∈ q.names name,
      ∃ entry ∈ (q.agents i).outstandingCalls, entry.1 = cid
  | .runPendingCalls position _ => ∀ o ∈ q.jobs[position]?, ∀ r ∈ (q.objects o).pendingJobs,
      (q.requests r).state = .scheduled
  | _ => True

instance decidableAnswersKnown (q : Qmf) : ∀ e, Decidable (q.AnswersKnown e)
  | .answer _ _ _ => inferInstanceAs (Decidable (∀ i ∈ _, ∃ entry ∈ _, _))
  | .runPendingCalls _ _ => inferInstanceAs (Decidable (∀ o ∈ _, ∀ r ∈ _, _))
  | .transportConnect _ _ | .transportDisconnect _ | .methodCallAsync _ _ _ _
  | .methodCallTmo _ | .agentAdd _ _ | .agentDel _ | .event _ _ => .isTrue trivial

theorem AnswersKnown.flushesScheduled {e : Event} (h : q.AnswersKnown e) :
    q.FlushesScheduled e := by
  cases e with
  | runPendingCalls position replies => exact h
  | _ => trivial

theorem SentTo.mono (h : q.SentTo i cid r) (hsub : q.traffic ⊆ q'.traffic) :
    q'.SentTo i cid r := by
  obtain ⟨call, hcall, heq⟩ := h
  exact ⟨call, hsub hcall, heq⟩

def EntriesSent (q : Qmf) : Prop :=
  ∀ i, ∀ entry ∈ (q.agents i).outstandingCalls, ∃ r, entry.2 = some r ∧ q.SentTo i entry.1 r

namespace EntriesSent

theorem same (h : q.EntriesSent) (hs : SameRequests q q') : q'.EntriesSent := by
  intro i entry hentry
  obtain ⟨r, hr, hsent⟩ := h i entry ((hs.outstandingCalls i).subset hentry)
  exact ⟨r, hr, hsent.mono (hs.traffic ▸ List.Subset.refl _)⟩

theorem sends (h : q.EntriesSent) (hs : Sends q q' i r cid) : q'.EntriesSent := by
  obtain ⟨call, htraffic, hagent, hcid, hrequest, -⟩ := hs.traffic
  intro j entry hentry
  rcases hs.mem_outstandingCalls hentry with hold | ⟨rfl, rfl⟩
  · obtain ⟨x, hx, hsent⟩ := h j entry hold
    refine ⟨x, hx, hsent.mono ?_⟩
    rw [htraffic]
    exact List.subset_cons_self _ _
  · refine ⟨r, rfl, call, ?_, hagent, hcid, hrequest⟩
    rw [htraffic]
    exact .head _

theorem call {method : CString} {args : List (CString × Variant)} {reply : CallReply}
    (h : q.EntriesSent) (hcall : q.methodCallAsync o method args reply = .ok q') :
    q'.EntriesSent := by
  unfold methodCallAsync at hcall
  split at hcall
  · cases hcall
  · split at hcall
    · obtain ⟨i, -, hs⟩ := send_ok hcall
      exact sends (q := q.requestCreate o method args) h hs
    · cases hcall
      exact h

theorem flush {jobs : List Nat} {replies : Nat → CallReply} (h : q.EntriesSent)
    (hflush : jobs.foldlM (fun q r => q.send o r (replies r)) q = .ok q') : q'.EntriesSent :=
  flush_invariant (I := fun q _ => q.EntriesSent) (fun h hs => h.sends hs) h hflush

theorem methodCallTmo (h : q.EntriesSent) (htimeout : q.methodCallTmo r = .ok q') :
    q'.EntriesSent := by
  rcases methodCallTmo_ok htimeout with ⟨-, rfl⟩ | ⟨-, rc, rfl⟩ <;> exact h

theorem logAnswer (h : q.EntriesSent) (request : Option Nat) :
    (q.logAnswer i cid request).EntriesSent := by
  intro j entry hentry
  obtain ⟨r, hr, hsent⟩ := h j entry hentry
  exact ⟨r, hr, hsent.mono (List.subset_cons_self _ _)⟩

theorem agentAnswer {exception : Bool} (h : q.EntriesSent)
    (hknown : ∃ entry ∈ (q.agents i).outstandingCalls, entry.1 = cid)
    (hanswer : q.agentAnswer i cid exception = .ok q') : q'.EntriesSent := by
  rcases agentAnswer_ok hanswer with ⟨r, mid, hcall, hmid, rfl⟩ | ⟨hcall, -⟩ | ⟨hunknown, -⟩
  · have hprocessed : mid.EntriesSent := by
      have hlog : (q.logAnswer i cid (some r)).EntriesSent := h.logAnswer (some r)
      rcases processAnswer_ok hmid with rfl | ⟨-, rc, rfl⟩ <;> exact hlog
    intro j entry hentry
    refine hprocessed j entry ?_
    by_cases hj : j = i
    · subst hj
      simp only [modifyAgent, Function.update_self] at hentry
      exact List.mem_of_mem_filter hentry
    · simpa only [modifyAgent, Function.update_of_ne hj] using hentry
  · obtain ⟨r, hr, -⟩ := h i _ hcall
    cases hr
  · obtain ⟨entry, hentry, hcid⟩ := hknown
    exact absurd hcid (hunknown entry hentry)

theorem cancelCalls {calls : List (Nat × Option Nat)} (h : q.EntriesSent)
    (hcancel : q.cancelCalls calls = .ok q') : q'.EntriesSent :=
  cancelCalls_invariant (I := fun q _ => q.EntriesSent) (fun h _ => h) h hcancel

theorem step {e : Event} (h : q.EntriesSent) (hknown : q.AnswersKnown e)
    (hstep : q.step e = .ok q') : q'.EntriesSent := by
  refine step_keeps (P := AnswersKnown) same call ?_ ?_ ?_ ?_ h hknown hstep
  · intro q q' position replies o h _ _ hflush
    exact flush (q := { q with jobs := q.jobs.eraseIdx position }) h hflush
  · intro q q' position r h _ htimeout
    exact methodCallTmo (q := { q with timers := q.timers.eraseIdx position }) h htimeout
  · intro q q' name cid exception i h hknown hname hanswer
    exact h.agentAnswer (hknown i hname) hanswer
  · intro q q' name i h _ _ hcancel
    exact cancelCalls (q := { q with names := Function.update q.names name none }) h hcancel

theorem ne_none (h : q.EntriesSent) {entry : Nat × Option Nat}
    (hentry : entry ∈ (q.agents i).outstandingCalls) : entry.2 ≠ none := by
  obtain ⟨r, hr, -⟩ := h i entry hentry
  simp [hr]

theorem outstandingSent (h : q.EntriesSent) (hheld : q.Held) : q.OutstandingSent := by
  intro i entry hentry
  obtain ⟨r, hr, hsent⟩ := h i entry hentry
  exact ⟨r, hr, hsent, hheld.unanswered i entry hentry r hr,
    hheld.not_deleted (hheld.outstandingCalls i entry hentry r hr)
      (hheld.refCount_ne_zero_of_call hentry hr)⟩

end EntriesSent

/--
As long as every answer belongs to a call and jobs are flushed once, the tables hold requests
without an answer, and no agent that is lost meets a null pointer or a deleted request.
-/
theorem outstanding_sent_of_answersKnown (hknown : Along step AnswersKnown empty events) :
    run step empty events ≠ .error .nullRequest ∧
      run step empty events ≠ .error .deletedRequest ∧
      ∀ q, run step empty events = .ok q → q.OutstandingSent := by
  have hempty : empty.Held ∧ empty.EntriesSent :=
    ⟨empty_held, fun i entry hentry => by simp [empty] at hentry⟩
  have hkept : ∀ {q : Qmf} {e : Event} {q' : Qmf}, q.Held ∧ q.EntriesSent → q.AnswersKnown e →
      q.step e = .ok q' → q'.Held ∧ q'.EntriesSent :=
    fun h hknown hstep => ⟨h.1.step hknown.flushesScheduled hstep, h.2.step hknown hstep⟩
  refine ⟨?_, ?_, fun q hrun => ?_⟩
  · exact run_ne_error hkept (fun h _ => h.1.step_ne_error (by simp) (by simp)
      (fun _ _ _ hentry => h.2.ne_none hentry) _) hempty hknown
  · exact run_ne_error hkept (fun h _ => h.1.step_ne_error (by simp) (by simp) (by simp) _)
      hempty hknown
  · obtain ⟨hheld, hentries⟩ := run_invariant hkept hempty hknown hrun
    exact hentries.outstandingSent hheld

theorem outstanding_sent_of_answersKnown_asking :
    ∃ q, run step empty (asking ++ [.methodCallAsync barServ "stop".toList [] ⟨[], 8⟩,
        .answer bar 7 false]) = .ok q ∧
      (q.agents 0).outstandingCalls = [(8, some 1)] ∧ q.OutstandingSent := by
  obtain ⟨q, hrun, hcalls⟩ : ∃ q, run step empty
      (asking ++ [.methodCallAsync barServ "stop".toList [] ⟨[], 8⟩, .answer bar 7 false]) =
        .ok q ∧ (q.agents 0).outstandingCalls = [(8, some 1)] := exists_run (by decide +kernel)
  exact ⟨q, hrun, hcalls, (outstanding_sent_of_answersKnown (by decide +kernel)).2.2 q hrun⟩

/--
A response is received twice; with its agent the null pointer of the second is followed.  And a
request that was answered and deleted is sent again; with its agent it is followed.
-/
theorem duplicate_answer_leaves_null :
    (∃ q, run step empty (asking ++ [.answer bar 7 false, .answer bar 7 false]) = .ok q ∧
      (q.agents 0).outstandingCalls = [(7, none)]) ∧
    run step empty (asking ++ [.answer bar 7 false, .answer bar 7 false, .agentDel bar]) =
      .error .nullRequest ∧
    run step empty (waiting ++ [.answer bar 7 false, .methodCallTmo 0, .agentDel bar,
      .agentAdd bar barFound, .runPendingCalls 3 fun _ => ⟨[], 8⟩, .agentDel bar]) =
      .error .deletedRequest :=
  ⟨exists_run (by decide +kernel), run_of_stopsWith (by decide +kernel),
    run_of_stopsWith (by decide +kernel)⟩

/-! ## Attached objects -/

structure Attached (q : Qmf) : Prop where
  connected : ∀ o, (q.objects o).connected = true → ∃ i, (q.objects o).qa = some i
  qa : ∀ o i, (q.objects o).qa = some i → (q.objects o).connected = true ∧
    (q.objects o).lastAgent = some i ∧ o ∈ (q.agents i).objects
  live : ∀ o i, (q.objects o).qa = some i → (q.agents i).deleted = false ∧ i < q.agentCount
  names : ∀ name i, q.names name = some i → (q.agents i).deleted = false ∧ i < q.agentCount
  names_inj : ∀ name name' i, q.names name = some i → q.names name' = some i → name = name'

def ConnectsOnline (q : Qmf) : Event → Prop
  | .agentAdd _ env => ∀ o ∈ q.muxObjects, (q.objects o).connected = false →
      (env o).data.any (accepts (q.objects o)) = true → (env o).offline = false
  | _ => True

instance decidableConnectsOnline (q : Qmf) : ∀ e, Decidable (q.ConnectsOnline e)
  | .agentAdd _ _ => inferInstanceAs (Decidable (∀ o ∈ _, _ → _ → _))
  | .transportConnect _ _ | .transportDisconnect _ | .methodCallAsync _ _ _ _
  | .runPendingCalls _ _ | .methodCallTmo _ | .agentDel _ | .answer _ _ _ | .event _ _ =>
      .isTrue trivial

def OwnObjects (q : Qmf) (name : CString) : Prop :=
  ∀ i ∈ q.names name, ∀ o ∈ (q.agents i).objects, ∀ j ∈ (q.objects o).qa, j = i

def LeavesOthers (q : Qmf) (name : CString) (q' : Qmf) : Prop :=
  ∀ o j, (q.objects o).qa = some j → q.names name ≠ some j →
    (q'.objects o).connected = true ∧ (q'.objects o).qa = some j

theorem foldl_disconnect (q : Qmf) (objects : List ObjectId) :
    (objects.foldl Qmf.disconnect q).agents = q.agents ∧
      (objects.foldl Qmf.disconnect q).names = q.names ∧
      (∀ o ∉ objects, (objects.foldl Qmf.disconnect q).objects o = q.objects o) ∧
      ∀ o ∈ objects, ((objects.foldl Qmf.disconnect q).objects o).qa = none := by
  induction objects generalizing q with
  | nil => simp
  | cons first objects ih =>
      obtain ⟨hagents, hnames, hothers, hgone⟩ := ih (q.disconnect first)
      rw [List.foldl_cons]
      refine ⟨hagents, hnames, fun o ho => ?_, fun o ho => ?_⟩
      · rw [hothers o fun hmem => ho (.tail _ hmem)]
        have hne : o ≠ first := fun heq => ho (heq ▸ .head _)
        simp [Qmf.disconnect, modifyObject, hne]
      · by_cases hmem : o ∈ objects
        · exact hgone o hmem
        · rw [hothers o hmem, (List.mem_cons.mp ho).resolve_right hmem]
          simp [Qmf.disconnect, modifyObject]

theorem agentDel_ok (h : q.agentDel name = .ok q') :
    q.names name = none ∧ q' = q ∨
      ∃ i mid, q.names name = some i ∧
        SameObjects { q with names := Function.update q.names name none } mid ∧
        q' = ((mid.agents i).objects.foldl disconnect mid).modifyAgent i
          ({ · with deleted := true }) := by
  unfold agentDel at h
  split at h
  case h_1 hname => exact Or.inl ⟨hname, (Except.ok.inj h).symm⟩
  case h_2 i hname =>
    obtain ⟨mid, hcancel, hrest⟩ := bind_eq_ok.mp h
    exact Or.inr ⟨i, mid, hname, .cancelCalls hcancel, (Except.ok.inj hrest).symm⟩

namespace Attached

theorem same (h : q.Attached) (hs : SameObjects q q') : q'.Attached := by
  constructor
  · intro o ho
    rw [hs.qa]
    exact h.connected o (hs.connected o ▸ ho)
  · intro o i ho
    rw [hs.connected, hs.lastAgent, hs.objects]
    exact h.qa o i (hs.qa o ▸ ho)
  · intro o i ho
    rw [hs.deleted, hs.agentCount]
    exact h.live o i (hs.qa o ▸ ho)
  · intro name i hname
    rw [hs.deleted, hs.agentCount]
    exact h.names name i (hs.names ▸ hname)
  · rw [hs.names]
    exact h.names_inj

theorem disconnect (h : q.Attached) (o : ObjectId) : (q.disconnect o).Attached := by
  have hold : ∀ o' i, ((q.disconnect o).objects o').qa = some i →
      (q.disconnect o).objects o' = q.objects o' := by
    intro o' i ho'
    have hne : o' ≠ o := by
      rintro rfl
      simp [Qmf.disconnect, modifyObject] at ho'
    simp [Qmf.disconnect, modifyObject, hne]
  refine { h with connected := ?_, qa := ?_, live := ?_ }
  · intro o' ho'
    by_cases hne : o' = o
    · simp [Qmf.disconnect, modifyObject, hne] at ho'
    · simp only [Qmf.disconnect, modifyObject, Function.update_of_ne hne] at ho' ⊢
      exact h.connected o' ho'
  · intro o' i ho'
    have heq := hold o' i ho'
    rw [heq] at ho' ⊢
    exact h.qa o' i ho'
  · intro o' i ho'
    rw [hold o' i ho'] at ho'
    exact h.live o' i ho'

theorem stateOnlineToOffline (h : q.Attached) (a : CString) :
    (q.stateOnlineToOffline a).Attached :=
  ((h.disconnect _).disconnect _).disconnect _

theorem agentEvent (h : q.Attached) (i : Nat) (offline : CString → Bool) :
    (q.agentEvent i offline).Attached := by
  unfold Qmf.agentEvent
  generalize (q.agents i).objects = objects
  induction objects generalizing q with
  | nil => exact h
  | cons o objects ih =>
      rw [List.foldl_cons]
      split
      · exact ih (h.stateOnlineToOffline _)
      · exact ih h

theorem agentGet (h : q.Attached) (name : CString) :
    (q.agentGet name).1.Attached ∧
      ((q.agentGet name).1.agents (q.agentGet name).2).deleted = false ∧
      (q.agentGet name).2 < (q.agentGet name).1.agentCount := by
  unfold Qmf.agentGet
  split
  case h_1 i hname => exact ⟨h, h.names name i hname⟩
  case h_2 hname =>
    have hagents : ∀ i < q.agentCount,
        Function.update q.agents q.agentCount ⟨[], [], false⟩ i = q.agents i :=
      fun i hi => Function.update_of_ne (Nat.ne_of_lt hi) _ _
    -- a name is new, or it is that of an older agent
    have hnames : ∀ name' i, Function.update q.names name (some q.agentCount) name' = some i →
        name' = name ∧ i = q.agentCount ∨ q.names name' = some i ∧ i < q.agentCount := by
      intro name' i hi
      rcases update_eq_some.mp hi with ⟨heq, hnew⟩ | ⟨-, hold⟩
      · exact Or.inl ⟨heq, (Option.some.inj hnew).symm⟩
      · exact Or.inr ⟨hold, (h.names name' i hold).2⟩
    refine ⟨{ h with qa := ?_, live := ?_, names := ?_, names_inj := ?_ }, by simp, by simp⟩
    · intro o i ho
      simp only [hagents i (h.live o i ho).2]
      exact h.qa o i ho
    · intro o i ho
      obtain ⟨hlive, hlt⟩ := h.live o i ho
      simp only [hagents i hlt]
      exact ⟨hlive, Nat.lt_succ_of_lt hlt⟩
    · intro name' i hi
      rcases hnames name' i hi with ⟨-, rfl⟩ | ⟨hold, hlt⟩
      · simp
      · simp only [hagents i hlt]
        exact ⟨(h.names name' i hold).1, Nat.lt_succ_of_lt hlt⟩
    · intro name₁ name₂ i h₁ h₂
      rcases hnames name₁ i h₁ with ⟨rfl, rfl⟩ | ⟨hold₁, hlt₁⟩
      · rcases hnames name₂ _ h₂ with ⟨rfl, -⟩ | ⟨-, hlt₂⟩
        · rfl
        · exact absurd hlt₂ (Nat.lt_irrefl _)
      · rcases hnames name₂ i h₂ with ⟨-, rfl⟩ | ⟨hold₂, -⟩
        · exact absurd hlt₁ (Nat.lt_irrefl _)
        · exact h.names_inj name₁ name₂ i hold₁ hold₂

theorem join (h : q.Attached) (o : ObjectId) (hlive : (q.agents i).deleted = false)
    (hlt : i < q.agentCount) : ((q.setConnected o).agentObjectAdd i o).Attached := by
  have hself : ∀ {j}, (((q.setConnected o).agentObjectAdd i o).objects o).qa = some j →
      i = j := by
    intro j hj
    simpa [agentObjectAdd, modifyObject] using hj
  have hother : ∀ o', o' ≠ o →
      ((q.setConnected o).agentObjectAdd i o).objects o' = q.objects o' := by
    intro o' ho'
    simp [agentObjectAdd, setConnected, modifyAgent, modifyObject, ho']
  have hlists : ∀ j, (q.agents j).objects ⊆
      (((q.setConnected o).agentObjectAdd i o).agents j).objects := by
    intro j
    by_cases hj : j = i
    · subst hj
      simp [agentObjectAdd, setConnected, modifyAgent, modifyObject]
    · simp [agentObjectAdd, setConnected, modifyAgent, modifyObject, hj]
  have hdeleted : ∀ j, (((q.setConnected o).agentObjectAdd i o).agents j).deleted =
      (q.agents j).deleted := by
    intro j
    by_cases hj : j = i
    · subst hj
      simp [agentObjectAdd, setConnected, modifyAgent, modifyObject]
    · simp [agentObjectAdd, setConnected, modifyAgent, modifyObject, hj]
  constructor
  · intro o' ho'
    by_cases hne : o' = o
    · subst hne
      exact ⟨i, by simp [agentObjectAdd, modifyObject]⟩
    · rw [hother o' hne] at ho' ⊢
      exact h.connected o' ho'
  · intro o' j ho'
    by_cases hne : o' = o
    · subst hne
      obtain rfl := hself ho'
      simp [agentObjectAdd, setConnected, modifyAgent, modifyObject]
    · rw [hother o' hne] at ho' ⊢
      obtain ⟨hconnected, hlast, hmem⟩ := h.qa o' j ho'
      exact ⟨hconnected, hlast, hlists j hmem⟩
  · intro o' j ho'
    rw [hdeleted]
    by_cases hne : o' = o
    · subst hne
      obtain rfl := hself ho'
      exact ⟨hlive, hlt⟩
    · rw [hother o' hne] at ho'
      exact h.live o' j ho'
  · intro name j hname
    rw [hdeleted]
    exact h.names name j hname
  · exact h.names_inj

theorem setConnected_agentGet (q : Qmf) (o : ObjectId) (name : CString) :
    (q.setConnected o).agentGet name =
      ((q.agentGet name).1.setConnected o, (q.agentGet name).2) := by
  have hnames : (q.setConnected o).names = q.names := rfl
  unfold Qmf.agentGet
  rw [hnames]
  cases q.names name <;> rfl

theorem agentOffer {env : ConnectEnv} (h : q.Attached) (name : CString)
    (honline : (q.objects o).connected = false → env.data.any (accepts (q.objects o)) = true →
      env.offline = false) :
    (q.agentOffer name o env).Attached ∧
      (∀ o', o' ≠ o → (q.agentOffer name o env).objects o' = q.objects o') ∧
      (q.agentOffer name o env = q ∨ ((q.agentOffer name o env).objects o).connected = true) := by
  unfold Qmf.agentOffer Qmf.connect
  by_cases hconnected : (q.objects o).connected = true
  · simpa [hconnected] using h
  · by_cases hfound : env.data.any (accepts (q.objects o)) = true
    · have honline := honline (Bool.eq_false_iff.mpr hconnected) hfound
      obtain ⟨hget, hlive, hlt⟩ := h.agentGet name
      simp only [hconnected, hfound, honline, if_true, if_false, Bool.false_eq_true,
        setConnected_agentGet]
      refine ⟨hget.join o hlive hlt, fun o' ho' => ?_, Or.inr ?_⟩
      · have hobjects : (q.agentGet name).1.objects = q.objects := by
          unfold Qmf.agentGet
          split <;> rfl
        simp [agentObjectAdd, setConnected, modifyAgent, modifyObject, ho', hobjects]
      · simp [agentObjectAdd, setConnected, modifyAgent, modifyObject]
    · simpa [hconnected, hfound] using h

theorem agentAdd {env : ObjectId → ConnectEnv} (h : q.Attached)
    (honline : q.ConnectsOnline (.agentAdd name env)) : (q.agentAdd name env).Attached := by
  unfold Qmf.agentAdd
  unfold ConnectsOnline at honline
  -- the guard is kept for the objects that are still to come
  generalize q.muxObjects = objects at honline
  induction objects generalizing q with
  | nil => exact h
  | cons o objects ih =>
      rw [List.foldl_cons]
      obtain ⟨hoffer, hothers, hself⟩ := h.agentOffer name (honline o (.head _))
      refine ih hoffer fun o' ho' hconnected hfound => ?_
      by_cases hne : o' = o
      · subst hne
        rcases hself with heq | htrue
        · rw [heq] at hconnected hfound
          exact honline o' (.head _) hconnected hfound
        · rw [htrue] at hconnected
          cases hconnected
      · rw [hothers o' hne] at hconnected hfound
        exact honline o' (.tail _ ho') hconnected hfound

theorem disconnectAll (h : q.Attached) (objects : List ObjectId) :
    (objects.foldl Qmf.disconnect q).Attached := by
  induction objects generalizing q with
  | nil => exact h
  | cons o objects ih => exact ih (h.disconnect o)

theorem forget (h : q.Attached) (name : CString) :
    { q with names := Function.update q.names name none }.Attached := by
  have hold : ∀ {name' i}, Function.update q.names name none name' = some i →
      q.names name' = some i := by
    intro name' i hi
    rcases update_eq_some.mp hi with ⟨-, hnone⟩ | ⟨-, hold⟩
    · cases hnone
    · exact hold
  exact { h with
    names := fun name' i hi => h.names name' i (hold hi)
    names_inj := fun name₁ name₂ i h₁ h₂ => h.names_inj name₁ name₂ i (hold h₁) (hold h₂) }

theorem delete (h : q.Attached) (hobjects : ∀ o, (q.objects o).qa ≠ some i)
    (hnames : ∀ name, q.names name ≠ some i) :
    (q.modifyAgent i ({ · with deleted := true })).Attached := by
  have hagents : ∀ j, j ≠ i →
      (q.modifyAgent i ({ · with deleted := true })).agents j = q.agents j := by
    intro j hj
    simp [modifyAgent, hj]
  refine { h with qa := ?_, live := ?_, names := ?_ }
  · intro o j ho
    rw [hagents j fun heq => hobjects o (heq ▸ ho)]
    exact h.qa o j ho
  · intro o j ho
    rw [hagents j fun heq => hobjects o (heq ▸ ho)]
    exact h.live o j ho
  · intro name j hname
    rw [hagents j fun heq => hnames name (heq ▸ hname)]
    exact h.names name j hname

theorem agentDel (h : q.Attached) (hdel : q.agentDel name = .ok q') : q'.Attached := by
  rcases agentDel_ok hdel with ⟨-, rfl⟩ | ⟨i, mid, hname, hmid, rfl⟩
  · exact h
  · have hattached : mid.Attached := (h.forget name).same hmid
    obtain ⟨-, hnames, hothers, hgone⟩ := foldl_disconnect mid (mid.agents i).objects
    refine (hattached.disconnectAll _).delete ?_ ?_
    · intro o ho
      by_cases hmem : o ∈ (mid.agents i).objects
      · rw [hgone o hmem] at ho
        cases ho
      · rw [hothers o hmem] at ho
        exact hmem (hattached.qa o i ho).2.2
    · intro name' hname'
      rw [hnames, hmid.names] at hname'
      by_cases heq : name' = name
      · simp [heq] at hname'
      · simp only [Function.update_of_ne heq] at hname'
        exact heq (h.names_inj name' name i hname' hname)

theorem step {e : Event} (h : q.Attached) (honline : q.ConnectsOnline e)
    (hstep : q.step e = .ok q') : q'.Attached := by
  cases e with
  | transportConnect a uuid =>
      cases hstep
      exact h.same (.transportConnect q a uuid)
  | transportDisconnect a =>
      cases hstep
      exact h.stateOnlineToOffline a
  | methodCallAsync o method args reply =>
      simp only [Qmf.step] at hstep
      split at hstep
      · exact h.same (.methodCallAsync hstep)
      · cases hstep
        exact h
  | runPendingCalls position replies =>
      simp only [Qmf.step] at hstep
      split at hstep
      · exact same (q := { q with jobs := q.jobs.eraseIdx position }) { h with }
          (.runPendingCalls hstep)
      · cases hstep
        exact h
  | methodCallTmo position =>
      simp only [Qmf.step] at hstep
      split at hstep
      · exact same (q := { q with timers := q.timers.eraseIdx position }) { h with }
          (.methodCallTmo hstep)
      · cases hstep
        exact h
  | agentAdd name env =>
      cases hstep
      exact h.agentAdd honline
  | agentDel name => exact h.agentDel hstep
  | answer name cid exception =>
      simp only [Qmf.step] at hstep
      split at hstep
      · exact h.same (.agentAnswer hstep)
      · cases hstep
        exact h
  | event name offline =>
      simp only [Qmf.step] at hstep
      split at hstep <;> cases hstep
      · exact h.agentEvent _ _
      · exact h

theorem leavesOthers_iff (h : q.Attached) (hdel : q.agentDel name = .ok q') :
    q.LeavesOthers name q' ↔ q.OwnObjects name := by
  rcases agentDel_ok hdel with ⟨hname, heq⟩ | ⟨i, mid, hname, hmid, rfl⟩
  · have hown : q.OwnObjects name := by simp [OwnObjects, hname]
    rw [heq]
    exact iff_of_true (fun o j ho _ => ⟨(h.qa o j ho).1, ho⟩) hown
  · obtain ⟨-, -, hothers, hgone⟩ := foldl_disconnect mid (mid.agents i).objects
    rw [hmid.objects] at hothers hgone
    constructor
    · intro hleaves i' hi' o ho j hj
      obtain rfl := Option.some.inj (hname.symm.trans hi')
      by_contra hne
      have hafter := (hleaves o j hj fun heq => hne (Option.some.inj (heq.symm.trans hname))).2
      simp only [modifyAgent, hmid.objects, hgone o ho] at hafter
      cases hafter
    · intro hown o j ho hne
      have hmem : o ∉ (q.agents i).objects := fun hmem =>
        hne (hown i hname o hmem j ho ▸ hname)
      simp only [modifyAgent, hmid.objects, hothers o hmem, hmid.connected, hmid.qa]
      exact ⟨(h.qa o j ho).1, ho⟩

end Attached

/--
As long as no object is taken offline while it connects, an object is connected when it points
to the agent it was last added to.  The loss of an agent leaves the objects of all other agents
alone exactly if none of them is on its list.
-/
theorem attached_of_connectsOnline (honline : Along step ConnectsOnline empty events)
    (hrun : run step empty events = .ok q) :
    (∀ o, (q.objects o).connected = true ↔
      ∃ i, (q.objects o).qa = some i ∧ (q.agents i).deleted = false ∧
        (q.objects o).lastAgent = some i) ∧
    ∀ name q', q.agentDel name = .ok q' → (q.LeavesOthers name q' ↔ q.OwnObjects name) := by
  have hempty : empty.Attached := by
    constructor <;> simp [empty]
  have hattached : q.Attached := run_invariant Attached.step hempty honline hrun
  refine ⟨fun o => ⟨fun hconnected => ?_, ?_⟩,
    fun name q' hdel => hattached.leavesOthers_iff hdel⟩
  · obtain ⟨i, hi⟩ := hattached.connected o hconnected
    exact ⟨i, hi, (hattached.live o i hi).1, (hattached.qa o i hi).2.1⟩
  · rintro ⟨i, hi, -⟩
    exact (hattached.qa o i hi).1

theorem attached_of_connectsOnline_agents :
    ∃ q q', run step empty [.transportConnect bar bar, .agentAdd bar barFound,
        .transportConnect "foo".toList "foo".toList,
        .agentAdd "foo".toList fun _ => ⟨[⟨fun _ => "foo".toList⟩], false⟩] = .ok q ∧
      q.agentDel "foo".toList = .ok q' ∧
      (q'.objects barServ).connected = true ∧ (q'.objects barServ).qa = some 0 := by
  obtain ⟨q, hrun, ⟨hqa, hname, hown⟩, hend⟩ : ∃ q, run step empty [.transportConnect bar bar,
        .agentAdd bar barFound, .transportConnect "foo".toList "foo".toList,
        .agentAdd "foo".toList fun _ => ⟨[⟨fun _ => "foo".toList⟩], false⟩] = .ok q ∧
      ((q.objects barServ).qa = some 0 ∧ q.names "foo".toList = some 1 ∧
        ∀ o ∈ (q.agents 1).objects, (q.objects o).qa = some 1) ∧
      endsIn step q [.agentDel "foo".toList] (fun _ => true) := exists_run (by decide +kernel)
  obtain ⟨q', hlast, -⟩ := exists_of_endsIn hend
  have hdel := run_singleton.mp hlast
  have hleaves := ((attached_of_connectsOnline (by decide +kernel) hrun).2 _ _ hdel).mpr
    fun i hi o ho j hj => by
      obtain rfl := Option.some.inj (hname.symm.trans hi)
      exact Option.some.inj (hj.symm.trans (hown o ho))
  exact ⟨q, q', hrun, hdel, hleaves barServ 0 hqa (by rw [hname]; decide)⟩

def replaced : List Event :=
  [.transportConnect bar bar, .agentAdd "old".toList barFound, .transportDisconnect bar,
    .agentAdd "new".toList barFound]

/--
The agent of the replaced machine ages out and takes the objects of the new one with it.  And
an object that is taken offline while it connects points to an agent without being connected.
-/
theorem old_agent_disconnects_replacement :
    (∃ q q', run step empty replaced = .ok q ∧ q.agentDel "old".toList = .ok q' ∧
      ¬ q.LeavesOthers "old".toList q') ∧
    ∃ q, run step empty [.transportConnect bar bar,
        .agentAdd bar fun _ => ⟨[⟨fun _ => bar⟩], true⟩] = .ok q ∧
      (q.objects ⟨bar, .rsc⟩).connected = false ∧ (q.objects ⟨bar, .rsc⟩).qa = some 0 := by
  refine ⟨?_, exists_run (by decide +kernel)⟩
  obtain ⟨q, hrun, ⟨hqa, hname⟩, hend⟩ : ∃ q, run step empty replaced = .ok q ∧
      ((q.objects barServ).qa = some 1 ∧ q.names "old".toList = some 0) ∧
      endsIn step q [.agentDel "old".toList] fun q' => (q'.objects barServ).qa = none :=
    exists_run (by decide +kernel)
  obtain ⟨q', hlast, hnone⟩ := exists_of_endsIn hend
  refine ⟨q, q', hrun, run_singleton.mp hlast, fun hleaves => ?_⟩
  have hafter := (hleaves barServ 1 hqa (by rw [hname]; decide)).2
  rw [of_decide_eq_true hnone] at hafter
  cases hafter

end Qmf

end PacemakerCloud

import PacemakerCloud.Qmf.Requests

/-!
# Answers to the requests of the console

Whether a request is answered once.  An exception and the end of an agent do not look at the
state of a request: they answer one that has timed out again.
-/

namespace PacemakerCloud

open Foundation

namespace Qmf

variable {q q' : Qmf} {o : ObjectId} {i r : Nat} {events : List Event}

/-- Nothing answers a request again, and the pending jobs are flushed once. -/
def AnswersOpen (q : Qmf) : Event → Prop
  | .runPendingCalls position _ => ∀ o ∈ q.jobs[position]?, ∀ r ∈ (q.objects o).pendingJobs,
      (q.requests r).state = .scheduled
  | .answer name cid exception => exception = true → ∀ i ∈ q.names name,
      ∀ call ∈ (q.agents i).outstandingCalls, call.1 = cid → ∀ r ∈ call.2,
        (q.requests r).state ≠ .completed
  | .agentDel name => ∀ i ∈ q.names name,
      ∀ r ∈ (q.agents i).outstandingCalls.filterMap Prod.snd, (q.requests r).state ≠ .completed
  | _ => True

instance decidableAnswersOpen (q : Qmf) : ∀ e, Decidable (q.AnswersOpen e)
  | .runPendingCalls _ _ => inferInstanceAs (Decidable (∀ o ∈ _, ∀ r ∈ _, _))
  | .answer _ _ _ => inferInstanceAs (Decidable (_ = _ → ∀ i ∈ _, ∀ call ∈ _, _ → ∀ r ∈ _, _))
  | .agentDel _ => inferInstanceAs (Decidable (∀ i ∈ _, ∀ r ∈ _, _))
  | .transportConnect _ _ | .transportDisconnect _ | .methodCallAsync _ _ _ _
  | .methodCallTmo _ | .agentAdd _ _ | .event _ _ => .isTrue trivial

theorem AnswersOpen.flushesScheduled {e : Event} (h : q.AnswersOpen e) : q.FlushesScheduled e := by
  cases e with
  | runPendingCalls position replies => exact h
  | _ => trivial

structure AnsweredOnce (q : Qmf) : Prop extends Created q where
  nodup : (q.responses.map Prod.fst).Nodup
  completed : ∀ x ∈ q.responses, (q.requests x.1).state = .completed

namespace AnsweredOnce

theorem same (h : q.AnsweredOnce) (hs : SameRequests q q') : q'.AnsweredOnce where
  toCreated := h.toCreated.same hs
  nodup := by
    rw [hs.responses]
    exact h.nodup
  completed := by
    rw [hs.responses, hs.requests]
    exact h.completed

theorem not_mem (h : q.AnsweredOnce) (hr : (q.requests r).state ≠ .completed) :
    ∀ x ∈ q.responses, x.1 ≠ r := by
  rintro x hx rfl
  exact hr (h.completed x hx)

theorem requestCreate (h : q.AnsweredOnce) (o : ObjectId) (method : CString)
    (args : List (CString × Variant)) : (q.requestCreate o method args).AnsweredOnce where
  toCreated := h.toCreated.requestCreate o method args
  nodup := h.nodup
  completed x hx := by
    have hne : x.1 ≠ q.requestCount := Nat.ne_of_lt (h.responses x hx)
    simp only [Qmf.requestCreate, Function.update_of_ne hne]
    exact h.completed x hx

theorem schedule (h : q.AnsweredOnce) (hr : r < q.requestCount)
    (hopen : (q.requests r).state ≠ .completed) : (q.schedule o r).AnsweredOnce where
  toCreated := h.toCreated.schedule hr
  nodup := h.nodup
  completed x hx := by
    simp only [Qmf.schedule, modifyRequest, modifyObject,
      Function.update_of_ne (h.not_mem hopen x hx)]
    exact h.completed x hx

theorem sends {cid : Nat} (h : q.AnsweredOnce) (hr : r < q.requestCount)
    (hopen : (q.requests r).state ≠ .completed) (hs : Sends q q' i r cid) :
    q'.AnsweredOnce where
  toCreated := h.toCreated.sends hr hs
  nodup := by
    rw [hs.responses]
    exact h.nodup
  completed x hx := by
    rw [hs.responses] at hx
    rw [hs.requests _ (h.not_mem hopen x hx)]
    exact h.completed x hx

theorem methodResponse (h : q.AnsweredOnce) (hr : r < q.requestCount)
    (hopen : (q.requests r).state ≠ .completed) (rc : RpcResult) :
    (q.methodResponse r rc).AnsweredOnce where
  toCreated := h.toCreated.methodResponse hr rc
  nodup := by
    refine List.nodup_cons.mpr ⟨fun hmem => ?_, h.nodup⟩
    obtain ⟨x, hx, hxr⟩ := List.mem_map.mp hmem
    exact h.not_mem hopen x hx hxr
  completed x hx := by
    rw [methodResponse_state]
    split
    · rfl
    case isFalse hne =>
      rcases List.mem_cons.mp hx with rfl | hx
      · exact absurd rfl hne
      · exact h.completed x hx

theorem unref (h : q.AnsweredOnce) (r : Nat) : (q.unref r).AnsweredOnce where
  toCreated := h.toCreated.unref r
  nodup := h.nodup
  completed x hx := by
    rw [unref_state]
    exact h.completed x hx

theorem call {method : CString} {args : List (CString × Variant)} {reply : CallReply}
    (h : q.AnsweredOnce) (hcall : q.methodCallAsync o method args reply = .ok q') :
    q'.AnsweredOnce := by
  have hcreate := h.requestCreate o method args
  have hr : q.requestCount < (q.requestCreate o method args).requestCount := Nat.lt_succ_self _
  have hopen : ((q.requestCreate o method args).requests q.requestCount).state ≠ .completed := by
    simp [Qmf.requestCreate]
  unfold methodCallAsync at hcall
  split at hcall
  · cases hcall
  · split at hcall
    · obtain ⟨i, -, hs⟩ := send_ok hcall
      exact hcreate.sends hr hopen hs
    · cases hcall
      exact hcreate.schedule hr hopen

theorem flush {jobs : List Nat} {replies : Nat → CallReply} (h : q.AnsweredOnce)
    (hjobs : ∀ r ∈ jobs, r < q.requestCount)
    (hopen : ∀ r ∈ jobs, (q.requests r).state ≠ .completed)
    (hflush : jobs.foldlM (fun q r => q.send o r (replies r)) q = .ok q') :
    q'.AnsweredOnce := by
  refine (flush_invariant (I := fun q jobs => q.AnsweredOnce ∧
    (∀ r ∈ jobs, r < q.requestCount) ∧ ∀ r ∈ jobs, (q.requests r).state ≠ .completed)
    ?_ ⟨h, hjobs, hopen⟩ hflush).1
  rintro q r jobs mid i ⟨h, hjobs, hopen⟩ hs
  refine ⟨h.sends (hjobs r (.head _)) (hopen r (.head _)) hs, fun x hx => ?_, fun x hx => ?_⟩
  · rw [hs.requestCount]
    exact hjobs x (.tail _ hx)
  · by_cases hxr : x = r
    · rw [hxr, hs.state]
      simp
    · rw [hs.requests x hxr]
      exact hopen x (.tail _ hx)

theorem methodCallTmo (h : q.AnsweredOnce) (hr : r < q.requestCount)
    (htimeout : q.methodCallTmo r = .ok q') : q'.AnsweredOnce := by
  rcases methodCallTmo_ok htimeout with ⟨-, rfl⟩ | ⟨hopen, rc, rfl⟩
  · exact h.unref r
  · exact (h.methodResponse hr hopen rc).unref r

theorem processAnswer {exception : Bool} (h : q.AnsweredOnce) (hr : r < q.requestCount)
    (hopen : exception = true → (q.requests r).state ≠ .completed)
    (hanswer : q.processAnswer r exception = .ok q') : q'.AnsweredOnce := by
  rcases processAnswer_ok hanswer with rfl | ⟨hcause, rc, rfl⟩
  · exact h.unref r
  · refine (h.methodResponse hr ?_ rc).unref r
    rcases hcause with hexception | hrunning
    · exact hopen hexception
    · rw [hrunning]
      simp

theorem logAnswer (h : q.AnsweredOnce) (i cid : Nat) (request : Option Nat) :
    (q.logAnswer i cid request).AnsweredOnce :=
  ⟨h.toCreated.logAnswer i cid request, h.nodup, h.completed⟩

theorem setOutstanding (h : q.AnsweredOnce) (i : Nat)
    (f : List (Nat × Option Nat) → List (Nat × Option Nat))
    (hf : ∀ calls, ∀ call ∈ f calls, call ∈ calls ∨ call.2 = none) :
    (q.modifyAgent i fun qa =>
      { qa with outstandingCalls := f qa.outstandingCalls }).AnsweredOnce :=
  ⟨h.toCreated.setOutstanding i f hf, h.nodup, h.completed⟩

theorem agentAnswer {cid : Nat} {exception : Bool} (h : q.AnsweredOnce)
    (hopen : exception = true → ∀ call ∈ (q.agents i).outstandingCalls, call.1 = cid →
      ∀ r ∈ call.2, (q.requests r).state ≠ .completed)
    (hanswer : q.agentAnswer i cid exception = .ok q') : q'.AnsweredOnce := by
  rcases agentAnswer_ok hanswer with ⟨r, mid, hcall, hmid, rfl⟩ | ⟨-, rfl⟩ | ⟨-, rfl⟩
  · have hanswered := (h.logAnswer i cid (some r)).processAnswer
      (h.outstandingCalls i _ hcall r rfl) (fun hexception => hopen hexception _ hcall rfl r rfl)
      hmid
    exact hanswered.setOutstanding i (·.filter (·.1 ≠ cid))
      fun _ _ hcall => Or.inl (List.mem_of_mem_filter hcall)
  · exact h.logAnswer i cid none
  · refine (h.logAnswer i cid none).setOutstanding i (mapPut Prod.fst · (cid, none)) ?_
    exact fun _ _ hcall => (mem_mapPut hcall).symm.imp_right fun hcall => by rw [hcall]

theorem cancelCalls {calls : List (Nat × Option Nat)} (h : q.AnsweredOnce)
    (hcreated : ∀ r ∈ calls.filterMap Prod.snd, r < q.requestCount)
    (hnodup : (calls.filterMap Prod.snd).Nodup)
    (hopen : ∀ r ∈ calls.filterMap Prod.snd, (q.requests r).state ≠ .completed)
    (hcancel : q.cancelCalls calls = .ok q') : q'.AnsweredOnce := by
  refine (cancelCalls_invariant (I := fun q calls => q.AnsweredOnce ∧
    (∀ r ∈ calls.filterMap Prod.snd, r < q.requestCount) ∧ (calls.filterMap Prod.snd).Nodup ∧
      ∀ r ∈ calls.filterMap Prod.snd, (q.requests r).state ≠ .completed)
    ?_ ⟨h, hcreated, hnodup, hopen⟩ hcancel).1
  rintro q call calls r ⟨h, hcreated, hnodup, hopen⟩ hcall
  rw [List.filterMap_cons_some hcall] at hcreated hnodup hopen
  obtain ⟨hnew, hnodup⟩ := List.nodup_cons.mp hnodup
  refine ⟨h.methodResponse (hcreated r (.head _)) (hopen r (.head _)) _,
    fun x hx => hcreated x (.tail _ hx), hnodup, fun x hx => ?_⟩
  have hne : x ≠ r := fun heq => hnew (heq ▸ hx)
  rw [methodResponse_state, if_neg hne]
  exact hopen x (.tail _ hx)

theorem step {e : Event} (h : q.AnsweredOnce) (hheld : q.Held) (hopen : q.AnswersOpen e)
    (hstep : q.step e = .ok q') : q'.AnsweredOnce := by
  refine step_keeps (P := fun q e => q.Held ∧ q.AnswersOpen e) same call ?_ ?_ ?_ ?_ h
    ⟨hheld, hopen⟩ hstep
  · rintro q q' position replies o h ⟨-, hopen⟩ hjob hflush
    have hjobs : { q with jobs := q.jobs.eraseIdx position }.AnsweredOnce :=
      h.same { SameRequests.refl q with }
    refine hjobs.flush (h.pendingJobs o) (fun r hr => ?_) hflush
    rw [hopen o hjob r hr]
    simp
  · intro q q' position r h htimer htimeout
    have hexpired : { q with timers := q.timers.eraseIdx position }.AnsweredOnce :=
      ⟨h.toCreated.expire position, h.nodup, h.completed⟩
    exact hexpired.methodCallTmo (h.timers r (List.mem_of_getElem? htimer)) htimeout
  · rintro q q' name cid exception i h ⟨-, hopen⟩ hname hanswer
    exact h.agentAnswer (fun hexception => hopen hexception i hname) hanswer
  · rintro q q' name i h ⟨hheld, hopen⟩ hname hcancel
    have hnames : { q with names := Function.update q.names name none }.AnsweredOnce :=
      h.same { SameRequests.refl q with }
    refine hnames.cancelCalls (fun r hr => ?_) (hheld.nodup_requests i) (hopen i hname) hcancel
    obtain ⟨call, hcall, hcallr⟩ := List.mem_filterMap.mp hr
    exact h.outstandingCalls i call hcall r hcallr

end AnsweredOnce

/--
Unless it is answered or sent again, a request is answered once, and nothing follows a pointer
to a request that was deleted.
-/
theorem answered_once_of_answersOpen (hopen : Along step AnswersOpen empty events) :
    run step empty events ≠ .error .deletedRequest ∧
      ∀ q, run step empty events = .ok q → (q.responses.map Prod.fst).Nodup := by
  have hempty : empty.AnsweredOnce := ⟨empty_created, by simp [empty], by simp [empty]⟩
  have hkept : ∀ {q : Qmf} {e : Event} {q' : Qmf}, q.Held ∧ q.AnsweredOnce → q.AnswersOpen e →
      q.step e = .ok q' → q'.Held ∧ q'.AnsweredOnce :=
    fun h hopen hstep =>
      ⟨h.1.step hopen.flushesScheduled hstep, h.2.step h.1 hopen hstep⟩
  constructor
  · exact run_ne_error hkept
      (fun h _ => h.1.step_ne_error (by simp) (by simp) (by simp) _) ⟨empty_held, hempty⟩ hopen
  · intro q hrun
    exact (run_invariant hkept ⟨empty_held, hempty⟩ hopen hrun).2.nodup

/-- The agent answers and is lost, and then the timer of the request runs out. -/
theorem answered_once_of_answersOpen_asking :
    ∃ q, run step empty (asking ++ [.answer bar 7 false, .agentDel bar, .methodCallTmo 0]) =
        .ok q ∧ q.responses = [(0, .ok)] ∧ (q.responses.map Prod.fst).Nodup := by
  obtain ⟨q, hrun, hresponses⟩ : ∃ q, run step empty
      (asking ++ [.answer bar 7 false, .agentDel bar, .methodCallTmo 0]) = .ok q ∧
        q.responses = [(0, .ok)] := exists_run (by decide +kernel)
  exact ⟨q, hrun, hresponses, (answered_once_of_answersOpen (by decide +kernel)).2 q hrun⟩

/-- After its timeout a request is answered again by an exception, or with its agent. -/
theorem timed_out_answered_again :
    (∃ q, run step empty (asking ++ [.methodCallTmo 0, .answer bar 7 true]) = .ok q ∧
      q.responses = [(0, .exception), (0, .timeout)]) ∧
    ∃ q, run step empty (asking ++ [.methodCallTmo 0, .agentDel bar]) = .ok q ∧
      q.responses = [(0, .cancelled), (0, .timeout)] :=
  ⟨exists_run (by decide +kernel), exists_run (by decide +kernel)⟩

end Qmf

end PacemakerCloud

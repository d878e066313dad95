import PacemakerCloud.Qmf.Effects

/-!
# Requests of the console

Whether a request is sent once and kept as long as it is needed.  The flush of the pending jobs
does not look at the state of a request: it sends one again that was sent after an earlier
connect, and that its timer and its answer may have released.
-/

namespace PacemakerCloud

open Foundation

namespace Qmf

variable {q q' : Qmf} {o : ObjectId} {i r : Nat} {events : List Event}

/-! ## Created requests -/

structure Created (q : Qmf) : Prop where
  timers : ∀ r ∈ q.timers, r < q.requestCount
  pendingJobs : ∀ o, ∀ r ∈ (q.objects o).pendingJobs, r < q.requestCount
  outstandingCalls : ∀ i, ∀ call ∈ (q.agents i).outstandingCalls, ∀ r ∈ call.2,
    r < q.requestCount
  responses : ∀ x ∈ q.responses, x.1 < q.requestCount
  sent : ∀ r ∈ q.sent, r < q.requestCount

theorem mem_of_setOutstanding {f : List (Nat × Option Nat) → List (Nat × Option Nat)}
    (hf : ∀ calls, ∀ call ∈ f calls, call ∈ calls ∨ call.2 = none) {j : Nat}
    {call : Nat × Option Nat}
    (hcall : call ∈ ((q.modifyAgent i fun qa =>
      { qa with outstandingCalls := f qa.outstandingCalls }).agents j).outstandingCalls)
    (hr : r ∈ call.2) : call ∈ (q.agents j).outstandingCalls := by
  by_cases hj : j = i
  · subst hj
    simp only [modifyAgent, Function.update_self] at hcall
    rcases hf _ call hcall with hold | hnone
    · exact hold
    · rw [hnone] at hr
      cases hr
  · simpa only [modifyAgent, Function.update_of_ne hj] using hcall

theorem mem_of_dropOutstanding {cid j : Nat} {call : Nat × Option Nat}
    (hcall : call ∈ ((q.modifyAgent i fun qa =>
      { qa with outstandingCalls := qa.outstandingCalls.filter (·.1 ≠ cid) }).agents
        j).outstandingCalls) :
    call ∈ (q.agents j).outstandingCalls ∧ (j = i → call.1 ≠ cid) := by
  by_cases hj : j = i
  · subst hj
    simp only [modifyAgent, Function.update_self] at hcall
    obtain ⟨hmem, hne⟩ := List.mem_filter.mp hcall
    exact ⟨hmem, fun _ => of_decide_eq_true hne⟩
  · simp only [modifyAgent, Function.update_of_ne hj] at hcall
    exact ⟨hcall, fun heq => absurd heq hj⟩

theorem nodup_keys_setOutstanding {f : List (Nat × Option Nat) → List (Nat × Option Nat)}
    (hkeys : ∀ j, ((q.agents j).outstandingCalls.map Prod.fst).Nodup)
    (hf : ∀ calls, (calls.map Prod.fst).Nodup → ((f calls).map Prod.fst).Nodup) (i j : Nat) :
    (((q.modifyAgent i fun qa =>
      { qa with outstandingCalls := f qa.outstandingCalls }).agents j).outstandingCalls.map
        Prod.fst).Nodup := by
  by_cases hj : j = i
  · subst hj
    simp only [modifyAgent, Function.update_self]
    exact hf _ (hkeys j)
  · simp only [modifyAgent, Function.update_of_ne hj]
    exact hkeys j

namespace Created

theorem same (h : q.Created) (hs : SameRequests q q') : q'.Created := by
  constructor
  · rw [hs.timers, hs.requestCount]
    exact h.timers
  · intro o
    rw [hs.pendingJobs, hs.requestCount]
    exact h.pendingJobs o
  · intro i call hcall
    rw [hs.requestCount]
    exact h.outstandingCalls i call ((hs.outstandingCalls i).subset hcall)
  · rw [hs.responses, hs.requestCount]
    exact h.responses
  · rw [Qmf.sent, hs.traffic, hs.requestCount]
    exact h.sent

theorem requestCreate (h : q.Created) (o : ObjectId) (method : CString)
    (args : List (CString × Variant)) : (q.requestCreate o method args).Created where
  timers r hr := Nat.lt_succ_of_lt (h.timers r hr)
  pendingJobs o r hr := Nat.lt_succ_of_lt (h.pendingJobs o r hr)
  outstandingCalls i call hcall r hr := Nat.lt_succ_of_lt (h.outstandingCalls i call hcall r hr)
  responses x hx := Nat.lt_succ_of_lt (h.responses x hx)
  sent r hr := Nat.lt_succ_of_lt (h.sent r hr)

theorem schedule (h : q.Created) (hr : r < q.requestCount) : (q.schedule o r).Created := by
  refine { h with pendingJobs := fun o' x hx => ?_ }
  by_cases ho : o' = o
  · subst ho
    simp only [Qmf.schedule, modifyObject, Function.update_self] at hx
    rcases List.mem_append.mp hx with hx | hx
    · exact h.pendingJobs o' x hx
    · rw [List.mem_singleton.mp hx]
      exact hr
  · simp only [Qmf.schedule, modifyObject, Function.update_of_ne ho] at hx
    exact h.pendingJobs o' x hx

theorem sends {cid : Nat} (h : q.Created) (hr : r < q.requestCount)
    (hs : Sends q q' i r cid) : q'.Created := by
  constructor
  · rw [hs.timers, hs.requestCount]
    intro x hx
    rcases List.mem_append.mp hx with hx | hx
    · exact h.timers x hx
    · rw [List.mem_singleton.mp hx]
      exact hr
  · rw [hs.objects, hs.requestCount]
    exact h.pendingJobs
  · intro j call hcall x hx
    rw [hs.requestCount]
    rcases hs.mem_outstandingCalls hcall with hold | ⟨-, rfl⟩
    · exact h.outstandingCalls j call hold x hx
    · rw [← Option.some.inj hx]
      exact hr
  · rw [hs.responses, hs.requestCount]
    exact h.responses
  · rw [hs.sent, hs.requestCount]
    intro x hx
    rcases List.mem_cons.mp hx with rfl | hx
    · exact hr
    · exact h.sent x hx

theorem methodResponse (h : q.Created) (hr : r < q.requestCount) (rc : RpcResult) :
    (q.methodResponse r rc).Created := by
  refine { h with responses := fun x hx => ?_ }
  rcases List.mem_cons.mp hx with rfl | hx
  · exact hr
  · exact h.responses x hx

theorem unref (h : q.Created) (r : Nat) : (q.unref r).Created := { h with }

theorem expire (h : q.Created) (position : Nat) :
    { q with timers := q.timers.eraseIdx position }.Created :=
  { h with timers := fun r hr => h.timers r (List.mem_of_mem_eraseIdx hr) }

theorem setOutstanding (h : q.Created) (i : Nat)
    (f : List (Nat × Option Nat) → List (Nat × Option Nat))
    (hf : ∀ calls, ∀ call ∈ f calls, call ∈ calls ∨ call.2 = none) :
    (q.modifyAgent i fun qa =>
      { qa with outstandingCalls := f qa.outstandingCalls }).Created := by
  refine { h with outstandingCalls := fun j call hcall x hx => ?_ }
  exact h.outstandingCalls j call (mem_of_setOutstanding hf hcall hx) x hx

theorem logAnswer (h : q.Created) (i cid : Nat) (request : Option Nat) :
    (q.logAnswer i cid request).Created :=
  { h with }

end Created

theorem empty_created : empty.Created := by
  constructor <;> simp [empty, Qmf.sent]

def bar : CString := "bar".toList

def barServ : ObjectId := ⟨bar, .serv⟩

def barFound : ObjectId → ConnectEnv := fun _ => ⟨[⟨fun _ => bar⟩], false⟩

def asking : List Event :=
  [.transportConnect bar bar, .agentAdd bar barFound,
    .methodCallAsync barServ "status".toList [] ⟨[], 7⟩]

/-! ## Sent once -/

/-- The pending jobs that are flushed have not been sent before. -/
def FlushesScheduled (q : Qmf) : Event → Prop
  | .runPendingCalls position _ => ∀ o ∈ q.jobs[position]?, ∀ r ∈ (q.objects o).pendingJobs,
      (q.requests r).state = .scheduled
  | _ => True

instance decidableFlushesScheduled (q : Qmf) : ∀ e, Decidable (q.FlushesScheduled e)
  | .runPendingCalls _ _ => inferInstanceAs (Decidable (∀ o ∈ _, ∀ r ∈ _, _))
  | .transportConnect _ _ | .transportDisconnect _ | .methodCallAsync _ _ _ _
  | .methodCallTmo _ | .agentAdd _ _ | .agentDel _ | .answer _ _ _ | .event _ _ =>
      .isTrue trivial

structure SentOnce (q : Qmf) : Prop extends Created q where
  nodup : q.sent.Nodup
  live : ∀ call, .call call ∈ q.traffic → call.refCount ≠ 0
  started : ∀ r ∈ q.sent, (q.requests r).state ≠ .scheduled
  timersSent : ∀ r ∈ q.timers, r ∈ q.sent
  outstandingSent : ∀ i, ∀ call ∈ (q.agents i).outstandingCalls, ∀ r ∈ call.2, r ∈ q.sent
  pendingNodup : ∀ o, (q.objects o).pendingJobs.Nodup

namespace SentOnce

theorem same (h : q.SentOnce) (hs : SameRequests q q') : q'.SentOnce := by
  have hsent : q'.sent = q.sent := by rw [Qmf.sent, hs.traffic, Qmf.sent]
  refine ⟨h.toCreated.same hs, ?_, ?_, ?_, ?_, ?_, ?_⟩
  · rw [hsent]
    exact h.nodup
  · rw [hs.traffic]
    exact h.live
  · rw [hsent, hs.requests]
    exact h.started
  · rw [hsent, hs.timers]
    exact h.timersSent
  · intro i call hcall
    rw [hsent]
    exact h.outstandingSent i call ((hs.outstandingCalls i).subset hcall)
  · intro o
    rw [hs.pendingJobs]
    exact h.pendingNodup o

theorem requestCreate (h : q.SentOnce) (o : ObjectId) (method : CString)
    (args : List (CString × Variant)) : (q.requestCreate o method args).SentOnce := by
  refine { h with toCreated := h.toCreated.requestCreate o method args, started := ?_ }
  intro r hr
  have hold : (q.requestCreate o method args).requests r = q.requests r :=
    Function.update_of_ne (Nat.ne_of_lt (h.sent r hr)) _ _
  rw [hold]
  exact h.started r hr

theorem schedule (h : q.SentOnce) (hr : r < q.requestCount) (hsent : r ∉ q.sent)
    (hpending : ∀ o, r ∉ (q.objects o).pendingJobs) : (q.schedule o r).SentOnce := by
  refine { h with toCreated := h.toCreated.schedule hr, started := ?_, pendingNodup := ?_ }
  · intro x hx
    have hne : x ≠ r := fun heq => hsent (heq ▸ hx)
    have hold : (q.schedule o r).requests x = q.requests x := Function.update_of_ne hne _ _
    rw [hold]
    exact h.started x hx
  · intro o'
    by_cases ho : o' = o
    · subst ho
      simp only [Qmf.schedule, modifyRequest, modifyObject, Function.update_self]
      exact List.nodup_append.mpr ⟨h.pendingNodup o', List.nodup_singleton r, fun x hx y hy => by
        rw [List.mem_singleton.mp hy]
        exact fun heq => hpending o' (heq ▸ hx)⟩
    · simp only [Qmf.schedule, modifyRequest, modifyObject, Function.update_of_ne ho]
      exact h.pendingNodup o'

theorem sends {cid : Nat} (h : q.SentOnce) (hr : r < q.requestCount) (hsent : r ∉ q.sent)
    (hlive : (q.requests r).refCount ≠ 0) (hs : Sends q q' i r cid) : q'.SentOnce := by
  refine ⟨h.toCreated.sends hr hs, ?_, ?_, ?_, ?_, ?_, ?_⟩
  · rw [hs.sent]
    exact List.nodup_cons.mpr ⟨hsent, h.nodup⟩
  · intro call hcall
    obtain ⟨new, htraffic, -, -, -, hrefs⟩ := hs.traffic
    rw [htraffic] at hcall
    rcases List.mem_cons.mp hcall with heq | hold
    · rw [Traffic.call.inj heq, hrefs]
      exact hlive
    · exact h.live call hold
  · intro x hx
    rw [hs.sent] at hx
    by_cases hxr : x = r
    · rw [hxr, hs.state]
      simp
    · rw [hs.requests x hxr]
      exact h.started x ((List.mem_cons.mp hx).resolve_left hxr)
  · intro x hx
    rw [hs.timers] at hx
    rw [hs.sent]
    rcases List.mem_append.mp hx with hx | hx
    · exact List.mem_cons_of_mem _ (h.timersSent x hx)
    · exact List.mem_cons.mpr (Or.inl (List.mem_singleton.mp hx))
  · intro j call hcall x hx
    rw [hs.sent]
    rcases hs.mem_outstandingCalls hcall with hold | ⟨-, rfl⟩
    · exact List.mem_cons_of_mem _ (h.outstandingSent j call hold x hx)
    · exact List.mem_cons.mpr (Or.inl (Option.some.inj hx).symm)
  · rw [hs.objects]
    exact h.pendingNodup

theorem methodResponse (h : q.SentOnce) (hr : r < q.requestCount) (rc : RpcResult) :
    (q.methodResponse r rc).SentOnce := by
  refine { h with toCreated := h.toCreated.methodResponse hr rc, started := ?_ }
  intro x hx
  rw [methodResponse_state]
  split
  · simp
  · exact h.started x hx

theorem unref (h : q.SentOnce) (r : Nat) : (q.unref r).SentOnce := by
  refine { h with toCreated := h.toCreated.unref r, started := ?_ }
  intro x hx
  rw [unref_state]
  exact h.started x hx

theorem setOutstanding (h : q.SentOnce) (i : Nat)
    (f : List (Nat × Option Nat) → List (Nat × Option Nat))
    (hf : ∀ calls, ∀ call ∈ f calls, call ∈ calls ∨ call.2 = none) :
    (q.modifyAgent i fun qa =>
      { qa with outstandingCalls := f qa.outstandingCalls }).SentOnce := by
  refine { h with toCreated := h.toCreated.setOutstanding i f hf, outstandingSent := ?_ }
  intro j call hcall x hx
  exact h.outstandingSent j call (mem_of_setOutstanding hf hcall hx) x hx

theorem logAnswer (h : q.SentOnce) (i cid : Nat) (request : Option Nat) :
    (q.logAnswer i cid request).SentOnce :=
  { h with
    toCreated := h.toCreated.logAnswer i cid request
    live := fun call hcall => h.live call (by simpa [Qmf.logAnswer] using hcall) }

end SentOnce

/-! ## Held while needed -/

/-- A request is held by its timer until that runs out, and by its call until it is answered. -/
structure Held (q : Qmf) : Prop extends SentOnce q where
  refCount : ∀ r < q.requestCount, (q.requests r).refCount =
    (if r ∈ q.timers then 1 else 0) + if r ∈ q.answered then 0 else 1
  deleted : ∀ r < q.requestCount, (q.requests r).deleted = true → (q.requests r).refCount = 0
  timersNodup : q.timers.Nodup
  answeredSent : ∀ r ∈ q.answered, r ∈ q.sent
  keysNodup : ∀ i, ((q.agents i).outstandingCalls.map Prod.fst).Nodup
  unanswered : ∀ i, ∀ call ∈ (q.agents i).outstandingCalls, ∀ r ∈ call.2, r ∉ q.answered
  unique : ∀ i j, ∀ call ∈ (q.agents i).outstandingCalls,
    ∀ call' ∈ (q.agents j).outstandingCalls, ∀ r ∈ call.2, r ∈ call'.2 → i = j ∧ call.1 = call'.1

namespace Held

theorem same (h : q.Held) (hs : SameRequests q q') : q'.Held := by
  have hsent : q'.sent = q.sent := by rw [Qmf.sent, hs.traffic, Qmf.sent]
  have hanswered : q'.answered = q.answered := by rw [Qmf.answered, hs.traffic, Qmf.answered]
  have hcalls : ∀ {i call}, call ∈ (q'.agents i).outstandingCalls →
      call ∈ (q.agents i).outstandingCalls := fun hcall => (hs.outstandingCalls _).subset hcall
  refine ⟨h.toSentOnce.same hs, ?_, ?_, ?_, ?_, ?_, ?_, ?_⟩
  · rw [hs.requestCount, hs.requests, hs.timers, hanswered]
    exact h.refCount
  · rw [hs.requestCount, hs.requests]
    exact h.deleted
  · rw [hs.timers]
    exact h.timersNodup
  · rw [hanswered, hsent]
    exact h.answeredSent
  · exact fun i => (h.keysNodup i).sublist ((hs.outstandingCalls i).map _)
  · rw [hanswered]
    exact fun i call hcall => h.unanswered i call (hcalls hcall)
  · exact fun i j call hcall call' hcall' => h.unique i j call (hcalls hcall) call' (hcalls hcall')

theorem requestCreate (h : q.Held) (o : ObjectId) (method : CString)
    (args : List (CString × Variant)) : (q.requestCreate o method args).Held := by
  have hold : ∀ r < q.requestCount,
      (q.requestCreate o method args).requests r = q.requests r :=
    fun r hr => Function.update_of_ne (Nat.ne_of_lt hr) _ _
  have hnew : (q.requestCreate o method args).requests q.requestCount =
      ⟨1, false, .init, o, method, args⟩ := Function.update_self _ _ _
  refine { h with
    toSentOnce := h.toSentOnce.requestCreate o method args, refCount := ?_, deleted := ?_ }
  · intro r hr
    rcases Nat.lt_succ_iff_lt_or_eq.mp hr with hlt | rfl
    · rw [hold r hlt]
      exact h.refCount r hlt
    · have htimers : q.requestCount ∉ (q.requestCreate o method args).timers :=
        fun hmem => Nat.lt_irrefl _ (h.timers _ hmem)
      have hanswered : q.requestCount ∉ (q.requestCreate o method args).answered :=
        fun hmem => Nat.lt_irrefl _ (h.sent _ (h.answeredSent _ hmem))
      rw [hnew, if_neg htimers, if_neg hanswered]
  · intro r hr hdeleted
    rcases Nat.lt_succ_iff_lt_or_eq.mp hr with hlt | rfl
    · rw [hold r hlt] at hdeleted ⊢
      exact h.deleted r hlt hdeleted
    · rw [hnew] at hdeleted
      cases hdeleted

theorem refCount_of_not_sent (h : q.Held) (hr : r < q.requestCount) (hsent : r ∉ q.sent) :
    (q.requests r).refCount = 1 := by
  rw [h.refCount r hr, if_neg fun hmem => hsent (h.timersSent r hmem),
    if_neg fun hmem => hsent (h.answeredSent r hmem)]

theorem schedule (h : q.Held) (hr : r < q.requestCount) (hsent : r ∉ q.sent)
    (hpending : ∀ o, r ∉ (q.objects o).pendingJobs) : (q.schedule o r).Held := by
  have hrequest : ∀ x, ((q.schedule o r).requests x).refCount = (q.requests x).refCount ∧
      ((q.schedule o r).requests x).deleted = (q.requests x).deleted := by
    intro x
    by_cases hx : x = r
    · simp [Qmf.schedule, modifyRequest, modifyObject, hx]
    · simp [Qmf.schedule, modifyRequest, modifyObject, hx]
  refine { h with
    toSentOnce := h.toSentOnce.schedule hr hsent hpending, refCount := ?_, deleted := ?_ }
  · intro x hx
    rw [(hrequest x).1]
    exact h.refCount x hx
  · intro x hx hdeleted
    rw [(hrequest x).2] at hdeleted
    rw [(hrequest x).1]
    exact h.deleted x hx hdeleted

theorem sends {cid : Nat} (h : q.Held) (hr : r < q.requestCount) (hsent : r ∉ q.sent)
    (hs : Sends q q' i r cid) : q'.Held := by
  have hone := h.refCount_of_not_sent hr hsent
  have hlive : (q.requests r).refCount ≠ 0 := by
    rw [hone]
    exact Nat.one_ne_zero
  have hanswered : r ∉ q.answered := fun hmem => hsent (h.answeredSent r hmem)
  have htimer : r ∉ q.timers := fun hmem => hsent (h.timersSent r hmem)
  have hnotcalled : ∀ {j call}, call ∈ (q.agents j).outstandingCalls → r ∉ call.2 :=
    fun hcall hmem => hsent (h.outstandingSent _ _ hcall r hmem)
  refine ⟨h.toSentOnce.sends hr hsent hlive hs, ?_, ?_, ?_, ?_, ?_, ?_, ?_⟩
  · rw [hs.requestCount, hs.timers, hs.answered]
    intro x hx
    by_cases hxr : x = r
    · rw [hxr, hs.refCount, hone, if_pos (by simp), if_neg hanswered]
      rfl
    · have hmem : x ∈ q.timers ++ [r] ↔ x ∈ q.timers := by simp [hxr]
      rw [hs.requests x hxr, h.refCount x hx]
      simp only [hmem]
  · rw [hs.requestCount]
    intro x hx hdeleted
    by_cases hxr : x = r
    · rw [hxr, hs.deleted] at hdeleted
      exact absurd (h.deleted r hr hdeleted) hlive
    · rw [hs.requests x hxr] at hdeleted ⊢
      exact h.deleted x hx hdeleted
  · rw [hs.timers]
    refine List.nodup_append.mpr ⟨h.timersNodup, List.nodup_singleton r, fun x hx y hy heq => ?_⟩
    rw [List.mem_singleton.mp hy] at heq
    exact htimer (heq ▸ hx)
  · rw [hs.answered, hs.sent]
    exact fun x hx => List.mem_cons_of_mem _ (h.answeredSent x hx)
  · intro j
    rw [hs.outstandingCalls]
    split
    · exact nodup_keys_mapPut (h.keysNodup j)
    · exact h.keysNodup j
  · rw [hs.answered]
    intro j call hcall x hx
    rcases hs.mem_outstandingCalls hcall with hold | ⟨-, rfl⟩
    · exact h.unanswered j call hold x hx
    · rw [← Option.some.inj hx]
      exact hanswered
  · intro j k call hcall call' hcall' x hx hx'
    rcases hs.mem_outstandingCalls hcall with hold | ⟨rfl, rfl⟩ <;>
      rcases hs.mem_outstandingCalls hcall' with hold' | ⟨rfl, rfl⟩
    · exact h.unique j k call hold call' hold' x hx hx'
    · obtain rfl := Option.some.inj hx'
      exact absurd hx (hnotcalled hold)
    · obtain rfl := Option.some.inj hx
      exact absurd hx' (hnotcalled hold')
    · exact ⟨rfl, rfl⟩

theorem methodResponse (h : q.Held) (hr : r < q.requestCount) (rc : RpcResult) :
    (q.methodResponse r rc).Held := by
  refine { h with
    toSentOnce := h.toSentOnce.methodResponse hr rc, refCount := ?_, deleted := ?_ }
  · intro x hx
    rw [methodResponse_refCount]
    exact h.refCount x hx
  · intro x hx hdeleted
    rw [methodResponse_deleted] at hdeleted
    rw [methodResponse_refCount]
    exact h.deleted x hx hdeleted

theorem call {method : CString} {args : List (CString × Variant)} {reply : CallReply}
    (h : q.Held) (hcall : q.methodCallAsync o method args reply = .ok q') : q'.Held := by
  have hcreate := h.requestCreate o method args
  have hr : q.requestCount < (q.requestCreate o method args).requestCount := Nat.lt_succ_self _
  have hsent : q.requestCount ∉ (q.requestCreate o method args).sent :=
    fun hmem => Nat.lt_irrefl _ (h.sent _ hmem)
  unfold methodCallAsync at hcall
  split at hcall
  · cases hcall
  · split at hcall
    · obtain ⟨i, -, hs⟩ := send_ok hcall
      exact hcreate.sends hr hsent hs
    · cases hcall
      exact hcreate.schedule hr hsent fun o hmem => Nat.lt_irrefl _ (h.pendingJobs o _ hmem)

theorem flush {jobs : List Nat} {replies : Nat → CallReply} (h : q.Held)
    (hjobs : jobs ⊆ (q.objects o).pendingJobs) (hnodup : jobs.Nodup)
    (hscheduled : ∀ r ∈ jobs, (q.requests r).state = .scheduled)
    (hflush : jobs.foldlM (fun q r => q.send o r (replies r)) q = .ok q') : q'.Held := by
  refine (flush_invariant (I := fun q jobs => q.Held ∧
    jobs ⊆ (q.objects o).pendingJobs ∧ jobs.Nodup ∧
      ∀ r ∈ jobs, (q.requests r).state = .scheduled)
    ?_ ⟨h, hjobs, hnodup, hscheduled⟩ hflush).1
  rintro q r jobs mid i ⟨h, hjobs, hnodup, hscheduled⟩ hs
  obtain ⟨hnew, hnodup⟩ := List.nodup_cons.mp hnodup
  obtain ⟨hr, hjobs⟩ := List.cons_subset.mp hjobs
  have hsent : r ∉ q.sent := fun hmem => h.started r hmem (hscheduled r (.head _))
  refine ⟨h.sends (h.pendingJobs o r hr) hsent hs, ?_, hnodup, fun x hx => ?_⟩
  · rw [hs.objects]
    exact hjobs
  · rw [hs.requests x fun heq => hnew (heq ▸ hx)]
    exact hscheduled x (.tail _ hx)

theorem refCount_ne_zero_of_timer (h : q.Held) (hr : r ∈ q.timers) :
    (q.requests r).refCount ≠ 0 := by
  rw [h.refCount r (h.timers r hr), if_pos hr]
  omega

theorem refCount_ne_zero_of_call (h : q.Held) {call : Nat × Option Nat}
    (hcall : call ∈ (q.agents i).outstandingCalls) (hr : r ∈ call.2) :
    (q.requests r).refCount ≠ 0 := by
  rw [h.refCount r (h.outstandingCalls i call hcall r hr),
    if_neg (h.unanswered i call hcall r hr)]
  omega

theorem not_deleted (h : q.Held) (hr : r < q.requestCount)
    (hcount : (q.requests r).refCount ≠ 0) : (q.requests r).deleted = false :=
  Bool.eq_false_iff.mpr fun hdeleted => hcount (h.deleted r hr hdeleted)

theorem unref_refCount (h : q.Held) (hr : r < q.requestCount)
    (hcount : (q.requests r).refCount ≠ 0) {x : Nat} (hx : x < q.requestCount) :
    ((q.unref r).requests x).refCount = (q.requests x).refCount - (if x = r then 1 else 0) ∧
      (((q.unref r).requests x).deleted = true → ((q.unref r).requests x).refCount = 0) := by
  by_cases hxr : x = r
  · subst hxr
    obtain ⟨hrefs, hdeleted⟩ := unref_self q x
    rw [hrefs, hdeleted, h.not_deleted hr hcount, Cape.uint32Pred, if_neg hcount, if_pos rfl]
    simp
  · rw [unref_of_ne hxr, if_neg hxr]
    exact ⟨rfl, h.deleted x hx⟩

theorem dropTimer {position : Nat} (h : q.Held) (htimer : q.timers[position]? = some r) :
    ({ q with timers := q.timers.eraseIdx position }.unref r).Held := by
  obtain ⟨hlt, hr⟩ := List.getElem?_eq_some_iff.mp htimer
  have hmem : r ∈ q.timers := List.mem_of_getElem? htimer
  have hcount := h.refCount_ne_zero_of_timer hmem
  have herase : q.timers.eraseIdx position = q.timers.erase r := by
    rw [← h.timersNodup.erase_getElem position hlt, hr]
  have hexpired : { q with timers := q.timers.eraseIdx position }.SentOnce :=
    { h.toSentOnce with
      toCreated := h.toCreated.expire position
      timersSent := fun r hr => h.timersSent r (List.mem_of_mem_eraseIdx hr) }
  refine { h with
    toSentOnce := hexpired.unref r, refCount := ?_, deleted := ?_,
    timersNodup := h.timersNodup.eraseIdx position }
  · intro x hx
    refine (h.unref_refCount (h.timers r hmem) hcount hx).1.trans ?_
    have htimers : x ∈ q.timers.eraseIdx position ↔ x ≠ r ∧ x ∈ q.timers := by
      rw [herase]
      exact h.timersNodup.mem_erase_iff
    rw [h.refCount x hx]
    change _ = (if x ∈ q.timers.eraseIdx position then 1 else 0) +
      if x ∈ q.answered then 0 else 1
    by_cases hxr : x = r
    · subst hxr
      rw [if_neg fun hx => (htimers.mp hx).1 rfl, if_pos hmem, if_pos rfl]
      omega
    · simp [htimers, hxr]
  · exact fun x hx => (h.unref_refCount (h.timers r hmem) hcount hx).2

theorem dropCall {cid : Nat} (h : q.Held) (hcall : (cid, some r) ∈ (q.agents i).outstandingCalls) :
    (((q.logAnswer i cid (some r)).unref r).modifyAgent i fun qa =>
      { qa with outstandingCalls := qa.outstandingCalls.filter (·.1 ≠ cid) }).Held := by
  have hr := h.outstandingCalls i _ hcall r rfl
  have hsent : r ∈ q.sent := h.outstandingSent i _ hcall r rfl
  have hunanswered := h.unanswered i _ hcall r rfl
  have hcount := h.refCount_ne_zero_of_call hcall rfl
  have hanswered : (q.logAnswer i cid (some r)).answered = r :: q.answered := by
    simp [Qmf.answered, Qmf.logAnswer]
  refine ⟨((h.toSentOnce.logAnswer i cid (some r)).unref r).setOutstanding i
    (·.filter (·.1 ≠ cid)) fun _ _ hcall => Or.inl (List.mem_of_mem_filter hcall),
    ?_, ?_, h.timersNodup, ?_, nodup_keys_setOutstanding h.keysNodup
      (fun _ hnodup => hnodup.sublist (List.filter_sublist.map _)) i, ?_, ?_⟩
  · intro x hx
    refine (h.unref_refCount hr hcount hx).1.trans ?_
    rw [h.refCount x hx]
    change _ = (if x ∈ q.timers then 1 else 0) +
      if x ∈ (q.logAnswer i cid (some r)).answered then 0 else 1
    rw [hanswered]
    by_cases hxr : x = r
    · subst hxr
      simp [hunanswered]
    · simp [hxr]
  · exact fun x hx => (h.unref_refCount hr hcount hx).2
  · intro x hx
    change x ∈ (q.logAnswer i cid (some r)).answered at hx
    rw [hanswered] at hx
    rcases List.mem_cons.mp hx with rfl | hx
    · exact hsent
    · exact h.answeredSent x hx
  · intro j call hmem x hx
    obtain ⟨hold, hne⟩ := mem_of_dropOutstanding hmem
    change x ∉ (q.logAnswer i cid (some r)).answered
    rw [hanswered, List.mem_cons]
    rintro (rfl | hmem)
    · obtain ⟨hj, hcid⟩ := h.unique j i call hold _ hcall x hx rfl
      exact hne hj hcid
    · exact h.unanswered j call hold x hx hmem
  · intro j k call hmem call' hmem'
    exact h.unique j k call (mem_of_dropOutstanding hmem).1 call' (mem_of_dropOutstanding hmem').1

theorem logNull (h : q.Held) (i cid : Nat) : (q.logAnswer i cid none).Held := by
  have hanswered : (q.logAnswer i cid none).answered = q.answered := by
    simp [Qmf.answered, Qmf.logAnswer]
  refine ⟨h.toSentOnce.logAnswer i cid none, ?_, h.deleted, h.timersNodup, ?_, h.keysNodup, ?_,
    h.unique⟩
  · rw [hanswered]
    exact h.refCount
  · rw [hanswered]
    exact h.answeredSent
  · rw [hanswered]
    exact h.unanswered

theorem putNull (h : q.Held) (i cid : Nat) :
    (q.modifyAgent i fun qa =>
      { qa with outstandingCalls := mapPut Prod.fst qa.outstandingCalls (cid, none) }).Held := by
  have hf : ∀ calls : List (Nat × Option Nat), ∀ call ∈ mapPut Prod.fst calls (cid, none),
      call ∈ calls ∨ call.2 = none :=
    fun _ _ hcall => (mem_mapPut hcall).symm.imp_right fun hcall => by rw [hcall]
  refine { h with
    toSentOnce := h.toSentOnce.setOutstanding i (mapPut Prod.fst · (cid, none)) hf
    keysNodup := nodup_keys_setOutstanding h.keysNodup (fun _ => nodup_keys_mapPut) i
    unanswered := ?_, unique := ?_ }
  · intro j call hcall x hx
    exact h.unanswered j call (mem_of_setOutstanding hf hcall hx) x hx
  · intro j k call hcall call' hcall' x hx hx'
    exact h.unique j k call (mem_of_setOutstanding hf hcall hx) call'
      (mem_of_setOutstanding hf hcall' hx') x hx hx'

theorem expire {position : Nat} (h : q.Held) (htimer : q.timers[position]? = some r)
    (htimeout : { q with timers := q.timers.eraseIdx position }.methodCallTmo r = .ok q') :
    q'.Held := by
  rcases methodCallTmo_ok htimeout with ⟨-, rfl⟩ | ⟨-, rc, rfl⟩
  · exact h.dropTimer htimer
  · have hr := h.timers r (List.mem_of_getElem? htimer)
    exact (h.methodResponse hr rc).dropTimer htimer

theorem agentAnswer {cid : Nat} {exception : Bool} (h : q.Held)
    (hanswer : q.agentAnswer i cid exception = .ok q') : q'.Held := by
  rcases agentAnswer_ok hanswer with ⟨r, mid, hcall, hmid, rfl⟩ | ⟨-, rfl⟩ | ⟨-, rfl⟩
  · rcases processAnswer_ok hmid with rfl | ⟨-, rc, rfl⟩
    · exact h.dropCall hcall
    · have hr := h.outstandingCalls i _ hcall r rfl
      exact (h.methodResponse hr rc).dropCall hcall
  · exact h.logNull i cid
  · exact (h.logNull i cid).putNull i cid

theorem cancelCalls {calls : List (Nat × Option Nat)} (h : q.Held)
    (hcreated : ∀ call ∈ calls, ∀ r ∈ call.2, r < q.requestCount)
    (hcancel : q.cancelCalls calls = .ok q') : q'.Held := by
  refine (cancelCalls_invariant (I := fun q calls => q.Held ∧
    ∀ call ∈ calls, ∀ r ∈ call.2, r < q.requestCount) ?_ ⟨h, hcreated⟩ hcancel).1
  rintro q call calls r ⟨h, hcreated⟩ hcall
  exact ⟨h.methodResponse (hcreated call (.head _) r hcall) _,
    fun x hx => hcreated x (.tail _ hx)⟩

theorem step {e : Event} (h : q.Held) (hflushes : q.FlushesScheduled e)
    (hstep : q.step e = .ok q') : q'.Held := by
  refine step_keeps (P := FlushesScheduled) same call ?_ ?_ ?_ ?_ h hflushes hstep
  · intro q q' position replies o h hflushes hjob hflush
    have hjobs : { q with jobs := q.jobs.eraseIdx position }.Held :=
      h.same { SameRequests.refl q with }
    exact hjobs.flush (List.Subset.refl _) (h.pendingNodup o) (hflushes o hjob) hflush
  · intro q q' position r h htimer htimeout
    exact h.expire htimer htimeout
  · intro q q' name cid exception i h _ _ hanswer
    exact h.agentAnswer hanswer
  · intro q q' name i h _ _ hcancel
    have hnames : { q with names := Function.update q.names name none }.Held :=
      h.same { SameRequests.refl q with }
    exact hnames.cancelCalls (h.outstandingCalls i) hcancel

theorem nodup_requests (h : q.Held) (i : Nat) :
    ((q.agents i).outstandingCalls.filterMap Prod.snd).Nodup := by
  have hkeys := List.pairwise_map.mp (h.keysNodup i)
  refine List.pairwise_filterMap.mpr (hkeys.imp_of_mem fun hcall hcall' hne r hr r' hr' heq => ?_)
  rw [← heq] at hr'
  exact hne (h.unique i i _ hcall _ hcall' r hr hr').2

end Held

theorem empty_held : empty.Held := by
  refine ⟨⟨empty_created, ?_, ?_, ?_, ?_, ?_, ?_⟩, ?_, ?_, ?_, ?_, ?_, ?_, ?_⟩ <;>
    simp [empty, Qmf.sent, Qmf.answered]

/-- As long as jobs are flushed once, every request is sent once, before its release. -/
theorem sent_once_of_flushesScheduled (hflushes : Along step FlushesScheduled empty events)
    (hrun : run step empty events = .ok q) :
    q.sent.Nodup ∧ ∀ call, .call call ∈ q.traffic → call.refCount ≠ 0 := by
  have h := run_invariant Held.step empty_held hflushes hrun
  exact ⟨h.nodup, h.live⟩

def waiting : List Event :=
  [.transportConnect bar bar, .methodCallAsync barServ "start".toList [] ⟨[], 7⟩,
    .agentAdd bar barFound, .runPendingCalls 1 fun _ => ⟨[], 7⟩]

theorem sent_once_of_flushesScheduled_waiting :
    ∃ q, run step empty (waiting ++ [.answer bar 7 false]) = .ok q ∧ q.sent = [0] ∧
      q.sent.Nodup ∧ ∀ call, .call call ∈ q.traffic → call.refCount ≠ 0 := by
  obtain ⟨q, hrun, hsent⟩ : ∃ q, run step empty (waiting ++ [.answer bar 7 false]) = .ok q ∧
      q.sent = [0] := exists_run (by decide +kernel)
  exact ⟨q, hrun, hsent, sent_once_of_flushesScheduled (by decide +kernel) hrun⟩

/--
The transport is disconnected and the object finds its agent again: the request is sent
again, here after it was answered and released.
-/
theorem sent_again_after_reconnect :
    ∃ q, run step empty (waiting ++ [.answer bar 7 false, .methodCallTmo 0,
        .transportDisconnect bar, .agentAdd bar barFound,
        .runPendingCalls 3 fun _ => ⟨[], 8⟩]) = .ok q ∧
      q.sent = [0, 0] ∧
      q.traffic.head? = some (.call
        { agent := 0, cid := 8, request := 0, refCount := 0, method := "start".toList
          inArgs := [] }) :=
  exists_run (by decide +kernel)

/-! ## No other fault -/

theorem send_ne_error {f : QmfFault} (hf : f ≠ .nullAgent) (q : Qmf) (o : ObjectId) (r : Nat)
    (reply : CallReply) : q.send o r reply ≠ .error f := by
  unfold send
  split
  · exact fun heq => hf (Except.error.inj heq).symm
  · simp

theorem flush_ne_error {f : QmfFault} (hf : f ≠ .nullAgent) (jobs : List Nat)
    (replies : Nat → CallReply) :
    jobs.foldlM (fun q r => q.send o r (replies r)) q ≠ .error f := by
  induction jobs generalizing q with
  | nil => simp [pure, Except.pure]
  | cons r jobs ih =>
      rw [List.foldlM_cons]
      exact bind_ne_error (send_ne_error hf q o r _) fun _ _ => ih

theorem methodCallTmo_ne_error {f : QmfFault} (h : (q.requests r).deleted = false) :
    q.methodCallTmo r ≠ .error f := by
  unfold methodCallTmo
  rw [if_neg (by simp [h])]
  split <;> simp

theorem processAnswer_ne_error {f : QmfFault} {exception : Bool}
    (h : (q.requests r).deleted = false) : q.processAnswer r exception ≠ .error f := by
  unfold processAnswer
  rw [if_neg (by simp [h])]
  split
  · simp
  · split <;> simp

theorem cancelCalls_ne_error {f : QmfFault} {calls : List (Nat × Option Nat)}
    (hnull : f = .nullRequest → ∀ call ∈ calls, call.2 ≠ none)
    (h : ∀ call ∈ calls, ∀ r ∈ call.2, (q.requests r).deleted = false) :
    q.cancelCalls calls ≠ .error f := by
  unfold cancelCalls
  induction calls generalizing q with
  | nil => simp [pure, Except.pure]
  | cons call calls ih =>
      rw [List.foldlM_cons]
      cases hr : call.2 with
      | none =>
          intro heq
          exact hnull (Except.error.inj heq).symm call (.head _) hr
      | some r =>
          simp only [h call (.head _) r hr, Bool.false_eq_true, if_false]
          refine ih (fun hf call hcall => hnull hf call (.tail _ hcall)) fun call hcall x hx => ?_
          rw [methodResponse_deleted]
          exact h call (.tail _ hcall) x hx

theorem Held.step_ne_error {f : QmfFault} (h : q.Held) (hagent : f ≠ .nullAgent)
    (hassert : f ≠ .assertion)
    (hnull : f = .nullRequest → ∀ i, ∀ call ∈ (q.agents i).outstandingCalls, call.2 ≠ none)
    (e : Event) : q.step e ≠ .error f := by
  cases e with
  | transportConnect a uuid => simp [Qmf.step]
  | transportDisconnect a => simp [Qmf.step]
  | methodCallAsync o method args reply =>
      simp only [Qmf.step, methodCallAsync]
      split
      · split
        · exact fun heq => hassert (Except.error.inj heq).symm
        · split
          · exact send_ne_error hagent _ _ _ _
          · simp
      · simp
  | runPendingCalls position replies =>
      simp only [Qmf.step]
      split
      · exact flush_ne_error hagent _ _
      · simp
  | methodCallTmo position =>
      simp only [Qmf.step]
      split
      case h_1 r htimer =>
        have hr := List.mem_of_getElem? htimer
        exact methodCallTmo_ne_error
          (h.not_deleted (h.timers r hr) (h.refCount_ne_zero_of_timer hr))
      · simp
  | agentAdd name env => simp [Qmf.step]
  | agentDel name =>
      simp only [Qmf.step, agentDel]
      split
      · simp
      case h_2 i _ =>
        refine bind_ne_error (cancelCalls_ne_error (fun hf => hnull hf i) ?_) fun _ _ => by
          simp [pure, Except.pure]
        intro call hcall r hr
        exact h.not_deleted (h.outstandingCalls i call hcall r hr)
          (h.refCount_ne_zero_of_call hcall hr)
  | answer name cid exception =>
      simp only [Qmf.step]
      split
      case h_1 i _ =>
        unfold Qmf.agentAnswer
        split
        case h_1 r hfind =>
          have hcall := List.mem_of_find?_eq_some hfind
          refine bind_ne_error (processAnswer_ne_error ?_) fun _ _ => by simp [pure, Except.pure]
          exact h.not_deleted (h.outstandingCalls i _ hcall r rfl)
            (h.refCount_ne_zero_of_call hcall rfl)
        · simp
        · simp
      · simp
  | event name offline =>
      simp only [Qmf.step]
      split <;> simp

end Qmf

end PacemakerCloud

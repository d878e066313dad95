import PacemakerCloud.Foundation.Run
import PacemakerCloud.Qmf

/-!
# What the functions of the console do

A request is created, sent, answered and released; all other functions move objects
between agents.  One lemma says what each function does to the requests, and one what it
does to the objects.
-/

namespace PacemakerCloud

open Foundation

namespace Qmf

variable {q q' q'' : Qmf} {o : ObjectId} {i r : Nat}

def sent (q : Qmf) : List Nat :=
  q.traffic.filterMap fun
    | .call call => some call.request
    | .answer _ _ _ => none

def answered (q : Qmf) : List Nat :=
  q.traffic.filterMap fun
    | .call _ => none
    | .answer _ _ request => request

theorem cancelCalls_invariant {I : Qmf → List (Nat × Option Nat) → Prop}
    (keep : ∀ {q call calls r}, I q (call :: calls) → call.2 = some r →
      I (q.methodResponse r .cancelled) calls)
    {calls : List (Nat × Option Nat)} (h : I q calls) (hcancel : q.cancelCalls calls = .ok q') :
    I q' [] := by
  refine foldlM_invariant (I := I) (fun {q call calls mid} h hmid => ?_) h hcancel
  split at hmid
  case h_1 => cases hmid
  case h_2 r hcall =>
    split at hmid
    · cases hmid
    · rw [← Except.ok.inj hmid]
      exact keep h hcall

/-! ## Functions that leave the requests alone -/

structure SameRequests (q q' : Qmf) : Prop where
  requests : q'.requests = q.requests
  requestCount : q'.requestCount = q.requestCount
  timers : q'.timers = q.timers
  pendingJobs : ∀ o, (q'.objects o).pendingJobs = (q.objects o).pendingJobs
  outstandingCalls : ∀ i, (q'.agents i).outstandingCalls.Sublist (q.agents i).outstandingCalls
  traffic : q'.traffic = q.traffic
  responses : q'.responses = q.responses

namespace SameRequests

theorem refl (q : Qmf) : SameRequests q q :=
  ⟨rfl, rfl, rfl, fun _ => rfl, fun _ => List.Sublist.refl _, rfl, rfl⟩

theorem trans (h : SameRequests q q') (h' : SameRequests q' q'') : SameRequests q q'' where
  requests := h'.requests.trans h.requests
  requestCount := h'.requestCount.trans h.requestCount
  timers := h'.timers.trans h.timers
  pendingJobs o := (h'.pendingJobs o).trans (h.pendingJobs o)
  outstandingCalls i := (h'.outstandingCalls i).trans (h.outstandingCalls i)
  traffic := h'.traffic.trans h.traffic
  responses := h'.responses.trans h.responses

theorem modifyObject (q : Qmf) (o : ObjectId) {f : QmfObject → QmfObject}
    (hf : ∀ obj, (f obj).pendingJobs = obj.pendingJobs) :
    SameRequests q (q.modifyObject o f) := by
  refine { refl q with pendingJobs := fun o' => ?_ }
  by_cases ho : o' = o
  · subst ho
    simp [Qmf.modifyObject, hf]
  · simp [Qmf.modifyObject, Function.update_of_ne ho]

theorem modifyAgent (q : Qmf) (i : Nat) {f : QmfAgent → QmfAgent}
    (hf : ∀ qa, (f qa).outstandingCalls = qa.outstandingCalls) :
    SameRequests q (q.modifyAgent i f) := by
  refine { refl q with outstandingCalls := fun j => ?_ }
  by_cases hj : j = i
  · subst hj
    simp [Qmf.modifyAgent, hf]
  · simp [Qmf.modifyAgent, Function.update_of_ne hj]

theorem disconnect (q : Qmf) (o : ObjectId) : SameRequests q (q.disconnect o) :=
  modifyObject q o fun _ => rfl

theorem stateOnlineToOffline (q : Qmf) (a : CString) :
    SameRequests q (q.stateOnlineToOffline a) :=
  ((disconnect q _).trans (disconnect _ _)).trans (disconnect _ _)

theorem setConnected (q : Qmf) (o : ObjectId) : SameRequests q (q.setConnected o) :=
  { modifyObject q o (f := ({ · with connected := true })) fun _ => rfl with }

theorem connect (q : Qmf) (o : ObjectId) (env : ConnectEnv) :
    SameRequests q (q.connect o env).1 := by
  unfold Qmf.connect
  split
  · exact refl q
  · split
    · by_cases hoffline : env.offline
      · simpa [hoffline] using (setConnected q o).trans (stateOnlineToOffline _ _)
      · simpa [hoffline] using setConnected q o
    · exact refl q

theorem agentGet (q : Qmf) (name : CString) : SameRequests q (q.agentGet name).1 := by
  unfold Qmf.agentGet
  split
  · exact refl q
  · refine { refl q with outstandingCalls := fun j => ?_ }
    by_cases hj : j = q.agentCount
    · simp [hj]
    · simp [Function.update_of_ne hj]

theorem agentObjectAdd (q : Qmf) (i : Nat) (o : ObjectId) :
    SameRequests q (q.agentObjectAdd i o) :=
  (modifyAgent q i (f := fun qa => { qa with objects := qa.objects ++ [o] }) fun _ => rfl).trans
    (modifyObject _ o fun _ => rfl)

theorem agentOffer (q : Qmf) (name : CString) (o : ObjectId) (env : ConnectEnv) :
    SameRequests q (q.agentOffer name o env) := by
  have hconnect := connect q o env
  unfold Qmf.agentOffer
  split
  case h_1 q' heq =>
    rw [heq] at hconnect
    exact hconnect.trans ((agentGet q' name).trans (agentObjectAdd _ _ o))
  case h_2 q' heq =>
    rw [heq] at hconnect
    exact hconnect

theorem agentAdd (q : Qmf) (name : CString) (env : ObjectId → ConnectEnv) :
    SameRequests q (q.agentAdd name env) :=
  foldl_rel refl trans (fun q o => agentOffer q name o (env o)) q.muxObjects q

theorem agentEvent (q : Qmf) (i : Nat) (offline : CString → Bool) :
    SameRequests q (q.agentEvent i offline) := by
  refine foldl_rel refl trans (fun q o => ?_) _ q
  split
  · exact stateOnlineToOffline q _
  · exact refl q

theorem transportConnect (q : Qmf) (a uuid : CString) :
    SameRequests q (q.transportConnect a uuid) := by
  unfold Qmf.transportConnect
  split
  · exact refl q
  · refine { refl q with pendingJobs := fun o => ?_ }
    by_cases ho : o.assembly = a <;> simp [ho]

theorem agentForget (q : Qmf) (i : Nat) (objects : List ObjectId) :
    SameRequests q ((objects.foldl Qmf.disconnect q).modifyAgent i ({ · with deleted := true })) :=
  (foldl_rel refl trans disconnect objects q).trans (modifyAgent _ i fun _ => rfl)

end SameRequests

/-! ## Functions that leave the objects alone -/

structure SameObjects (q q' : Qmf) : Prop where
  connected : ∀ o, (q'.objects o).connected = (q.objects o).connected
  qa : ∀ o, (q'.objects o).qa = (q.objects o).qa
  lastAgent : ∀ o, (q'.objects o).lastAgent = (q.objects o).lastAgent
  objects : ∀ i, (q'.agents i).objects = (q.agents i).objects
  deleted : ∀ i, (q'.agents i).deleted = (q.agents i).deleted
  agentCount : q'.agentCount = q.agentCount
  names : q'.names = q.names

namespace SameObjects

theorem refl (q : Qmf) : SameObjects q q :=
  ⟨fun _ => rfl, fun _ => rfl, fun _ => rfl, fun _ => rfl, fun _ => rfl, rfl, rfl⟩

theorem trans (h : SameObjects q q') (h' : SameObjects q' q'') : SameObjects q q'' where
  connected o := (h'.connected o).trans (h.connected o)
  qa o := (h'.qa o).trans (h.qa o)
  lastAgent o := (h'.lastAgent o).trans (h.lastAgent o)
  objects i := (h'.objects i).trans (h.objects i)
  deleted i := (h'.deleted i).trans (h.deleted i)
  agentCount := h'.agentCount.trans h.agentCount
  names := h'.names.trans h.names

theorem setOutstanding (q : Qmf) (i : Nat)
    (f : List (Nat × Option Nat) → List (Nat × Option Nat)) :
    SameObjects q (q.modifyAgent i fun qa =>
      { qa with outstandingCalls := f qa.outstandingCalls }) := by
  refine { refl q with objects := ?_, deleted := ?_ } <;>
  · intro j
    by_cases hj : j = i
    · subst hj
      simp [modifyAgent]
    · simp [modifyAgent, Function.update_of_ne hj]

theorem setPending (q : Qmf) (o : ObjectId) (f : List Nat → List Nat) :
    SameObjects q (q.modifyObject o fun obj => { obj with pendingJobs := f obj.pendingJobs }) := by
  refine { refl q with connected := ?_, qa := ?_, lastAgent := ?_ } <;>
  · intro o'
    by_cases ho : o' = o
    · subst ho
      simp [modifyObject]
    · simp [modifyObject, Function.update_of_ne ho]

theorem send {reply : CallReply} (h : q.send o r reply = .ok q') : SameObjects q q' := by
  unfold Qmf.send at h
  split at h
  case h_1 => cases h
  case h_2 i _ =>
    cases h
    have hrequest : SameObjects q
        (q.modifyRequest r ({ · with args := (schemaArguments reply.schema (q.requests r)).2 })) :=
      { refl q with }
    exact (hrequest.trans (setOutstanding _ i (mapPut Prod.fst · (reply.cid, some r)))).trans
      { refl _ with }

theorem runPendingCalls {jobs : List Nat} {replies : Nat → CallReply}
    (h : jobs.foldlM (fun q r => q.send o r (replies r)) q = .ok q') : SameObjects q q' :=
  foldlM_invariant (I := fun mid _ => SameObjects q mid)
    (fun hmid hsend => hmid.trans (send hsend)) (refl q) h

theorem methodCallAsync {method : CString} {args : List (CString × Variant)}
    {reply : CallReply} (h : q.methodCallAsync o method args reply = .ok q') :
    SameObjects q q' := by
  have hcreate : SameObjects q (q.requestCreate o method args) := { refl q with }
  unfold Qmf.methodCallAsync at h
  split at h
  · cases h
  · split at h
    · exact hcreate.trans (send h)
    · cases h
      have hscheduled : SameObjects (q.requestCreate o method args)
          ((q.requestCreate o method args).modifyRequest q.requestCount
            ({ · with state := .scheduled })) := { refl _ with }
      exact hcreate.trans (hscheduled.trans (setPending _ o (· ++ [q.requestCount])))

theorem methodCallTmo (h : q.methodCallTmo r = .ok q') : SameObjects q q' := by
  unfold Qmf.methodCallTmo at h
  split at h
  · cases h
  · cases hstate : (q.requests r).state <;> rw [hstate] at h <;> cases h <;> exact { refl q with }

theorem processAnswer {exception : Bool} (h : q.processAnswer r exception = .ok q') :
    SameObjects q q' := by
  unfold Qmf.processAnswer at h
  split at h
  · cases h
  · split at h
    · cases h
      exact { refl q with }
    · split at h <;> cases h <;> exact { refl q with }

theorem agentAnswer {cid : Nat} {exception : Bool}
    (h : q.agentAnswer i cid exception = .ok q') : SameObjects q q' := by
  have hlog : ∀ request, SameObjects q (q.logAnswer i cid request) := fun _ => { refl q with }
  unfold Qmf.agentAnswer at h
  split at h
  · obtain ⟨mid, hmid, hend⟩ := bind_eq_ok.mp h
    rw [← Except.ok.inj hend]
    exact ((hlog _).trans (processAnswer hmid)).trans
      (setOutstanding _ i (·.filter (·.1 ≠ cid)))
  · cases h
    exact hlog none
  · cases h
    exact (hlog none).trans (setOutstanding _ i (mapPut Prod.fst · (cid, none)))

theorem cancelCalls {calls : List (Nat × Option Nat)} (h : q.cancelCalls calls = .ok q') :
    SameObjects q q' :=
  cancelCalls_invariant (I := fun mid _ => SameObjects q mid)
    (fun hmid _ => hmid.trans { refl _ with }) (refl q) h

theorem transportConnect (q : Qmf) (a uuid : CString) :
    SameObjects q (q.transportConnect a uuid) := by
  unfold Qmf.transportConnect
  split
  · exact refl q
  · refine { refl q with connected := ?_, qa := ?_, lastAgent := ?_ } <;>
    · intro o
      by_cases ho : o.assembly = a <;> simp [ho]

end SameObjects

/-! ## Answering and sending -/

@[simp] theorem methodResponse_state (q : Qmf) (r x : Nat) (rc : RpcResult) :
    ((q.methodResponse r rc).requests x).state =
      if x = r then .completed else (q.requests x).state := by
  by_cases hx : x = r
  · simp [methodResponse, modifyRequest, hx]
  · simp [methodResponse, modifyRequest, hx]

@[simp] theorem methodResponse_refCount (q : Qmf) (r x : Nat) (rc : RpcResult) :
    ((q.methodResponse r rc).requests x).refCount = (q.requests x).refCount := by
  by_cases hx : x = r
  · simp [methodResponse, modifyRequest, hx]
  · simp [methodResponse, modifyRequest, hx]

@[simp] theorem methodResponse_deleted (q : Qmf) (r x : Nat) (rc : RpcResult) :
    ((q.methodResponse r rc).requests x).deleted = (q.requests x).deleted := by
  by_cases hx : x = r
  · simp [methodResponse, modifyRequest, hx]
  · simp [methodResponse, modifyRequest, hx]

@[simp] theorem unref_state (q : Qmf) (r x : Nat) :
    ((q.unref r).requests x).state = (q.requests x).state := by
  by_cases hx : x = r
  · simp [unref, modifyRequest, hx]
  · simp [unref, modifyRequest, hx]

theorem unref_of_ne {x : Nat} (h : x ≠ r) (q : Qmf) :
    (q.unref r).requests x = q.requests x := by
  simp [unref, modifyRequest, h]

theorem unref_self (q : Qmf) (r : Nat) :
    ((q.unref r).requests r).refCount = Cape.uint32Pred (q.requests r).refCount ∧
      ((q.unref r).requests r).deleted =
        ((q.requests r).deleted || Cape.uint32Pred (q.requests r).refCount = 0) := by
  simp [unref, modifyRequest]

theorem methodCallTmo_ok (h : q.methodCallTmo r = .ok q') :
    (q.requests r).state = .completed ∧ q' = q.unref r ∨
      (q.requests r).state ≠ .completed ∧ ∃ rc, q' = (q.methodResponse r rc).unref r := by
  unfold methodCallTmo at h
  split at h
  · cases h
  · cases hstate : (q.requests r).state with
    | completed =>
        rw [hstate] at h
        exact Or.inl ⟨rfl, (Except.ok.inj h).symm⟩
    | scheduled | init | running =>
        rw [hstate] at h
        exact Or.inr ⟨by simp, _, (Except.ok.inj h).symm⟩

theorem processAnswer_ok {exception : Bool} (h : q.processAnswer r exception = .ok q') :
    q' = q.unref r ∨
      (exception = true ∨ (q.requests r).state = .running) ∧
        ∃ rc, q' = (q.methodResponse r rc).unref r := by
  unfold processAnswer at h
  split at h
  · cases h
  · split at h
    case isTrue hexception =>
      cases h
      exact Or.inr ⟨Or.inl hexception, _, rfl⟩
    · split at h
      case isTrue hstate =>
        cases h
        exact Or.inr ⟨Or.inr hstate, _, rfl⟩
      · cases h
        exact Or.inl rfl

structure Sends (q q' : Qmf) (i r : Nat) (cid : Nat) : Prop where
  requests : ∀ x, x ≠ r → q'.requests x = q.requests x
  state : (q'.requests r).state = .running
  refCount : (q'.requests r).refCount = ((q.requests r).refCount + 1) % 2 ^ 32
  deleted : (q'.requests r).deleted = (q.requests r).deleted
  requestCount : q'.requestCount = q.requestCount
  timers : q'.timers = q.timers ++ [r]
  objects : q'.objects = q.objects
  outstandingCalls : ∀ j, (q'.agents j).outstandingCalls =
    if j = i then mapPut Prod.fst (q.agents j).outstandingCalls (cid, some r)
    else (q.agents j).outstandingCalls
  traffic : ∃ call, q'.traffic = .call call :: q.traffic ∧ call.agent = i ∧ call.cid = cid ∧
    call.request = r ∧ call.refCount = (q.requests r).refCount
  responses : q'.responses = q.responses

theorem send_ok {reply : CallReply} (h : q.send o r reply = .ok q') :
    ∃ i, (q.objects o).qa = some i ∧ Sends q q' i r reply.cid := by
  unfold send at h
  split at h
  case h_1 => cases h
  case h_2 i hqa =>
    cases h
    refine ⟨i, hqa, ?_, ?_, ?_, ?_, rfl, rfl, rfl, ?_, ⟨_, rfl, rfl, rfl, rfl, rfl⟩, rfl⟩
    · intro x hx
      simp [ref, callMethodAsync, modifyRequest, modifyAgent, hx]
    · simp [ref, callMethodAsync, modifyRequest, modifyAgent]
    · simp [ref, callMethodAsync, modifyRequest, modifyAgent]
    · simp [ref, callMethodAsync, modifyRequest, modifyAgent]
    · intro j
      by_cases hj : j = i
      · subst hj
        simp [ref, callMethodAsync, modifyRequest, modifyAgent]
      · simp [ref, callMethodAsync, modifyRequest, modifyAgent, hj]

namespace Sends

variable {cid : Nat}

theorem mem_outstandingCalls (h : Sends q q' i r cid) {j : Nat} {call : Nat × Option Nat}
    (hcall : call ∈ (q'.agents j).outstandingCalls) :
    call ∈ (q.agents j).outstandingCalls ∨ j = i ∧ call = (cid, some r) := by
  rw [h.outstandingCalls] at hcall
  split at hcall
  case isTrue hj => exact (mem_mapPut hcall).symm.imp_right fun heq => ⟨hj, heq⟩
  case isFalse => exact Or.inl hcall

theorem sent (h : Sends q q' i r cid) : q'.sent = r :: q.sent := by
  obtain ⟨call, htraffic, -, -, hrequest, -⟩ := h.traffic
  simp [Qmf.sent, htraffic, hrequest]

theorem answered (h : Sends q q' i r cid) : q'.answered = q.answered := by
  obtain ⟨call, htraffic, -⟩ := h.traffic
  simp [Qmf.answered, htraffic]

end Sends

theorem flush_invariant {replies : Nat → CallReply} {I : Qmf → List Nat → Prop}
    (keep : ∀ {q r jobs q' i}, I q (r :: jobs) → Sends q q' i r (replies r).cid → I q' jobs)
    {jobs : List Nat} (h : I q jobs)
    (hflush : jobs.foldlM (fun q r => q.send o r (replies r)) q = .ok q') : I q' [] := by
  refine foldlM_invariant (I := I) (fun h hsend => ?_) h hflush
  obtain ⟨i, -, hs⟩ := send_ok hsend
  exact keep h hs

theorem agentAnswer_ok {cid : Nat} {exception : Bool}
    (h : q.agentAnswer i cid exception = .ok q') :
    (∃ r mid, (cid, some r) ∈ (q.agents i).outstandingCalls ∧
      (q.logAnswer i cid (some r)).processAnswer r exception = .ok mid ∧
      q' = mid.modifyAgent i fun qa =>
        { qa with outstandingCalls := qa.outstandingCalls.filter (·.1 ≠ cid) }) ∨
    (cid, none) ∈ (q.agents i).outstandingCalls ∧ q' = q.logAnswer i cid none ∨
    (∀ call ∈ (q.agents i).outstandingCalls, call.1 ≠ cid) ∧
      q' = (q.logAnswer i cid none).modifyAgent i fun qa =>
        { qa with outstandingCalls := mapPut Prod.fst qa.outstandingCalls (cid, none) } := by
  unfold agentAnswer at h
  split at h
  case h_1 key r hfind =>
    obtain rfl : key = cid := by simpa using List.find?_some hfind
    obtain ⟨mid, hmid, hend⟩ := bind_eq_ok.mp h
    exact Or.inl ⟨r, mid, List.mem_of_find?_eq_some hfind, hmid, (Except.ok.inj hend).symm⟩
  case h_2 key hfind =>
    obtain rfl : key = cid := by simpa using List.find?_some hfind
    exact Or.inr (Or.inl ⟨List.mem_of_find?_eq_some hfind, (Except.ok.inj h).symm⟩)
  case h_3 hfind =>
    refine Or.inr (Or.inr ⟨fun call hcall hcid => ?_, (Except.ok.inj h).symm⟩)
    exact List.find?_eq_none.mp hfind call hcall (decide_eq_true hcid)

/--
The rule for what is kept about the requests: every event calls a method, flushes the
pending jobs, times out, answers or cancels calls, or leaves the requests alone.
-/
theorem step_keeps {I : Qmf → Prop} {P : Qmf → Event → Prop}
    (same : ∀ {q q'}, I q → SameRequests q q' → I q')
    (call : ∀ {q q' o method args reply}, I q →
      q.methodCallAsync o method args reply = .ok q' → I q')
    (flush : ∀ {q q' position replies o}, I q → P q (.runPendingCalls position replies) →
      q.jobs[position]? = some o →
        { q with jobs := q.jobs.eraseIdx position }.runPendingCalls o replies = .ok q' → I q')
    (timeout : ∀ {q q' : Qmf} {position r}, I q → q.timers[position]? = some r →
      { q with timers := q.timers.eraseIdx position }.methodCallTmo r = .ok q' → I q')
    (answer : ∀ {q q' name cid exception i}, I q → P q (.answer name cid exception) →
      q.names name = some i → q.agentAnswer i cid exception = .ok q' → I q')
    (cancel : ∀ {q q' name i}, I q → P q (.agentDel name) → q.names name = some i →
      { q with names := Function.update q.names name none }.cancelCalls
        (q.agents i).outstandingCalls = .ok q' → I q')
    {e : Event} (hI : I q) (hP : P q e) (hstep : q.step e = .ok q') : I q' := by
  cases e with
  | transportConnect a uuid =>
      cases hstep
      exact same hI (.transportConnect q a uuid)
  | transportDisconnect a =>
      cases hstep
      exact same hI (.stateOnlineToOffline q a)
  | methodCallAsync o method args reply =>
      simp only [step] at hstep
      split at hstep
      · exact call hI hstep
      · cases hstep
        exact hI
  | runPendingCalls position replies =>
      simp only [step] at hstep
      split at hstep
      case h_1 o hjob => exact flush hI hP hjob hstep
      case h_2 =>
        cases hstep
        exact hI
  | methodCallTmo position =>
      simp only [step] at hstep
      split at hstep
      case h_1 r htimer => exact timeout hI htimer hstep
      case h_2 =>
        cases hstep
        exact hI
  | agentAdd name env =>
      cases hstep
      exact same hI (.agentAdd q name env)
  | agentDel name =>
      simp only [step, agentDel] at hstep
      split at hstep
      case h_1 =>
        cases hstep
        exact hI
      case h_2 i hname =>
        obtain ⟨mid, hmid, hend⟩ := bind_eq_ok.mp hstep
        rw [← Except.ok.inj hend]
        exact same (cancel hI hP hname hmid) (.agentForget mid i _)
  | answer name cid exception =>
      simp only [step] at hstep
      split at hstep
      case h_1 i hname => exact answer hI hP hname hstep
      case h_2 =>
        cases hstep
        exact hI
  | event name offline =>
      simp only [step] at hstep
      split at hstep
      case h_1 i hname =>
        cases hstep
        exact same hI (.agentEvent q i offline)
      case h_2 =>
        cases hstep
        exact hI

theorem exists_run {events : List Event} {P : Qmf → Prop} [DecidablePred P]
    (h : endsIn step empty events (fun q => decide (P q)) = true) :
    ∃ q, run step empty events = .ok q ∧ P q := by
  obtain ⟨q, hrun, hq⟩ := exists_of_endsIn h
  exact ⟨q, hrun, of_decide_eq_true hq⟩

end Qmf

end PacemakerCloud

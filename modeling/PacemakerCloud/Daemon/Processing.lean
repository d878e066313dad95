import PacemakerCloud.Daemon.Completion

/-!
# Transitions and requests to re-evaluate

A request to re-evaluate is a queued `process_job`; a transition in progress has its
`process_next_job`.  `Progress` is what everything but the engine's own jobs does to
the two: requests are added, and a confirmed action marks the graph as updated.
-/

namespace PacemakerCloud

open Foundation

namespace Cape

variable {σ : Type} {c c' c'' : Cape σ}

def confirmations (c : Cape σ) : Nat :=
  c.pe.completions.countP (·.workingSet.isSome)

structure Progress (c c' : Cape σ) : Prop where
  processJobs : c.processJobs ≤ c'.processJobs
  workingSet : c'.pe.workingSet = c.pe.workingSet
  transitionCount : c'.pe.transitionCount = c.pe.transitionCount
  inRunGraph : c'.pe.inRunGraph = c.pe.inRunGraph
  updated : c.pe.graphUpdated = true → c'.pe.graphUpdated = true
  confirmed : c'.confirmations ≠ c.confirmations →
    c.pe.workingSet.isSome = true ∧ c'.pe.graphUpdated = true

namespace Progress

theorem of_pe (hpe : c'.pe = c.pe) (hjobs : c.processJobs ≤ c'.processJobs) :
    Progress c c' where
  processJobs := hjobs
  workingSet := by rw [hpe]
  transitionCount := by rw [hpe]
  inRunGraph := by rw [hpe]
  updated h := by rw [hpe, h]
  confirmed h := absurd (by simp only [confirmations, hpe]) h

theorem refl (c : Cape σ) : Progress c c := of_pe rfl (Nat.le_refl _)

theorem trans (h : Progress c c') (h' : Progress c' c'') : Progress c c'' where
  processJobs := h.processJobs.trans h'.processJobs
  workingSet := h'.workingSet.trans h.workingSet
  transitionCount := h'.transitionCount.trans h.transitionCount
  inRunGraph := h'.inRunGraph.trans h.inRunGraph
  updated hupdated := h'.updated (h.updated hupdated)
  confirmed hne := by
    by_cases hlast : c''.confirmations = c'.confirmations
    · have hfirst := h.confirmed (hlast ▸ hne)
      exact ⟨hfirst.1, h'.updated hfirst.2⟩
    · have hconf := h'.confirmed hlast
      exact ⟨h.workingSet ▸ hconf.1, hconf.2⟩

theorem peResourceCompleted (c : Cape σ) (o : Nat) (returnCode : Int) :
    Progress c (c.peResourceCompleted o returnCode) where
  processJobs := Nat.le_refl _
  workingSet := rfl
  transitionCount := rfl
  inRunGraph := rfl
  updated h := by simp [Cape.peResourceCompleted, h]
  confirmed hne := by
    have hset : c.pe.workingSet.isSome = true := by
      by_contra hnone
      simp [confirmations, Cape.peResourceCompleted, hnone] at hne
    exact ⟨hset, by simp [Cape.peResourceCompleted, hset]⟩

theorem peResourceUnref (c : Cape σ) (o : Nat) : Progress c (c.peResourceUnref o) := by
  obtain ⟨digests, heq⟩ := peResourceUnref_eq c o
  rw [heq]
  exact of_pe rfl (Nat.le_refl _)

theorem settle (c : Cape σ) (o : Nat) (returnCode : Int) :
    Progress c (c.settle o returnCode) :=
  (peResourceCompleted c o returnCode).trans (peResourceUnref _ o)

theorem unwinding : Unwinding (Progress (σ := σ)) where
  refl := refl
  trans := trans
  timerDel _ _ := of_pe rfl (Nat.le_refl _)
  peResourceUnref := peResourceUnref
  clearMonitorOp _ _ := of_pe rfl (Nat.le_refl _)

theorem clearHistory (c : Cape σ) (drop : ResourceId → Bool) :
    Progress c (c.clearHistory drop) :=
  unwinding.clearHistory (fun _ _ => of_pe rfl (Nat.le_refl _)) c drop

theorem opHistorySave (c : Cape σ) (now : Nat) (r : ResourceId) (o : Nat) (ec : Int) :
    Progress c (c.opHistorySave now r o ec) := by
  have hentry : Progress c (c.opHistoryEntry r (c.ops o)).1 := by
    unfold opHistoryEntry
    split
    · exact of_pe rfl (Nat.le_refl _)
    · split
      · exact of_pe rfl (Nat.le_refl _)
      · exact refl c
  exact hentry.trans (of_pe rfl (Nat.le_refl _))

section

variable [Stopwatch σ] {d : Deployable} {env : Env} {o : Nat} {ec : Int}

theorem resourceStateSet {r : Option ResourceId} {op : PeOperation}
    (h : c.resourceStateSet env r op ec = .ok c') : Progress c c' := by
  unfold Cape.resourceStateSet at h
  split at h
  · cases h
    exact refl c
  · obtain ⟨r, -, heq⟩ := bind_eq_ok.mp h
    cases heq
    have hset : ∀ f, Progress c (c.modifyResource r f) := fun f => of_pe rfl (Nat.le_refl _)
    refine (hset _).trans (foldl_rel refl trans (fun c call => ?_) _ _)
    cases call <;> exact of_pe rfl (Nat.le_refl _)

omit [Stopwatch σ] in
theorem opHistoryRecord {r : Option ResourceId}
    (h : c.opHistoryRecord env r o ec = .ok c') : Progress c c' := by
  unfold Cape.opHistoryRecord at h
  split at h
  · obtain ⟨r, -, heq⟩ := bind_eq_ok.mp h
    cases heq
    exact opHistorySave c _ _ _ _
  · cases h
    exact refl c

omit [Stopwatch σ] in
theorem resourceActionRelease {r : Option ResourceId}
    (h : c.resourceActionRelease r o ec = .ok c') : Progress c c' := by
  rcases resourceActionRelease_ok h with ⟨-, rfl⟩ | ⟨r, -, -, rfl⟩
  · exact peResourceUnref c o
  · exact of_pe rfl (Nat.le_refl _)

theorem completed (h : c.resourceActionCompleted d env o ec = .ok c') :
    Progress c c' ∧ ((c.ops o).Unexpected ec → c.processJobs < c'.processJobs) := by
  simp only [resourceActionCompleted] at h
  split at h
  · cases h
  obtain ⟨c₁, hrecord, h⟩ := bind_eq_ok.mp h
  obtain ⟨c₂, hset, hrelease⟩ := bind_eq_ok.mp h
  have hconfirm : Progress c₁ (c₁.confirmFirst o ec) := by
    unfold confirmFirst
    split
    · exact peResourceCompleted c₁ o ec
    · exact refl c₁
  have hadded : Progress c (c.timesExecutedAdd o) := of_pe rfl (Nat.le_refl _)
  have hmid : Progress c c₂ :=
    ((hadded.trans (opHistoryRecord hrecord)).trans hconfirm).trans (resourceStateSet hset)
  have hlast := resourceActionRelease hrelease
  split at hlast
  · next hunexpected =>
      have hrequest : Progress c₂ c₂.scheduleProcessing := of_pe rfl (Nat.le_succ _)
      exact ⟨(hmid.trans hrequest).trans hlast, fun _ =>
        Nat.lt_of_lt_of_le (Nat.lt_succ_of_le hmid.processJobs) hlast.processJobs⟩
  · next hexpected => exact ⟨hmid.trans hlast, fun h => absurd h hexpected⟩

theorem receive {a : CString} {x : Output} (h : c.receive d a env x = .ok c') :
    Progress c c' := by
  cases x with
  | stateChanging =>
      cases h
      exact of_pe rfl (Nat.le_succ _)
  | address address =>
      cases h
      exact of_pe rfl (Nat.le_refl _)
  | restarted =>
      cases h
      exact (clearHistory c _).trans (of_pe rfl (Nat.le_refl _))
  | actionCompleted o sshRc =>
      obtain ⟨mid, hmid, hc⟩ := bind_eq_ok.mp h
      cases hc
      exact (completed hmid).1.trans (peResourceUnref mid o)

theorem foldlM_receive {a : CString} {outputs : List Output}
    (h : outputs.foldlM (Cape.receive d a env) c = .ok c') : Progress c c' := by
  induction outputs generalizing c with
  | nil =>
      cases h
      exact refl _
  | cons x outputs ih =>
      rw [List.foldlM_cons] at h
      obtain ⟨mid, hx, hrest⟩ := bind_eq_ok.mp h
      exact (receive hx).trans (ih hrest)

theorem processJobs_lt_of_stateChanging {a : CString} {outputs : List Output}
    (hmem : .stateChanging ∈ outputs)
    (h : outputs.foldlM (Cape.receive d a env) c = .ok c') : c.processJobs < c'.processJobs := by
  obtain ⟨before, after, rfl⟩ := List.append_of_mem hmem
  rw [List.foldlM_append] at h
  obtain ⟨mid, hbefore, h⟩ := bind_eq_ok.mp h
  rw [List.foldlM_cons] at h
  obtain ⟨_, hchange, hafter⟩ := bind_eq_ok.mp h
  cases hchange
  have hle := (foldlM_receive hbefore).processJobs
  have hle' := (foldlM_receive hafter).processJobs
  simp only [scheduleProcessing] at hle'
  omega

theorem executeCb {state : RecoverState} {queued : Bool}
    (h : c.Executed d env o state c' queued) :
    Progress c c' ∧
      (state ≠ .running → (c.ops o).Unexpected ocfUnknownError →
        c.processJobs < c'.processJobs) := by
  have hfound : ∀ r, Progress c (c.setResource o r) := fun r => of_pe rfl (Nat.le_refl _)
  cases h with
  | offline hstate hok =>
      obtain ⟨hprogress, hrequest⟩ := completed hok
      split
      · exact ⟨hprogress.trans (of_pe rfl (Nat.le_refl _)), fun _ => hrequest⟩
      · exact ⟨hprogress, fun _ => hrequest⟩
  | foreign => exact ⟨(hfound _).trans (settle _ o _), fun h => absurd rfl h⟩
  | @monitored r =>
      have hstarted : Progress c ((c.setResource o (some r)).setStopped r false) :=
        of_pe rfl (Nat.le_refl _)
      exact ⟨hstarted.trans (settle _ o _), fun h => absurd rfl h⟩
  | monitor | probe | start => exact ⟨of_pe rfl (Nat.le_refl _), fun h => absurd rfl h⟩
  | @stop r =>
      have hstop := (hfound (some r)).trans (unwinding.stopMonitor _ r)
      exact ⟨hstop.trans (of_pe rfl (Nat.le_refl _)), fun h => absurd rfl h⟩
  | delete =>
      exact ⟨((hfound _).trans (clearHistory _ _)).trans (settle _ o _),
        fun h => absurd rfl h⟩

end

end Progress

end Cape

/-! ## Changes of state are reported -/

namespace Assembly

variable {σ : Type} [Stopwatch σ] {a a' : Assembly σ} {env : Env} {outputs : List Output}

/-- A handler that changes the state of its assembly reports the change. -/
def Reports (a a' : Assembly σ) (outputs : List Output) : Prop :=
  a'.recover.state ≠ a.recover.state → .stateChanging ∈ outputs

theorem recoverSet_reports (a : Assembly σ) (now : Nat) (state : RecoverState) :
    Reports a (a.recoverSet now state).1 (a.recoverSet now state).2 := by
  intro hne
  rw [recoverSet_state] at hne
  unfold recoverSet
  have hsets := recoverStateSet_sets a.recover now state
  generalize recoverStateSet a.recover now state = result at hsets ⊢
  cases hsets with
  | same hsame => exact absurd hsame.symm hne
  | changed | restarted | escalated => exact List.mem_cons_self

theorem poll_reports (h : a.poll env = .ok (a', outputs)) : Reports a a' outputs := by
  cases pollStep_of_poll h with
  | unanswered => exact fun hne => absurd rfl hne
  | active => exact fun hne => absurd rfl hne
  | pending => exact a.recoverSet_reports env.now .unknown

theorem up_reports (h : a.up env = .ok (a', outputs)) : Reports a a' outputs := by
  simp only [up] at h
  split at h
  · next b hcheck =>
      cases h
      unfold Reports
      rw [assemblyHealthcheck_recover hcheck]
      exact a.recoverSet_reports env.now .running
  · cases h

theorem handshake_reports (h : a.handshake env = .ok (a', outputs)) :
    Reports a a' outputs := by
  unfold handshake at h
  split at h
  · cases h
  · split at h
    · cases h
      exact fun hne => absurd rfl hne
    · cases h
      exact fun hne => absurd rfl hne
    · cases h
    · have hup := up_reports h
      exact hup
    · exact up_reports h

theorem unhealthy_reports (h : a.unhealthy env = .ok (a', outputs)) :
    Reports a a' outputs := by
  unfold unhealthy at h
  split at h
  · cases h
  · next t ht =>
      rw [Except.ok.injEq, Prod.mk.injEq] at h
      obtain ⟨rfl, rfl⟩ := h
      exact (a.transportFailed t).recoverSet_reports env.now .failed

theorem completed_reports {callback : SshCallback} {sshRc : Int}
    (h : a.completed callback env sshRc = .ok (a', outputs)) : Reports a a' outputs := by
  cases callback with
  | resourceAction o =>
      cases h
      exact fun hne => absurd rfl hne
  | healthcheck =>
      simp only [completed] at h
      split at h
      · exact unhealthy_reports h
      · split at h
        · split at h
          · cases h
          · cases h
            exact fun hne => absurd rfl hne
        · cases h
          exact fun hne => absurd rfl hne

theorem exec_reports {s : Nat} (h : a.exec s env = .ok (a', outputs)) :
    Reports a a' outputs := by
  rcases exec_eq_ok h with ⟨state, sshRc, -, rfl, rfl⟩ | ⟨-, rfl, rfl⟩ |
    ⟨sshRc, b, -, hcompleted, rfl⟩
  · exact fun hne => absurd rfl hne
  · exact fun hne => absurd rfl hne
  · unfold Reports
    rw [transportSchedule_recover]
    have hreports := completed_reports hcompleted
    exact hreports

theorem timeout_reports {s : Nat} (h : a.timeout s env = .ok (a', outputs)) :
    Reports a a' outputs := by
  have hflush : (a.sshTimeoutFlush s).recover = a.recover := flush_recover a _
  unfold Reports
  rw [← hflush]
  unfold timeout at h
  split at h
  · exact unhealthy_reports h
  · rw [Except.ok.injEq, Prod.mk.injEq] at h
    obtain ⟨rfl, rfl⟩ := h
    exact (a.sshTimeoutFlush s).recoverSet_reports env.now .failed

theorem reactJob_reports {job : AssemblyJob} (h : a.reactJob env job = .ok (a', outputs)) :
    Reports a a' outputs := by
  cases job with
  | myInstanceStateGet => exact poll_reports h
  | connectExecute =>
      simp only [reactJob, connectExecute] at h
      split at h
      · next b hconnect =>
          cases h
          split at hconnect
          · cases hconnect
          · split at hconnect <;> cases hconnect <;> exact fun hne => absurd rfl hne
      · cases h
  | sshAssemblyConnect => exact handshake_reports h
  | assemblySshExec s => exact exec_reports h

theorem reactTimer_reports {timer : AssemblyTimer}
    (h : a.reactTimer env timer = .ok (a', outputs)) : Reports a a' outputs := by
  cases timer with
  | myInstanceStateGet => exact poll_reports h
  | sshTimeout s => exact timeout_reports h
  | sshKeepaliveSend t =>
      cases h
      exact fun hne => absurd rfl hne
  | assemblyHealthcheck =>
      simp only [reactTimer] at h
      split at h
      · next b hcheck =>
          cases h
          unfold Reports
          rw [assemblyHealthcheck_recover hcheck]
          exact fun hne => absurd rfl hne
      · cases h

end Assembly

/-! ## Runs -/

namespace World

variable {σ : Type} [Stopwatch σ]

def completedCall (w : World σ) : Output → Option (Nat × Int)
  | .actionCompleted o sshRc =>
      some ((w.cape.ops o).targetOutcome, (w.cape.ops o).exitcode sshRc)
  | .stateChanging | .restarted | .address _ => none

/--
The call of `resource_action_completed` in an event, if there is one: the operation's
`target_outcome` and the exit code.
-/
def completion (w : World σ) : Event → Option (Nat × Int)
  | .monitorTimer handle _ =>
      match w.cape.monitorTimers.find? (·.1 = handle) with
      | some (_, o) =>
          if (w.assemblies (w.cape.ops o).hostname).recover.state = .running then none
          else some ((w.cape.ops o).targetOutcome, ocfUnknownError)
      | none => none
  | .fire (.rsc spec) _ =>
      if (w.assemblies spec.hostname).recover.state = .running then none
      else some (spec.targetOutcome % 2 ^ 32, ocfUnknownError)
  | e => (w.outputs e).findSome? w.completedCall

/-- The status has changed: an assembly's state, or an unexpected exit code. -/
def statusChanges (d : Deployable) (w : World σ) (e : Event) (w' : World σ) : Bool :=
  (d.assemblies.any fun node =>
    (w'.assemblies node.name).recover.state ≠ (w.assemblies node.name).recover.state) ||
  (w.completion e).any fun x => toUInt32 x.2 ≠ x.1

/-- `process` has built a status and entered `pe_process_state`. -/
def processes (w : World σ) (_ : Event) (w' : World σ) : Bool :=
  w'.cape.pe.transitionCount ≠ w.cape.pe.transitionCount

def confirms (w : World σ) (e : Event) (w' : World σ) : Bool :=
  (match e with
    | .fire .confirmed _ => true
    | _ => false) ||
  w'.cape.confirmations ≠ w.cape.confirmations

/-- `run_graph` is called, or another graph becomes the one in progress. -/
def runsGraph (w : World σ) (_ : Event) (w' : World σ) : Bool :=
  (w.cape.pe.inRunGraph.isNone && w'.cape.pe.inRunGraph.isSome) ||
  w'.cape.pe.workingSet ≠ w.cape.pe.workingSet

variable {d : Deployable} {w w' : World σ} {e : Event}

theorem Progress.react {a : CString} {asm : Assembly σ} {outputs : List Output} {env : Env}
    {c : Cape σ} (heffect : ∀ o sshRc, .actionCompleted o sshRc ∈ outputs →
      outputs = [.actionCompleted o sshRc])
    (hreports : (w.assemblies a).Reports asm outputs) (houtputs : w.outputs e = outputs)
    (hcompletion : w.completion e = (w.outputs e).findSome? w.completedCall)
    (hcalls : outputs.foldlM (Cape.receive d a env) w.cape = .ok c)
    (hchanges : statusChanges d w e ⟨Function.update w.assemblies a asm, c⟩ = true) :
    w.cape.processJobs < c.processJobs := by
  rw [statusChanges, Bool.or_eq_true] at hchanges
  rcases hchanges with hstate | hcode
  · obtain ⟨node, -, hne⟩ := List.any_eq_true.mp hstate
    by_cases ha : node.name = a
    · subst ha
      simp only [Function.update_self, decide_eq_true_eq] at hne
      exact Cape.Progress.processJobs_lt_of_stateChanging (hreports hne) hcalls
    · simp [Function.update_of_ne ha] at hne
  · rw [hcompletion, houtputs, Option.any_eq_true] at hcode
    obtain ⟨x, hx, hne⟩ := hcode
    obtain ⟨out, hmem, hout⟩ := List.exists_of_findSome?_eq_some hx
    cases out with
    | actionCompleted o sshRc =>
        cases hout
        rw [heffect o sshRc hmem] at hcalls
        obtain ⟨mid, hmid, hc⟩ := bind_eq_ok.mp (show w.cape.resourceActionCompletion d env o
          sshRc = .ok c by simpa [Cape.receive] using hcalls)
        cases hc
        have hlt := (Cape.Progress.completed hmid).2 (of_decide_eq_true hne)
        exact Nat.lt_of_lt_of_le hlt (Cape.Progress.peResourceUnref mid o).processJobs
    | stateChanging | restarted | address => cases hout

omit [Stopwatch σ] in
theorem Effect.alone {a a' : Assembly σ} {outputs : List Output}
    (h : a.Effect a' outputs) {o : Nat} {sshRc : Int}
    (hmem : .actionCompleted o sshRc ∈ outputs) : outputs = [.actionCompleted o sshRc] := by
  cases h with
  | kept hquiet => exact (hquiet _ hmem).elim
  | completed => rw [List.mem_singleton.mp hmem]
  | restarted => simp at hmem

structure Outside (d : Deployable) (w : World σ) (e : Event) (w' : World σ) : Prop where
  progress : w.cape.Progress w'.cape
  requests : statusChanges d w e w' = true → w.cape.processJobs < w'.cape.processJobs
  confirmed : confirms w e w' = true → w'.cape.confirmations ≠ w.cape.confirmations

theorem statusChanges_of_same
    (hsame : ∀ a, (w'.assemblies a).recover = (w.assemblies a).recover)
    (h : statusChanges d w e w' = true) : ∃ x ∈ w.completion e, toUInt32 x.2 ≠ x.1 := by
  rw [statusChanges, Bool.or_eq_true] at h
  rcases h with hstate | hcode
  · obtain ⟨node, -, hne⟩ := List.any_eq_true.mp hstate
    rw [hsame] at hne
    simp at hne
  · obtain ⟨x, hx, hne⟩ := (Option.any_eq_true _ _).mp hcode
    exact ⟨x, hx, of_decide_eq_true hne⟩

omit [Stopwatch σ] in
theorem submit_same (w : World σ) (a : CString) (o : Nat) (command : CString) (b : CString) :
    (Function.update w.assemblies a ((w.assemblies a).submit o command) b).recover =
      (w.assemblies b).recover := by
  by_cases hb : b = a
  · subst hb
    simp
  · rw [Function.update_of_ne hb]

theorem monitorTimer_outside (hsound : ∀ a, (w.assemblies a).Sound) {handle : Nat} {env : Env}
    (hgraph : w.cape.pe.inRunGraph = none)
    (hstep : step d w (.monitorTimer handle env) = .ok w') :
    Outside d w (.monitorTimer handle env) w' := by
  simp only [step, hgraph, dispatch, Transport.dispatch] at hstep
  split at hstep
  case h_2 => cases hstep
  case h_1 handle' o hfind =>
    rw [ssh_cape] at hfind
    rw [ofFault_eq_ok, ssh_modifyCape] at hstep
    by_cases hrunning : (w.assemblies (w.cape.ops o).hostname).recover.state = .running
    · obtain rfl := resourceMonitorExecute_ok hstep rfl (hsound _) hrunning
      refine ⟨.of_pe rfl (Nat.le_refl _), fun hchanges => ?_, by simp [confirms]⟩
      obtain ⟨x, hx, -⟩ := statusChanges_of_same (submit_same w _ o _) hchanges
      simp [completion, hfind, hrunning] at hx
    · obtain ⟨c, hc, rfl⟩ := resourceMonitorExecute_offline hstep hrunning
      have hdeleted : w.cape.Progress (w.cape.timerDel handle) := .of_pe rfl (Nat.le_refl _)
      obtain ⟨hprogress, hrequest⟩ := Cape.Progress.completed hc
      refine ⟨hdeleted.trans hprogress, fun hchanges => hrequest ?_, by simp [confirms]⟩
      obtain ⟨x, hx, hne⟩ := statusChanges_of_same (w := w) (fun _ => rfl) hchanges
      simp only [completion, hfind, hrunning, if_false, Option.mem_some_iff] at hx
      rw [← hx] at hne
      exact hne

theorem step_outside (hsound : ∀ a, (w.assemblies a).Sound) (hstep : step d w e = .ok w') :
    Outside d w e w' ∨ e = .processJob ∧ w' = w.modifyCape World.processJob ∨
      (∃ graph, e = .processNextJob graph ∧ w.cape.pe.inRunGraph = none ∧
        w' = w.modifyCape (World.processNextJob · graph)) ∨
      (∃ graph env, e = .fire .confirmed env ∧ w.cape.pe.inRunGraph = some graph ∧
        w' = w.modifyCape fun c => { c with pe := { c.pe with graphUpdated := true } }) ∨
      ∃ graph status, e = .runGraphReturn status ∧
        w' = w.modifyCape (World.runGraphReturn · graph status) := by
  cases step_transition hsound hstep with
  | @job a job env asm outputs c hgraph hjob hreact hcalls =>
      refine Or.inl ⟨.foldlM_receive hcalls, ?_, by simp [confirms]⟩
      obtain ⟨-, heffect⟩ := Assembly.reactJob_sound (hsound a) hjob hreact
      have hreports := Assembly.reactJob_reports hreact
      refine Progress.react (fun o sshRc => Effect.alone heffect) hreports ?_ rfl hcalls
      simp [World.outputs, hreact]
  | @timer a handle timer env asm outputs c hgraph htimer hreact hcalls =>
      refine Or.inl ⟨.foldlM_receive hcalls, ?_, by simp [confirms]⟩
      have hreports := Assembly.reactTimer_reports hreact
      refine Progress.react (fun o sshRc hmem => ?_) hreports ?_ rfl hcalls
      · obtain ⟨-, heffect | ⟨-, -, hquiet⟩⟩ :=
          Assembly.reactTimer_sound (hsound a) htimer hreact
        · exact Effect.alone heffect hmem
        · exact (hquiet _ hmem).elim
      · simp [World.outputs, find_timer (hsound a) htimer, hreact]
  | monitorOffline hgraph => exact Or.inl (monitorTimer_outside hsound hgraph hstep)
  | monitorRequest hgraph => exact Or.inl (monitorTimer_outside hsound hgraph hstep)
  | processJob => exact Or.inr (Or.inl ⟨rfl, rfl⟩)
  | @processNextJob graph hgraph =>
      exact Or.inr (Or.inr (Or.inl ⟨graph, rfl, hgraph, rfl⟩))
  | @confirmed graph env hgraph =>
      exact Or.inr (Or.inr (Or.inr (Or.inl ⟨graph, env, rfl, hgraph, rfl⟩)))
  | @fire graph spec env c queued command hgraph hexec =>
      have hcreated : w.cape.Progress (execRscAction w.cape graph spec) :=
        .of_pe rfl (Nat.le_refl _)
      obtain ⟨hprogress, hrequest⟩ := Cape.Progress.executeCb hexec
      refine Or.inl ⟨hcreated.trans hprogress, fun hchanges => ?_, by simp [confirms]⟩
      have hsame : ∀ b, ((if queued then Function.update w.assemblies spec.hostname
          ((w.assemblies spec.hostname).submit w.cape.opCount command)
          else w.assemblies) b).recover = (w.assemblies b).recover := by
        intro b
        cases queued with
        | true => exact submit_same w _ _ _ b
        | false => rfl
      obtain ⟨x, hx, hne⟩ := statusChanges_of_same hsame hchanges
      by_cases hrunning : (w.assemblies spec.hostname).recover.state = .running
      · simp [completion, hrunning] at hx
      · simp only [completion, hrunning, if_false, Option.mem_some_iff] at hx
        rw [← hx] at hne
        exact hrequest hrunning (by simpa [PeOperation.Unexpected, execRscAction] using hne)
  | @returned graph status =>
      exact Or.inr (Or.inr (Or.inr (Or.inr ⟨graph, status, rfl, rfl⟩)))

/-! ## The three invariants -/

theorem workingSet_of_processes (hsound : ∀ a, (w.assemblies a).Sound)
    (hstep : step d w e = .ok w') (h : processes w e w' = true) :
    w.cape.pe.workingSet = none := by
  simp only [processes, decide_eq_true_eq] at h
  rcases step_outside hsound hstep with hout | ⟨-, rfl⟩ | ⟨graph, -, -, rfl⟩ |
    ⟨graph, env, -, -, rfl⟩ |
    ⟨graph, status, -, rfl⟩
  · exact absurd hout.progress.transitionCount h
  · simp only [modifyCape, World.processJob] at h
    split at h
    · exact absurd rfl h
    · next hnone => simpa using hnone
  · simp only [modifyCape, World.processNextJob] at h
    split at h <;> exact absurd rfl h
  · exact absurd rfl h
  · cases status <;> exact absurd rfl h

theorem statusChanges_modifyCape {f : Cape σ → Cape σ} (hnone : w.completion e = none)
    (h : statusChanges d w e (w.modifyCape f) = true) : False := by
  obtain ⟨x, hx, -⟩ := statusChanges_of_same (w := w) (fun _ => rfl) h
  simp [hnone] at hx

theorem processJobs_pos (hsound : ∀ a, (w.assemblies a).Sound)
    (hstep : step d w e = .ok w') (hprocesses : processes w e w' = false)
    (h : statusChanges d w e w' = true ∨ 0 < w.cape.processJobs) :
    0 < w'.cape.processJobs := by
  rcases step_outside hsound hstep with hout | ⟨rfl, rfl⟩ | ⟨graph, rfl, -, rfl⟩ |
    ⟨graph, env, rfl, -, rfl⟩ | ⟨graph, status, rfl, rfl⟩
  · rcases h with hchanges | hpos
    · exact Nat.lt_of_le_of_lt (Nat.zero_le _) (hout.requests hchanges)
    · exact Nat.lt_of_lt_of_le hpos hout.progress.processJobs
  · -- a job that finds the engine busy queues itself again
    simp only [modifyCape, World.processJob] at hprocesses ⊢
    split
    · exact Nat.succ_pos _
    · next hidle => simp [processes, hidle, peProcessState] at hprocesses
  · have hpos := h.resolve_left (statusChanges_modifyCape rfl)
    simp only [modifyCape, World.processNextJob]
    split <;> exact hpos
  · exact h.resolve_left (statusChanges_modifyCape rfl)
  · have hpos := h.resolve_left (statusChanges_modifyCape rfl)
    cases status <;> exact hpos

/-- An action of the graph in progress was confirmed after `run_graph` was called. -/
def Updated (w : World σ) : Prop :=
  w.cape.pe.workingSet.isSome = true ∧ w.cape.pe.graphUpdated = true

theorem Updated.step (hsound : ∀ a, (w.assemblies a).Sound)
    (haccounted : w.ledger.Accounted) (hstep : World.step d w e = .ok w')
    (hruns : runsGraph w e w' = false) (h : confirms w e w' = true ∨ w.Updated) :
    w'.Updated := by
  simp only [runsGraph, Bool.or_eq_false_iff, decide_eq_false_iff_not, not_not] at hruns
  obtain ⟨hstarts, hset⟩ := hruns
  unfold Updated
  rw [hset]
  rcases step_outside hsound hstep with hout | ⟨rfl, rfl⟩ | ⟨graph, rfl, hgraph, rfl⟩ |
    ⟨graph, env, rfl, hgraph, rfl⟩ | ⟨graph, status, rfl, rfl⟩
  · rcases h with hconfirms | hupdated
    · exact hout.progress.confirmed (hout.confirmed hconfirms)
    · exact ⟨hupdated.1, hout.progress.updated hupdated.2⟩
  · have hupdated : w.Updated := h.resolve_left (by
      simp only [confirms, Cape.confirmations, modifyCape, World.processJob]
      split <;> simp [Cape.scheduleProcessing, peProcessState])
    refine ⟨hupdated.1, ?_⟩
    simp only [modifyCape, World.processJob]
    split
    · exact hupdated.2
    · rfl
  · have hupdated : w.Updated := h.resolve_left (by
      simp only [confirms, Cape.confirmations, modifyCape, World.processNextJob]
      split <;> simp)
    -- without a call of `run_graph` the job was put back
    simp [modifyCape, World.processNextJob, hupdated.2, hgraph] at hstarts
  · have hrunning : w.cape.pe.workingSet = some graph := (haccounted.running hgraph).1
    exact ⟨by simp [hrunning], rfl⟩
  · have hupdated : w.Updated := h.resolve_left (by
      cases status <;> simp [confirms, Cape.confirmations, modifyCape, World.runGraphReturn])
    cases status <;> exact hupdated

variable {errno : ResourceId → Int} {answers : CString → Env} {events : List Event}

/--
No transition is started while another is in progress; a change of the status since the
last evaluation has a `process_job` waiting; and while no `run_graph` is on the stack, an
action confirmed since its last call leaves the graph marked and its job queued.
-/
theorem reevaluation_requested (h : Reaches d errno answers events w) :
    (∀ {e w'}, step d w e = .ok w' → processes w e w' = true →
      w.cape.pe.workingSet = none) ∧
    (since (step d) (statusChanges d) processes false (load d errno answers : World σ)
        events = true → 0 < w.cape.processJobs) ∧
    (since (step d) confirms runsGraph false (load d errno answers : World σ) events = true →
      w.cape.pe.inRunGraph = none →
      w.cape.pe.graphUpdated = true ∧
        ∃ graph ∈ w.cape.pe.nextJobs, w.cape.pe.workingSet = some graph) := by
  have hkept : Kept (fun _ => True) (load d errno answers : World σ) := .load trivial
  have hkeep : ∀ {w : World σ} {e w'}, Kept (fun _ => True) w → step d w e = .ok w' →
      Kept (fun _ => True) w' := fun hkept hstep => hkept.step (fun _ => trivial) hstep
  have hend := run_invariant_of_step hkeep hkept h
  refine ⟨workingSet_of_processes hend.sound, fun hsince => ?_, fun hsince hidle => ?_⟩
  · exact run_since hkeep (fun hkept => processJobs_pos hkept.sound) hkept (by simp) h hsince
  · obtain ⟨hset, hupdated⟩ := run_since hkeep
      (fun hkept => Updated.step hkept.sound hkept.accounted) hkept (by simp) h hsince
    obtain ⟨graph, hgraph⟩ := Option.isSome_iff_exists.mp hset
    have hjobs : w.cape.pe.nextJobs ++ w.cape.pe.inRunGraph.toList =
      w.cape.pe.workingSet.toList := hend.accounted.jobs
    rw [hidle, hgraph] at hjobs
    exact ⟨hupdated, graph, by simp_all, hgraph⟩

def probed : List Event :=
  probing ++ [.job bar (.assemblySshExec 0) workingEnv, .job bar (.assemblySshExec 1) workingEnv]

theorem reevaluation_requested_probed :
    ∃ w, BarReaches probed w ∧ w.cape.pe.inRunGraph = none ∧ 0 < w.cape.processJobs ∧
      w.cape.pe.graphUpdated = true ∧
      ∃ graph ∈ w.cape.pe.nextJobs, w.cape.pe.workingSet = some graph := by
  obtain ⟨w, hreach, hidle⟩ : ∃ w, BarReaches probed w ∧ w.cape.pe.inRunGraph = none :=
    exists_reaches (by decide +kernel)
  obtain ⟨-, hprocess, hnext⟩ := reevaluation_requested hreach
  exact ⟨w, hreach, hidle, hprocess (by decide +kernel), hnext (by decide +kernel) hidle⟩

end World

end PacemakerCloud

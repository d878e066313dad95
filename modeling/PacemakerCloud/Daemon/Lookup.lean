import PacemakerCloud.Daemon.Monitor

/-!
# Looking up the resource of an operation

The functions that execute an operation look its resource up in the map of the
node and use what they find without a test.  They find it in every run in which
the engine names a resource of the node whenever they need one.  A probe for a
resource of another node breaks this, once the node is down or its name occurs in
the name of the resource.
-/

namespace PacemakerCloud

open Foundation

/-- The node of the resource has it in its `resource_map`. -/
def Deployable.Has (d : Deployable) (r : ResourceId) : Prop :=
  (d.resource? r.assembly r.name).isSome

instance (d : Deployable) (r : ResourceId) : Decidable (d.Has r) :=
  inferInstanceAs (Decidable (_ = true))

theorem Deployable.has_of_resource? {d : Deployable} {hostname rname : CString}
    {r : ResourceId} (h : d.resource? hostname rname = some r) : d.Has r := by
  obtain rfl := Deployable.resource?_eq_some h
  exact Option.isSome_of_eq_some h

def Method.Tracked (m : Method) : Prop :=
  m = .monitor ∨ m = .start ∨ m = .stop

instance (m : Method) : Decidable m.Tracked :=
  inferInstanceAs (Decidable (_ ∨ _ ∨ _))

/-- `resource_action_completed` uses the resource of the operation. -/
def PeOperation.UsesResource (op : PeOperation) (ec : Int) : Prop :=
  strstr op.rname op.hostname = true ∨ op.method.Tracked ∨ op.Recurs ec

/-- `resource_execute_cb` uses the resource, or what it starts will do so. -/
def PeOperation.NeedsResource (op : PeOperation) (state : RecoverState) : Prop :=
  state = .running ∧
      (op.method = .start ∨ op.method = .stop ∨
        op.method = .monitor ∧ strstr op.rname op.hostname = true) ∨
    state ≠ .running ∧ op.UsesResource ocfUnknownError

def OpSpec.NeedsResource (spec : OpSpec) (state : RecoverState) : Prop :=
  state = .running ∧
      (spec.method = .start ∨ spec.method = .stop ∨
        spec.method = .monitor ∧ strstr spec.rname spec.hostname = true) ∨
    state ≠ .running ∧
      (strstr spec.rname spec.hostname = true ∨ spec.method.Tracked ∨
        spec.Recurs ocfUnknownError)

instance (spec : OpSpec) (state : RecoverState) : Decidable (spec.NeedsResource state) :=
  inferInstanceAs (Decidable (_ ∧ (_ ∨ _ ∨ _ ∧ _) ∨ _ ∧ (_ ∨ _ ∨ _)))

theorem needsResource_execRscAction {σ : Type} (c : Cape σ) (graph : Nat) (spec : OpSpec)
    (state : RecoverState) :
    ((World.execRscAction c graph spec).ops c.opCount).NeedsResource state ↔
      spec.NeedsResource state := by
  simp [World.execRscAction, PeOperation.NeedsResource, OpSpec.NeedsResource,
    PeOperation.UsesResource, PeOperation.Recurs, PeOperation.Unexpected, OpSpec.Recurs]

/-! ## Handlers that use no resource -/

namespace Assembly

variable {σ : Type} [Stopwatch σ] (a : Assembly σ) (env : Env)

omit [Stopwatch σ] in
theorem transportExecute_ne_nullResource (callback : SshCallback) (command : CString) :
    a.transportExecute callback command ≠ .error .nullResource := by
  unfold transportExecute
  split
  · simp
  · split <;> simp

theorem poll_ne_nullResource : a.poll env ≠ .error .nullResource := by
  unfold poll
  split
  case h_1 => simp
  case h_2 => simp
  case h_3 =>
    split
    · split <;> simp
    · simp

theorem up_ne_nullResource : a.up env ≠ .error .nullResource := by
  simp only [up]
  split
  · simp
  · rintro ⟨⟩
    exact transportExecute_ne_nullResource _ _ _ (by assumption)

theorem handshake_ne_nullResource : a.handshake env ≠ .error .nullResource := by
  unfold handshake
  split
  · simp
  · split
    case h_4 | h_5 => exact up_ne_nullResource _ env
    all_goals simp

theorem unhealthy_ne_nullResource : a.unhealthy env ≠ .error .nullResource := by
  unfold unhealthy
  split <;> simp

theorem completed_ne_nullResource (callback : SshCallback) (sshRc : Int) :
    a.completed callback env sshRc ≠ .error .nullResource := by
  unfold completed
  split
  · simp
  · split
    · exact unhealthy_ne_nullResource a env
    · split
      · split <;> simp
      · simp

theorem exec_ne_nullResource (s : Nat) : a.exec s env ≠ .error .nullResource := by
  simp only [exec]
  split
  · simp
  · split
    case h_4 =>
      split
      · simp
      · rintro ⟨⟩
        exact completed_ne_nullResource _ env _ _ (by assumption)
    all_goals simp

theorem reactJob_ne_nullResource (job : AssemblyJob) :
    a.reactJob env job ≠ .error .nullResource := by
  cases job with
  | myInstanceStateGet => exact poll_ne_nullResource a env
  | connectExecute =>
      simp only [reactJob, connectExecute]
      cases a.transport with
      | none => simp
      | some t => cases env.connected <;> simp
  | sshAssemblyConnect => exact handshake_ne_nullResource a env
  | assemblySshExec s => exact exec_ne_nullResource a env s

theorem reactTimer_ne_nullResource (timer : AssemblyTimer) :
    a.reactTimer env timer ≠ .error .nullResource := by
  cases timer with
  | myInstanceStateGet => exact poll_ne_nullResource a env
  | sshTimeout s =>
      simp only [reactTimer, timeout]
      split
      · exact unhealthy_ne_nullResource _ env
      · simp
  | sshKeepaliveSend t => simp [reactTimer]
  | assemblyHealthcheck =>
      simp only [reactTimer]
      split
      · simp
      · rintro ⟨⟩
        exact transportExecute_ne_nullResource _ _ _ (by assumption)

end Assembly

/-! ## Completing an operation -/

namespace Cape

variable {σ : Type} {c c' : Cape σ} {d : Deployable} {env : Env} {o : Nat} {ec : Int}

theorem foundResource_ne_nullResource {r : Option ResourceId} (h : r.isSome) :
    foundResource r ≠ .error .nullResource := by
  cases r with
  | none => simp at h
  | some r => simp [foundResource]

theorem resourceStateOf_eq_none {op : PeOperation} (h : ¬ op.method.Tracked) :
    resourceStateOf op ec = none := by
  cases hmethod : op.method <;> simp_all [resourceStateOf, Method.Tracked]

theorem opHistoryRecord_ne_nullResource {r : Option ResourceId}
    (h : strstr (c.ops o).rname (c.ops o).hostname = true → r.isSome) :
    c.opHistoryRecord env r o ec ≠ .error .nullResource := by
  unfold opHistoryRecord
  split
  case isTrue hname =>
    exact bind_ne_error (foundResource_ne_nullResource (h hname)) fun _ _ => ok_ne_error
  case isFalse => exact ok_ne_error

theorem resourceActionRelease_ne_nullResource {r : Option ResourceId}
    (h : (c.ops o).Recurs ec → r.isSome) :
    c.resourceActionRelease r o ec ≠ .error .nullResource := by
  unfold resourceActionRelease
  split
  case isFalse => exact ok_ne_error
  case isTrue hinterval =>
    split
    case isTrue => exact ok_ne_error
    case isFalse hexpected =>
      exact bind_ne_error (foundResource_ne_nullResource (h ⟨hinterval, hexpected⟩))
        fun _ _ => ok_ne_error

variable [Stopwatch σ]

theorem resourceStateSet_ne_nullResource {r : Option ResourceId} {op : PeOperation}
    (h : op.method.Tracked → r.isSome) :
    c.resourceStateSet env r op ec ≠ .error .nullResource := by
  unfold resourceStateSet
  split
  · simp
  case h_2 state hstate =>
    refine bind_ne_error (foundResource_ne_nullResource (h ?_)) fun _ _ => ok_ne_error
    by_contra htracked
    rw [resourceStateOf_eq_none htracked] at hstate
    cases hstate

theorem resourceActionCompleted_ne_nullResource
    (h : (c.ops o).UsesResource ec → d.Has (c.ops o).target) :
    c.resourceActionCompleted d env o ec ≠ .error .nullResource := by
  simp only [resourceActionCompleted]
  split
  · simp
  refine bind_ne_error (opHistoryRecord_ne_nullResource fun hname => ?_) fun c₁ h₁ => ?_
  · exact h (Or.inl (by simpa [timesExecutedAdd, modifyOp] using hname))
  refine bind_ne_error (resourceStateSet_ne_nullResource fun htracked => ?_) fun c₂ h₂ => ?_
  · exact h (Or.inr (Or.inl htracked))
  refine resourceActionRelease_ne_nullResource fun hrecurs => h (Or.inr (Or.inr ?_))
  rwa [(bookkeeping_execute h₁ h₂).ops, execute_recurs] at hrecurs

theorem resourceActionCompletion_ne_nullResource {sshRc : Int}
    (h : d.Has (c.ops o).target) :
    c.resourceActionCompletion d env o sshRc ≠ .error .nullResource :=
  bind_ne_error (resourceActionCompleted_ne_nullResource fun _ => h) fun _ _ => ok_ne_error

theorem foldlM_receive_ne_nullResource {a : CString} {outputs : List Output}
    (h : ∀ o sshRc, .actionCompleted o sshRc ∉ outputs) :
    outputs.foldlM (receive d a env) c ≠ .error .nullResource := by
  induction outputs generalizing c with
  | nil => exact ok_ne_error
  | cons x outputs ih =>
      rw [List.foldlM_cons]
      refine bind_ne_error ?_ fun mid _ => ih fun o sshRc hmem =>
        h o sshRc (List.mem_cons_of_mem x hmem)
      cases x with
      | actionCompleted o sshRc => exact (h o sshRc List.mem_cons_self).elim
      | stateChanging | restarted | address => exact ok_ne_error

end Cape

/-! ## Executing an operation -/

namespace World

variable {σ : Type} {d : Deployable} {w : World σ} {env : Env}

theorem ofFault_ne_nullResource {α : Type} {x : Except Fault α}
    (h : x ≠ .error .nullResource) : ofFault x ≠ .error (.fault .nullResource) := by
  cases x with
  | ok y => exact ok_ne_error
  | error fault => simpa [ofFault] using h

theorem transportResourceAction_ne_nullResource (a : CString) (o : Nat) :
    w.transportResourceAction a o ≠ .error .nullResource :=
  bind_ne_error (Assembly.transportExecute_ne_nullResource _ _ _) fun _ _ => ok_ne_error

variable [Stopwatch σ]

theorem resourceMonitorExecute_ne_nullResource {o : Nat}
    (h : (w.assemblies (w.cape.ops o).hostname).recover.state ≠ .running →
      d.Has (w.cape.ops o).target) :
    ssh.resourceMonitorExecute d w env o ≠ .error .nullResource := by
  simp only [Transport.resourceMonitorExecute]
  split
  · simp
  · split
    case isTrue hstate =>
      exact bind_ne_error (Cape.resourceActionCompleted_ne_nullResource fun _ => h hstate)
        fun _ _ => ok_ne_error
    case isFalse => exact transportResourceAction_ne_nullResource _ _

theorem recurringMonitorStart_ne_nullResource {r : ResourceId} {o : Nat}
    (h : (w.assemblies (w.cape.ops o).hostname).recover.state = .running) :
    ssh.recurringMonitorStart d w env r o ≠ .error .nullResource := by
  simp only [Transport.recurringMonitorStart]
  split
  · simp
  · refine resourceMonitorExecute_ne_nullResource fun hstate => absurd ?_ hstate
    simpa [modifyCape, Cape.modifyResource, Cape.peResourceRef, Cape.modifyOp] using h

theorem resourceExecuteOffline_ne_nullResource {o : Nat}
    (h : (w.cape.ops o).UsesResource ocfUnknownError → d.Has (w.cape.ops o).target) :
    ssh.resourceExecuteOffline d w env o ≠ .error .nullResource :=
  bind_ne_error (Cape.resourceActionCompleted_ne_nullResource h) fun _ _ => ok_ne_error

theorem resourceExecuteCb_ne_nullResource {o : Nat}
    (h : (w.cape.ops o).NeedsResource
      (w.assemblies (w.cape.ops o).hostname).recover.state → d.Has (w.cape.ops o).target) :
    ssh.resourceExecuteCb d w env o ≠ .error .nullResource := by
  simp only [Transport.resourceExecuteCb]
  split
  · simp
  split
  case isTrue hstate =>
    exact resourceExecuteOffline_ne_nullResource fun huses => h (Or.inr ⟨hstate, huses⟩)
  case isFalse hstate =>
    have hrunning : (w.assemblies (w.cape.ops o).hostname).recover.state = .running :=
      not_not.mp hstate
    have hfound : ∀ {r}, d.resource? (w.cape.ops o).hostname (w.cape.ops o).rname = r →
        (w.cape.ops o).NeedsResource .running → r.isSome := by
      rintro _ rfl hneeds
      exact h (hrunning ▸ hneeds)
    split
    case h_1 hmethod =>
      split
      case isTrue hname =>
        split
        case h_1 hnone =>
          exact absurd (hfound hnone (Or.inl ⟨rfl, Or.inr (Or.inr ⟨hmethod, hname⟩)⟩)) (by simp)
        case h_2 r hr =>
          split
          · refine recurringMonitorStart_ne_nullResource ?_
            simpa [modifyCape, Cape.modifyOp] using hrunning
          · refine resourceMonitorExecute_ne_nullResource fun hdown => absurd ?_ hdown
            simpa [modifyCape, Cape.modifyOp] using hrunning
      case isFalse => simp
    case h_2 => exact transportResourceAction_ne_nullResource _ _
    case h_3 hmethod =>
      split
      case h_1 hnone =>
        exact absurd (hfound hnone (Or.inl ⟨rfl, Or.inr (Or.inl hmethod)⟩)) (by simp)
      case h_2 r hr =>
        exact bind_ne_error (transportResourceAction_ne_nullResource _ _) fun _ _ => ok_ne_error
    case h_4 | h_5 => simp

end World

/-! ## Operations that are still carried -/

namespace Ledger

variable {σ : Type} {d : Deployable} {c c' : Cape σ} {q q' : CString → List Nat}

def Found (d : Deployable) (l : Ledger σ) : Prop :=
  ∀ o, l.Carried o → d.Has (l.cape.ops o).target

theorem Found.keep (h : Found d ⟨c, q⟩) (hlt : ∀ o, Carried ⟨c, q⟩ o → o < c.opCount)
    (hsame : c.SameTargets c')
    (hqueue : ∀ a, ∀ o ∈ q' a, o ∈ q a ∨ d.Has (c'.ops o).target) : Found d ⟨c', q'⟩ := by
  have hold : ∀ o, Carried ⟨c, q⟩ o → d.Has (c'.ops o).target := fun o hcarried => by
    rw [hsame.target o (hlt o hcarried)]
    exact h o hcarried
  rintro o (⟨a, ha⟩ | ⟨x, hx, rfl⟩)
  · exact (hqueue a o ha).elim (fun hmem => hold o (Or.inl ⟨a, hmem⟩)) id
  · exact hold x.2 (Or.inr ⟨x, hsame.timers hx, rfl⟩)

theorem Found.quiet (h : Found d ⟨c, q⟩) (hquiet : c.Quiet c') : Found d ⟨c', q⟩ := by
  rintro o (hqueued | ⟨x, hx, rfl⟩)
  · rw [hquiet.target]
    exact h o (Or.inl hqueued)
  · rw [hquiet.target]
    exact h x.2 (Or.inr ⟨x, hquiet.timers.mem hx, rfl⟩)

theorem Found.arm (h : Found d ⟨c, q⟩) {o : Nat} (hhas : d.Has (c.ops o).target)
    (r : ResourceId) : Found d ⟨c.monitorTimerAdd r o, q⟩ := by
  rintro x (hqueued | ⟨y, hy, rfl⟩)
  · exact h x (Or.inl hqueued)
  · rcases List.mem_append.mp hy with hold | hnew
    · exact h y.2 (Or.inr ⟨y, hold, rfl⟩)
    · rw [List.mem_singleton.mp hnew]
      exact hhas

theorem Found.completed [Stopwatch σ] {env : Env} {o : Nat} {ec : Int}
    (h : Found d ⟨c, q⟩) (hlt : ∀ o, Carried ⟨c, q⟩ o → o < c.opCount)
    (ho : o < c.opCount) (hhas : (c.ops o).Recurs ec → d.Has (c.ops o).target)
    (hqueue : ∀ a, q' a ⊆ q a)
    (hok : c.resourceActionCompleted d env o ec = .ok c') : Found d ⟨c', q'⟩ := by
  have hless : ∀ a, ∀ x ∈ q' a, x ∈ q a ∨ d.Has (c'.ops x).target :=
    fun a x hx => Or.inl (hqueue a hx)
  rcases Cape.resourceActionCompleted_calms hok with
    ⟨-, hcalms⟩ | ⟨hrecurs, mid, r, hcalms, hc⟩
  · exact h.keep hlt hcalms.toSameTargets hless
  · rw [hc] at hless ⊢
    refine (h.keep hlt hcalms.toSameTargets hless).arm ?_ r
    rw [hcalms.target o ho]
    exact hhas hrecurs

end Ledger

namespace Cape

variable {σ : Type} [Stopwatch σ] {c c' : Cape σ} {d : Deployable} {env : Env} {o : Nat}
  {queued : Bool}

theorem Executed.sameTargets (h : c.Executed d env o .running c' queued) :
    c.SameTargets c' := by
  have hset := fun r => (Quiet.setResource c o r).sameTargets
  have hhand := fun c : Cape σ => (Calms.hand c o).toSameTargets
  have hsettle := fun (c : Cape σ) rc => (Calms.settle c o rc).toSameTargets
  cases h with
  | offline hstate => exact absurd rfl hstate
  | foreign => exact (hset _).trans (hsettle _ _)
  | @monitored r =>
      exact ((hset _).trans (Quiet.setStopped _ r false).sameTargets).trans (hsettle _ _)
  | @monitor r => exact ((hset _).trans (Quiet.startMonitor _ r o).sameTargets).trans (hhand _)
  | probe | start => exact (hset _).trans (hhand _)
  | @stop r =>
      exact (((hset _).trans (Unwinds.stopMonitor _ r).sameTargets).trans (hhand _)).trans
        (Quiet.setStopped _ r true).sameTargets
  | delete =>
      exact ((hset _).trans (Unwinds.clearHistory _ _).sameTargets).trans (hsettle _ _)

theorem Executed.has (h : c.Executed d env o .running c' true)
    (hstart : (c.ops o).method = .start → d.Has (c.ops o).target) :
    d.Has (c.ops o).target := by
  have hfound : ∀ r, d.resource? (c.ops o).hostname (c.ops o).rname = some r →
      d.Has (c.ops o).target := fun _ => Option.isSome_of_eq_some
  cases h with
  | monitor hmethod hname hr => exact hfound _ hr
  | probe hmethod hname hr => exact hfound _ hr
  | start hmethod => exact hstart hmethod
  | stop hmethod hr => exact hfound _ hr

end Cape

theorem Ledger.Found.executeCb {σ : Type} [Stopwatch σ] {d : Deployable} {c c' : Cape σ}
    {q : CString → List Nat} {a : CString} {env : Env} {o : Nat} {state : RecoverState}
    {queued : Bool} (h : Found d ⟨c, q⟩) (hlt : ∀ o, Carried ⟨c, q⟩ o → o < c.opCount)
    (ho : o < c.opCount) (hhas : (c.ops o).NeedsResource state → d.Has (c.ops o).target)
    (hexec : c.Executed d env o state c' queued) :
    Found d ⟨c', if queued then Function.update q a (q a ++ [o]) else q⟩ := by
  by_cases hstate : state = .running
  · subst hstate
    refine h.keep hlt hexec.sameTargets fun b x hx => ?_
    cases queued with
    | false => exact Or.inl hx
    | true =>
        refine (mem_update_append hx).imp_right fun hnew => ?_
        rw [hnew, hexec.sameTargets.target o ho]
        exact hexec.has fun hmethod => hhas (Or.inl ⟨rfl, Or.inl hmethod⟩)
  · cases hexec with
    | offline _ hok =>
        have hdone := h.completed hlt ho
          (fun hrecurs => hhas (Or.inr ⟨hstate, Or.inr (Or.inr hrecurs)⟩))
          (fun _ => List.Subset.refl _) hok
        split
        · exact hdone.quiet (.setStopped _ _ _)
        · exact hdone
    | foreign | monitored | monitor | probe | start | stop | delete =>
        exact absurd rfl hstate

namespace World

variable {σ : Type} [Stopwatch σ] {d : Deployable} {w : World σ} {e : Event}

/-- The engine names a resource of the node whenever the node uses it. -/
def FindsResource (d : Deployable) (w : World σ) : Event → Prop
  | .fire (.rsc spec) _ =>
      spec.NeedsResource (w.assemblies spec.hostname).recover.state → d.Has spec.target
  | _ => True

instance (d : Deployable) (w : World σ) : ∀ e, Decidable (FindsResource d w e)
  | .fire (.rsc _) _ => inferInstanceAs (Decidable (_ → _))
  | .fire .confirmed _ | .job _ _ _ | .timer _ _ _ | .monitorTimer _ _ | .processJob
  | .processNextJob _ | .runGraphReturn _ => inferInstanceAs (Decidable True)

theorem perform_ne_nullResource {a : CString} {env : Env}
    {r : Except Fault (Assembly σ × List Output)} (hr : r ≠ .error .nullResource)
    (hfound : w.ledger.Found d)
    (heffect : ∀ asm outputs, r = .ok (asm, outputs) →
      (w.assemblies a).Effect asm outputs ∨ ∀ x ∈ outputs, x.Quiet) :
    w.perform d a env r ≠ .error .nullResource := by
  have hquiet : ∀ outputs : List Output, (∀ x ∈ outputs, x.Quiet) →
      ∀ o sshRc, .actionCompleted o sshRc ∉ outputs := fun _ h _ _ hmem => h _ hmem
  cases r with
  | error fault => simpa [perform] using hr
  | ok result =>
      obtain ⟨asm, outputs⟩ := result
      refine bind_ne_error ?_ fun _ _ => ok_ne_error
      rcases heffect asm outputs rfl with heffect | hkept
      · cases heffect with
        | kept hkept => exact Cape.foldlM_receive_ne_nullResource (hquiet _ hkept)
        | @completed o sshRc hactions =>
            have hhas := hfound o (Or.inl ⟨a, by simp [ledger, World.actions, hactions]⟩)
            exact bind_ne_error (Cape.resourceActionCompletion_ne_nullResource hhas)
              fun _ _ => ok_ne_error
        | restarted => exact Cape.foldlM_receive_ne_nullResource (by simp)
      · exact Cape.foldlM_receive_ne_nullResource (hquiet _ hkept)

theorem dispatch_ne_nullResource (hsound : ∀ a, (w.assemblies a).Sound)
    (hfound : w.ledger.Found d) : w.dispatch d e ≠ .error (.fault .nullResource) := by
  cases e with
  | job a job env =>
      simp only [dispatch]
      split
      case isFalse => simp
      case isTrue hjob =>
        refine ofFault_ne_nullResource ?_
        rw [dispatchJob_eq, perform_modifyAssembly]
        refine perform_ne_nullResource (Assembly.reactJob_ne_nullResource _ _ _) hfound
          fun asm outputs hreact => Or.inl ?_
        simp only [modifyAssembly, Function.update_self] at hreact
        exact (Assembly.reactJob_sound (hsound a) hjob hreact).2
  | timer a handle env =>
      simp only [dispatch]
      split
      case h_2 => simp
      case h_1 handle' timer hfind =>
        have hmem := List.mem_of_find?_eq_some hfind
        obtain rfl : handle' = handle := by simpa using List.find?_some hfind
        refine ofFault_ne_nullResource ?_
        rw [dispatchTimer_eq (d := d), perform_modifyAssembly]
        refine perform_ne_nullResource (Assembly.reactTimer_ne_nullResource _ _ _) hfound
          fun asm outputs hreact => ?_
        simp only [modifyAssembly, Function.update_self] at hreact
        exact (Assembly.reactTimer_sound (hsound a) hmem hreact).2.imp_right (·.2.2)
  | monitorTimer handle env =>
      simp only [dispatch, Transport.dispatch]
      split
      case h_2 => simp
      case h_1 handle' o hfind =>
        have hmem := List.mem_of_find?_eq_some hfind
        exact ofFault_ne_nullResource (resourceMonitorExecute_ne_nullResource
          fun _ => hfound o (Or.inr ⟨_, hmem, rfl⟩))
  | processJob =>
      simp only [dispatch, Transport.dispatch]
      split <;> simp
  | processNextJob graph =>
      simp only [dispatch, Transport.dispatch]
      split <;> simp
  | fire | runGraphReturn => simp [dispatch]

theorem dispatchGraph_ne_nullResource (hfinds : FindsResource d w e) (graph : Nat) :
    w.dispatchGraph d graph e ≠ .error (.fault .nullResource) := by
  cases e with
  | fire action env =>
      cases action with
      | confirmed => simp [dispatchGraph, Transport.dispatchGraph]
      | rsc spec =>
          refine ofFault_ne_nullResource (resourceExecuteCb_ne_nullResource fun hneeds => ?_)
          have htarget : ((execRscAction w.cape graph spec).ops w.cape.opCount).target =
              spec.target := by
            simp [execRscAction, PeOperation.target, OpSpec.target]
          have hhost : ((execRscAction w.cape graph spec).ops w.cape.opCount).hostname =
              spec.hostname := congrArg ResourceId.assembly htarget
          simp only [ssh_modifyCape, ssh_cape, modifyCape, needsResource_execRscAction,
            hhost] at hneeds
          simp only [ssh_modifyCape, ssh_cape, modifyCape, htarget]
          exact hfinds hneeds
  | runGraphReturn status =>
      simp only [dispatchGraph, Transport.dispatchGraph]
      split <;> simp
  | job | timer | monitorTimer | processJob | processNextJob => simp [dispatchGraph]

theorem step_ne_nullResource (hsound : ∀ a, (w.assemblies a).Sound)
    (hfound : w.ledger.Found d) (hfinds : FindsResource d w e) :
    step d w e ≠ .error (.fault .nullResource) := by
  unfold step
  split
  · exact dispatch_ne_nullResource hsound hfound
  · exact dispatchGraph_ne_nullResource hfinds _

theorem Change.found {q : CString → List Nat} {c : Cape σ} (h : w.ledger.Found d)
    (haccounted : w.ledger.Accounted) (hfinds : FindsResource d w e)
    (hchange : w.Change d e q c) : Ledger.Found d ⟨c, q⟩ := by
  have hlt : ∀ o, w.ledger.Carried o → o < w.cape.opCount :=
    fun o => haccounted.lt_of_carried
  cases hchange with
  | idle hkept => exact h.quiet hkept.quiet
  | @flushed e a c htimeout hkept =>
      exact h.keep hlt hkept.quiet.sameTargets fun b o ho =>
        Or.inl (update_subset (List.nil_subset _) b ho)
  | @restarted e a env hrestart =>
      have hquiet : w.cape.Quiet
          ((w.cape.scheduleProcessing.nodeOpHistoryClear a).instanceRequests a env) :=
        ((Cape.Bookkeeping.scheduleProcessing w.cape).quiet.trans
          (.nodeOpHistoryClear _ a)).trans (.instanceRequests _ a env)
      exact h.keep hlt hquiet.sameTargets fun b o ho =>
        Or.inl (update_subset (List.nil_subset _) b ho)
  | @completed e a env o sshRc rest c houtputs hactions hok =>
      have hcarried : w.ledger.Carried o := Or.inl ⟨a, by simp [ledger, hactions]⟩
      obtain ⟨mid, hmid, hc⟩ := bind_eq_ok.mp hok
      rw [← Except.ok.inj hc]
      refine (h.completed hlt (hlt o hcarried) (fun _ => h o hcarried) ?_ hmid).quiet
        (Cape.Unwinds.peResourceUnref mid o).toQuiet
      exact update_subset (by simp [hactions])
  | @monitorOffline handle o env c htimer hok =>
      have hcarried : w.ledger.Carried o := Or.inr ⟨_, htimer, rfl⟩
      have hdeleted := h.quiet (Cape.Bookkeeping.timerDel w.cape handle).quiet
      refine hdeleted.completed (fun x hx => ?_) (hlt o hcarried) (fun _ => h o hcarried)
        (fun _ => List.Subset.refl _) hok
      refine hlt x (hx.imp_right ?_)
      rintro ⟨y, hy, heq⟩
      exact ⟨y, (List.mem_filter.mp hy).1, heq⟩
  | @monitorRequest handle o env htimer =>
      have hcarried : w.ledger.Carried o := Or.inr ⟨_, htimer, rfl⟩
      have hsame : w.cape.SameTargets ((w.cape.timerDel handle).hand o) :=
        (Cape.Bookkeeping.timerDel w.cape handle).quiet.sameTargets.trans
          (Cape.Calms.hand _ o).toSameTargets
      refine h.keep hlt hsame fun b x hx => (mem_update_append hx).imp_right fun hnew => ?_
      rw [hnew, hsame.target o (hlt o hcarried)]
      exact h o hcarried
  | engine hengine =>
      exact h.keep hlt (Cape.Calms.of_same hengine.same.1).toSameTargets fun _ _ => Or.inl
  | @fire graph spec env c queued hgraph hexec =>
      have hcreate := (Cape.Calms.create w.cape graph spec).toSameTargets
      have hnew : Ledger.Found d ⟨execRscAction w.cape graph spec, w.actions⟩ :=
        h.keep hlt hcreate fun _ _ => Or.inl
      have hltNew : ∀ o, Ledger.Carried ⟨execRscAction w.cape graph spec, w.actions⟩ o →
          o < (execRscAction w.cape graph spec).opCount :=
        fun o ho => (hlt o ho).trans_le hcreate.opCount
      have htarget : ((execRscAction w.cape graph spec).ops w.cape.opCount).target =
          spec.target := by
        simp [execRscAction, PeOperation.target, OpSpec.target]
      have hhas : ((execRscAction w.cape graph spec).ops w.cape.opCount).NeedsResource
          (w.assemblies spec.hostname).recover.state →
          d.Has ((execRscAction w.cape graph spec).ops w.cape.opCount).target := by
        rw [needsResource_execRscAction, htarget]
        exact hfinds
      exact hnew.executeCb hltNew (Nat.lt_succ_self _) hhas hexec

/--
In every run in which the engine names a resource of the node whenever the node uses
it, no step follows a resource that was not found, and `assert (op->resource)` holds.
-/
theorem run_ne_nullResource_of_findsResource {errno : ResourceId → Int}
    {answers : CString → Env} {events : List Event}
    (halong : Along (step d) (FindsResource d) (load d errno answers : World σ) events) :
    run (step d) (load d errno answers : World σ) events ≠ .error (.fault .nullResource) := by
  have hinit : (load d errno answers : World σ).ledger.Found d := by
    obtain ⟨cloud, hcape⟩ := load_cape (σ := σ) d errno answers
    rintro o (⟨a, ha⟩ | ⟨x, hx, -⟩)
    · simp [ledger, load_actions] at ha
    · simp [ledger, hcape, empty] at hx
  refine run_ne_error (I := Kept (Ledger.Found d)) ?_ ?_ (.load hinit) halong
  · exact fun hkept hfinds => hkept.step fun hchange =>
      hchange.found hkept.fact hkept.accounted hfinds
  · exact fun hkept hfinds => step_ne_nullResource hkept.sound hkept.fact hfinds

theorem run_ne_nullResource_of_findsResource_stopping :
    Along (step barDeployable) (FindsResource barDeployable)
        (load barDeployable (fun _ => 0) fun _ => workingEnv : World Ring) stopping ∧
      run (step barDeployable)
          (load barDeployable (fun _ => 0) fun _ => workingEnv : World Ring) stopping ≠
        .error (.fault .nullResource) := by
  have halong : Along (step barDeployable) (FindsResource barDeployable)
      (load barDeployable (fun _ => 0) fun _ => workingEnv : World Ring) stopping := by
    decide +kernel
  exact ⟨halong, run_ne_nullResource_of_findsResource halong⟩

def withNode (name : CString) (hname : bar ≠ name) : Deployable where
  assemblies := barDeployable.assemblies ++
    [{ name := name
       uuid := "2".toList
       escalationFailures := none
       escalationPeriod := none
       services := [] }]
  names_nodup := by simpa [barDeployable, barWith] using hname

def transitionFor (node : CString) : List Event :=
  [.job node .myInstanceStateGet workingEnv, .job node .connectExecute workingEnv,
    .job node .sshAssemblyConnect workingEnv, .processJob]

/--
The engine probes the service on the other node too.  The name of the node occurs
in the name of the service; or it does not, but the node fails before the probe.
-/
theorem foreign_probe_follows_null :
    ((withNode "ar".toList (by decide)).Configures "ar".toList "rsc_bar_angus".toList ∧
      run (step (withNode "ar".toList (by decide)))
          (load (withNode "ar".toList (by decide)) (fun _ => 0) fun _ => workingEnv :
            World Ring)
          (transitionFor "ar".toList ++ [.processNextJob 0,
            .fire (.rsc (angusOn "ar".toList .monitor 0 7)) workingEnv]) =
        .error (.fault .nullResource)) ∧
    (withNode "foo".toList (by decide)).Configures "foo".toList "rsc_bar_angus".toList ∧
      run (step (withNode "foo".toList (by decide)))
          (load (withNode "foo".toList (by decide)) (fun _ => 0) fun _ => workingEnv :
            World Ring)
          (transitionFor "foo".toList ++
            [.job "foo".toList (.assemblySshExec 0) { workingEnv with exitStatus := 1 },
              .processNextJob 0,
              .fire (.rsc (angusOn "foo".toList .monitor 0 7)) workingEnv]) =
        .error (.fault .nullResource) :=
  ⟨⟨by decide +kernel, run_of_stopsWith (by decide +kernel)⟩,
    by decide +kernel, run_of_stopsWith (by decide +kernel)⟩

end World

end PacemakerCloud

import PacemakerCloud.Daemon.Instances
import PacemakerCloud.Daemon.Lifecycle

/-!
# The addresses of running assemblies

The address of an assembly is the one the cloud reported last.  It is asked for only while the
assembly is down, so a running assembly has the address it came up with.
-/

namespace PacemakerCloud

open Foundation

/-! ## Functions of `cape.c` that keep the addresses -/

namespace Cape

variable {σ : Type} {c c' c'' : Cape σ}

def addresses (c : Cape σ) (a : CString) : Option CString := (c.cloud a).address

def SameAddresses (c c' : Cape σ) : Prop := c'.addresses = c.addresses

namespace SameAddresses

theorem trans (h : SameAddresses c c') (h' : SameAddresses c' c'') : SameAddresses c c'' :=
  Eq.trans h' h

theorem of_cloud (h : c'.cloud = c.cloud) : SameAddresses c c' := by
  unfold SameAddresses addresses
  rw [h]

theorem modifyCloud (c : Cape σ) (a : CString) {f : Instance → Instance}
    (hf : ∀ i, (f i).address = i.address) : SameAddresses c (c.modifyCloud a f) := by
  funext b
  by_cases hb : b = a
  · subst hb
    simp [addresses, Cape.modifyCloud, hf]
  · simp [addresses, Cape.modifyCloud, Function.update_of_ne hb]

theorem instanceRequests (c : Cape σ) (a : CString) (env : Env) :
    SameAddresses c (c.instanceRequests a env) := by
  refine modifyCloud c a ?_
  exact fun _ => rfl

theorem instanceDestroy (c : Cape σ) (a : CString) (reply : DestroyReply) :
    SameAddresses c (c.instanceDestroy a reply) := by
  refine modifyCloud c a ?_
  exact fun _ => rfl

theorem resourceCallback (env : Env) (r : ResourceId) (c : Cape σ) (call : RecoverCall) :
    SameAddresses c (c.resourceCallback env r call) := by
  cases call with
  | stateChanging before after => exact of_cloud rfl
  | restart => exact of_cloud rfl
  | escalate =>
      have hdeleted : SameAddresses c (c.timerDel (c.resources r).monitorTimer) := of_cloud rfl
      exact hdeleted.trans (instanceDestroy _ _ _)

theorem opHistoryRecord {env : Env} {r : Option ResourceId} {o : Nat} {ec : Int}
    (h : c.opHistoryRecord env r o ec = .ok c') : SameAddresses c c' := by
  unfold Cape.opHistoryRecord at h
  split at h
  · obtain ⟨r, -, heq⟩ := bind_eq_ok.mp h
    cases heq
    have hentry : (c.opHistoryEntry r (c.ops o)).1.cloud = c.cloud := by
      unfold opHistoryEntry
      split
      · rfl
      · split <;> rfl
    exact of_cloud hentry
  · cases h
    exact of_cloud rfl

variable [Stopwatch σ] {d : Deployable} {env : Env} {o : Nat}

theorem resourceStateSet {r : Option ResourceId} {op : PeOperation} {ec : Int}
    (h : c.resourceStateSet env r op ec = .ok c') : SameAddresses c c' := by
  unfold Cape.resourceStateSet at h
  split at h
  · cases h
    exact of_cloud rfl
  · obtain ⟨r, -, heq⟩ := bind_eq_ok.mp h
    cases heq
    exact foldl_rel (R := SameAddresses) (fun _ => of_cloud rfl) trans (resourceCallback env r) _
      (c.modifyResource r _)

theorem completed {ec : Int} (h : c.resourceActionCompleted d env o ec = .ok c') :
    SameAddresses c c' := by
  simp only [resourceActionCompleted] at h
  split at h
  case h_1 => cases h
  case h_2 =>
    obtain ⟨c₁, hrecord, h⟩ := bind_eq_ok.mp h
    obtain ⟨c₂, hset, hrelease⟩ := bind_eq_ok.mp h
    have hcounted : SameAddresses c (c.timesExecutedAdd o) := of_cloud rfl
    have hconfirmed : SameAddresses c₁ (c₁.confirmFirst o ec) := by
      unfold confirmFirst
      split <;> exact of_cloud rfl
    refine ((hcounted.trans (opHistoryRecord hrecord)).trans hconfirmed).trans
      ((resourceStateSet hset).trans ?_)
    have hscheduled : SameAddresses c₂
        (if (c.ops o).Unexpected ec then c₂.scheduleProcessing else c₂) := by
      split <;> exact of_cloud rfl
    refine hscheduled.trans ?_
    rcases resourceActionRelease_ok hrelease with ⟨-, rfl⟩ | ⟨r, -, -, rfl⟩
    · exact of_cloud (Unwinds.peResourceUnref _ o).cloud
    · exact of_cloud rfl

theorem completion {sshRc : Int} (h : c.resourceActionCompletion d env o sshRc = .ok c') :
    SameAddresses c c' := by
  obtain ⟨mid, hmid, heq⟩ := bind_eq_ok.mp h
  cases heq
  exact (completed hmid).trans (of_cloud (Unwinds.peResourceUnref mid o).cloud)

theorem executeCb {state : RecoverState} {queued : Bool}
    (h : c.Executed d env o state c' queued) : SameAddresses c c' := by
  have hsettle : ∀ (b : Cape σ) ec, (b.settle o ec).cloud = b.cloud :=
    fun b ec => (Unwinds.peResourceUnref (b.peResourceCompleted o ec) o).cloud
  cases h with
  | offline hstate hok =>
      refine (completed hok).trans ?_
      split <;> exact of_cloud rfl
  | foreign => exact of_cloud (hsettle _ _)
  | monitored => exact of_cloud (hsettle _ _)
  | monitor | probe | start => exact of_cloud rfl
  | @stop r =>
      have hstop := (Unwinds.stopMonitor (c.setResource o (some r)) r).cloud
      exact of_cloud hstop
  | delete => exact of_cloud ((hsettle _ _).trans (Unwinds.clearHistory _ _).cloud)

theorem foldlM_receive {a b : CString} {outputs : List Output}
    (hquiet : b = a → ∀ address, .address address ∉ outputs)
    (h : outputs.foldlM (Cape.receive d a env) c = .ok c') : c'.addresses b = c.addresses b := by
  induction outputs generalizing c with
  | nil =>
      cases h
      rfl
  | cons x outputs ih =>
      rw [List.foldlM_cons] at h
      obtain ⟨mid, hx, hrest⟩ := bind_eq_ok.mp h
      rw [ih (fun hb address hmem => hquiet hb address (List.mem_cons_of_mem x hmem)) hrest]
      cases x with
      | stateChanging =>
          cases hx
          rfl
      | restarted =>
          cases hx
          have hcleared : SameAddresses c (c.nodeOpHistoryClear a) :=
            of_cloud (Unwinds.clearHistory c _).cloud
          exact congrFun (hcleared.trans (instanceRequests _ a env)) b
      | address address =>
          cases hx
          have hb : b ≠ a := fun heq => hquiet heq address List.mem_cons_self
          simp [addresses, Cape.modifyCloud, Function.update_of_ne hb]
      | actionCompleted o sshRc => exact congrFun (completion hx) b

end SameAddresses

end Cape

/-! ## The handlers that report an address -/

namespace Assembly

variable {σ : Type} [Stopwatch σ] {a a' : Assembly σ} {s : Nat} {env : Env}
  {outputs : List Output} {address : CString}

theorem recoverSet_address (a : Assembly σ) (now : Nat) (state : RecoverState) :
    .address address ∉ (a.recoverSet now state).2 := by
  obtain ⟨r, -, -, -, ⟨outputs, heq, houtputs, -⟩ | ⟨-, -, heq⟩⟩ := a.recoverSet_cases now state
  · rw [heq]
    rcases houtputs with rfl | rfl <;> simp
  · rw [heq]
    simp

theorem up_address (h : a.up env = .ok (a', outputs)) : .address address ∉ outputs := by
  simp only [up] at h
  split at h
  · cases h
    exact recoverSet_address _ _ _
  · cases h

theorem handshake_address (h : a.handshake env = .ok (a', outputs)) :
    .address address ∉ outputs := by
  unfold handshake at h
  split at h
  · cases h
  split at h
  · cases h
    simp
  · cases h
    simp
  · cases h
  · exact up_address h
  · exact up_address h

theorem unhealthy_address (h : a.unhealthy env = .ok (a', outputs)) :
    .address address ∉ outputs := by
  unfold unhealthy at h
  split at h
  case h_1 => cases h
  case h_2 t _ =>
    have hset : .address address ∉ ((a.transportFailed t).recoverSet env.now .failed).2 :=
      recoverSet_address _ _ _
    rwa [Except.ok.inj h] at hset

theorem exec_address (h : a.exec s env = .ok (a', outputs)) : .address address ∉ outputs := by
  rcases exec_eq_ok h with ⟨state, sshRc, -, -, rfl⟩ | ⟨-, -, rfl⟩ |
    ⟨sshRc, b, -, hcompleted, -⟩
  · simp
  · simp
  · unfold completed at hcompleted
    split at hcompleted
    · cases hcompleted
      simp
    split at hcompleted
    · exact unhealthy_address hcompleted
    split at hcompleted
    · split at hcompleted
      · cases hcompleted
      · cases hcompleted
        simp
    · cases hcompleted
      simp

theorem timeout_address (h : a.timeout s env = .ok (a', outputs)) :
    .address address ∉ outputs := by
  simp only [timeout] at h
  split at h
  · exact unhealthy_address h
  · have hset : .address address ∉ ((a.sshTimeoutFlush s).recoverSet env.now .failed).2 :=
      recoverSet_address _ _ _
    rwa [Except.ok.inj h] at hset

theorem poll_down (hdown : a.recover.state ≠ .running) (h : a.poll env = .ok (a', outputs)) :
    a'.recover.state ≠ .running := by
  cases pollStep_of_poll h with
  | unanswered => exact hdown
  | active => exact hdown
  | pending => simp [timerAdd, recoverSet_state]

theorem reactJob_address (hsound : a.Sound) {job : AssemblyJob} (hjob : job ∈ a.jobs)
    (hreact : (a.jobDel job).reactJob env job = .ok (a', outputs))
    (hrunning : a'.recover.state = .running) : .address address ∉ outputs := by
  cases job with
  | myInstanceStateGet =>
      have hdown := hsound.not_running (pipeline_ne_zero_of_polled (Or.inl hjob))
      exact absurd hrunning (poll_down (a := a.jobDel _) hdown hreact)
  | connectExecute =>
      simp only [reactJob] at hreact
      split at hreact
      · cases hreact
        simp
      · cases hreact
  | sshAssemblyConnect => exact handshake_address hreact
  | assemblySshExec s => exact exec_address hreact

theorem reactTimer_address (hsound : a.Sound) {handle : Nat} {timer : AssemblyTimer}
    (htimer : (handle, timer) ∈ a.timers)
    (hreact : (a.timerDel handle).reactTimer env timer = .ok (a', outputs))
    (hrunning : a'.recover.state = .running) : .address address ∉ outputs := by
  cases timer with
  | myInstanceStateGet =>
      have hdown := hsound.not_running
        (pipeline_ne_zero_of_polled (Or.inr ⟨_, htimer, rfl⟩))
      exact absurd hrunning (poll_down (a := a.timerDel _) hdown hreact)
  | sshTimeout s => exact timeout_address hreact
  | sshKeepaliveSend t =>
      cases hreact
      simp
  | assemblyHealthcheck =>
      simp only [reactTimer] at hreact
      split at hreact
      · cases hreact
        simp
      · cases hreact

end Assembly

namespace World

variable {σ : Type} [Stopwatch σ] {d : Deployable} {w w' : World σ} {e : Event}

omit [Stopwatch σ] in
theorem Engine.cloud {c c' : Cape σ} (h : Engine c c') : c'.cloud = c.cloud := by
  cases h with
  | processJob =>
      simp only [World.processJob]
      split <;> rfl
  | processNextJob =>
      simp only [World.processNextJob]
      split <;> rfl
  | confirmed => rfl
  | @returned graph status => cases status <;> rfl

theorem step_addresses (hsound : ∀ a, (w.assemblies a).Sound)
    (hstep : World.step d w e = .ok w') {b : CString}
    (hrunning : (w'.assemblies b).recover.state = .running) :
    w'.cape.addresses b = w.cape.addresses b := by
  have hsame : ∀ {c : Cape σ}, w.cape.SameAddresses c → c.addresses b = w.cape.addresses b :=
    fun h => congrFun h b
  have hengine : ∀ {c : Cape σ}, Engine w.cape c → c.addresses b = w.cape.addresses b :=
    fun h => hsame (.of_cloud h.cloud)
  cases step_transition hsound hstep with
  | job hgraph hjob hreact hcalls =>
      refine Cape.SameAddresses.foldlM_receive (fun hb address => ?_) hcalls
      subst hb
      simp only [Function.update_self] at hrunning
      exact Assembly.reactJob_address (hsound _) hjob hreact hrunning
  | timer hgraph htimer hreact hcalls =>
      refine Cape.SameAddresses.foldlM_receive (fun hb address => ?_) hcalls
      subst hb
      simp only [Function.update_self] at hrunning
      exact Assembly.reactTimer_address (hsound _) htimer hreact hrunning
  | @monitorOffline handle o env c hgraph htimer hstate hok =>
      have hdeleted : w.cape.SameAddresses (w.cape.timerDel handle) := .of_cloud rfl
      exact hsame (hdeleted.trans (.completed hok))
  | monitorRequest => rfl
  | processJob => exact hengine .processJob
  | processNextJob hgraph hmem => exact hengine (.processNextJob hgraph hmem)
  | confirmed => exact hengine .confirmed
  | @fire graph spec env c queued command hgraph hexec =>
      have hcreated : w.cape.SameAddresses (execRscAction w.cape graph spec) := .of_cloud rfl
      exact hsame (hcreated.trans (.executeCb hexec))
  | returned hgraph hconfirmed => exact hengine (.returned hgraph hconfirmed)

end World

end PacemakerCloud

import PacemakerCloud.Assembly.Reaction

/-!
# Disconnected transports

`transport_disconnect` frees the transport, but `a->transport` keeps pointing to it.  A
job or timer refers to a transport through the assembly, through a command or directly.
A handler either keeps the connection of its assembly or restarts the node, and then no
transport is left that anything refers to.
-/

namespace PacemakerCloud

open Foundation

def TransSsh.line (trans : TransSsh) : SshState × Nat × Bool :=
  (trans.sshState, trans.keepaliveTimer, trans.freed)

namespace Assembly

variable {σ : Type}

def jobRefers (a : Assembly σ) (t : Nat) : AssemblyJob → Bool
  | .myInstanceStateGet => false
  | .connectExecute | .sshAssemblyConnect => a.transport = some t
  | .assemblySshExec s => (a.sshOps s).transport = t

def timerRefers (a : Assembly σ) (t : Nat) : AssemblyTimer → Bool
  | .myInstanceStateGet => false
  | .sshTimeout s => (a.sshOps s).transport = t
  | .sshKeepaliveSend t' => t' = t
  | .assemblyHealthcheck => a.transport = some t

def Referred (a : Assembly σ) (t : Nat) : Prop :=
  (∃ job ∈ a.jobs, a.jobRefers t job = true) ∨ ∃ x ∈ a.timers, a.timerRefers t x.2 = true

instance (a : Assembly σ) (t : Nat) : Decidable (a.Referred t) :=
  inferInstanceAs (Decidable (_ ∨ _))

def KeepalivesOwned (a : Assembly σ) : Prop :=
  ∀ handle t, (handle, .sshKeepaliveSend t) ∈ a.timers →
    a.Connected t ∧ (a.trans t).keepaliveTimer = handle

structure Dialing (a : Assembly σ) : Prop where
  keepalives : a.KeepalivesOwned
  /-- A transport is being connected to the instance exactly while its job is pending. -/
  connecting : ∀ t, a.Live t →
    ((a.trans t).sshState = .sessionConnecting ↔ .connectExecute ∈ a.jobs)

variable {a a' a'' : Assembly σ} {t s : Nat} {env : Env} {outputs : List Output}

theorem Live.eq {t' : Nat} (h : a.Live t) (htransport : a.transport = some t') : t' = t :=
  Option.some.inj (htransport.symm.trans h.1)

theorem Commands.job_live (h : a.Commands) (hpipeline : a.Pipeline) {job : AssemblyJob}
    (hjob : job ∈ a.jobs) (hrefers : a.jobRefers t job = true) : a.Live t := by
  have hconnecting : .connectExecute ∈ a.jobs ∨ .sshAssemblyConnect ∈ a.jobs →
      a.transport = some t → a.Live t := by
    intro hpending htransport
    obtain ⟨t', hlive⟩ := hpipeline.connecting hpending
    rwa [hlive.eq htransport]
  cases job with
  | myInstanceStateGet => cases hrefers
  | connectExecute => exact hconnecting (Or.inl hjob) (of_decide_eq_true hrefers)
  | sshAssemblyConnect => exact hconnecting (Or.inr hjob) (of_decide_eq_true hrefers)
  | assemblySshExec s =>
      have hmem := List.mem_of_mem_head? (h.exec_queue hjob).1
      rw [of_decide_eq_true hrefers] at hmem
      exact (h.queue_connected hmem).1

theorem Commands.timer_connected (h : a.Commands) (howned : a.KeepalivesOwned)
    {handle : Nat} {timer : AssemblyTimer} (htimer : (handle, timer) ∈ a.timers)
    (hrefers : a.timerRefers t timer = true) : a.Connected t := by
  cases timer with
  | myInstanceStateGet => cases hrefers
  | sshTimeout s =>
      obtain ⟨-, t', hmem⟩ := h.timeout_queued htimer
      have ht : t' = t := (h.queue_op hmem).2.symm.trans (of_decide_eq_true hrefers)
      rw [ht] at hmem
      exact h.queue_connected hmem
  | sshKeepaliveSend t' =>
      have hconnected := (howned handle t' htimer).1
      rwa [of_decide_eq_true hrefers] at hconnected
  | assemblyHealthcheck =>
      obtain ⟨t', hconnected, -⟩ := h.health_connected htimer
      rw [hconnected.1.eq (of_decide_eq_true hrefers)]
      exact hconnected

def Unreferred (a : Assembly σ) : Prop :=
  ∀ t, (a.trans t).freed = true → ¬ a.Referred t

theorem Commands.unreferred (h : a.Commands) (hpipeline : a.Pipeline)
    (howned : a.KeepalivesOwned) : a.Unreferred := by
  intro t hfreed hreferred
  have hlive : a.Live t := by
    rcases hreferred with ⟨job, hjob, hrefers⟩ | ⟨⟨handle, timer⟩, htimer, hrefers⟩
    · exact h.job_live hpipeline hjob hrefers
    · exact (h.timer_connected howned htimer hrefers).1
  rw [hlive.2] at hfreed
  cases hfreed

/-! ## What keeps the connection -/

structure Keeps (a a' : Assembly σ) : Prop where
  transport : a'.transport = a.transport
  line : ∀ t, (a'.trans t).line = (a.trans t).line
  timers : ∀ {handle t}, (handle, .sshKeepaliveSend t) ∈ a'.timers →
    (handle, .sshKeepaliveSend t) ∈ a.timers

structure Down (a : Assembly σ) : Prop where
  not_live : ∀ t, ¬ a.Live t
  timers : ∀ {handle t}, (handle, .sshKeepaliveSend t) ∉ a.timers

namespace Keeps

theorem refl (a : Assembly σ) : Keeps a a := ⟨rfl, fun _ => rfl, id⟩

theorem trans (h : Keeps a a') (h' : Keeps a' a'') : Keeps a a'' :=
  ⟨h'.transport.trans h.transport, fun t => (h'.line t).trans (h.line t),
    fun hmem => h.timers (h'.timers hmem)⟩

theorem freed (h : Keeps a a') (t : Nat) : (a'.trans t).freed = (a.trans t).freed :=
  congrArg (fun line => line.2.2) (h.line t)

theorem live (h : Keeps a a') : a'.Live t ↔ a.Live t := by
  simp only [Live, h.transport, h.freed]

theorem connected (h : Keeps a a') : a'.Connected t ↔ a.Connected t := by
  have hstate : (a'.trans t).sshState = (a.trans t).sshState :=
    congrArg (fun line => line.1) (h.line t)
  simp only [Connected, h.live, hstate]

theorem down (h : Keeps a a') (hdown : a.Down) : a'.Down :=
  ⟨fun t hlive => hdown.not_live t (h.live.mp hlive),
    fun hmem => hdown.timers (h.timers hmem)⟩

theorem keepalives (h : Keeps a a') (howned : a.KeepalivesOwned) :
    a'.KeepalivesOwned := by
  intro handle t hmem
  obtain ⟨hconnected, htimer⟩ := howned handle t (h.timers hmem)
  have hsame : (a'.trans t).keepaliveTimer = (a.trans t).keepaliveTimer :=
    congrArg (fun line => line.2.1) (h.line t)
  exact ⟨h.connected.mpr hconnected, hsame.trans htimer⟩

theorem modifyTrans (a : Assembly σ) (t : Nat) {f : TransSsh → TransSsh}
    (hf : (f (a.trans t)).line = (a.trans t).line) : Keeps a (a.modifyTrans t f) := by
  refine ⟨rfl, fun t' => ?_, id⟩
  by_cases ht : t' = t
  · subst ht
    simpa [Assembly.modifyTrans] using hf
  · simp [Assembly.modifyTrans, Function.update_of_ne ht]

theorem timerDel (a : Assembly σ) (handle : Nat) : Keeps a (a.timerDel handle) :=
  ⟨rfl, fun _ => rfl, List.mem_of_mem_filter⟩

theorem jobDel (a : Assembly σ) (job : AssemblyJob) : Keeps a (a.jobDel job) :=
  ⟨rfl, fun _ => rfl, id⟩

theorem jobAdd (a : Assembly σ) (job : AssemblyJob) : Keeps a (a.jobAdd job) :=
  ⟨rfl, fun _ => rfl, id⟩

theorem setRecover (a : Assembly σ) (r : Recover σ) : Keeps a { a with recover := r } :=
  ⟨rfl, fun _ => rfl, id⟩

theorem timerAdd (a : Assembly σ) {timer : AssemblyTimer}
    (htimer : ∀ t, timer ≠ .sshKeepaliveSend t) : Keeps a (a.timerAdd timer) := by
  refine ⟨rfl, fun _ => rfl, fun {handle t} hmem => ?_⟩
  rcases List.mem_append.mp hmem with hold | hnew
  · exact hold
  · have heq := (Prod.mk.inj (List.mem_singleton.mp hnew)).2
    exact absurd heq.symm (htimer t)

theorem healthcheckTimerAdd (a : Assembly σ) (t : Nat) :
    Keeps a (a.healthcheckTimerAdd t) :=
  (timerAdd a (by simp)).trans (modifyTrans _ t rfl)

theorem transportSchedule (a : Assembly σ) (t : Nat) : Keeps a (a.transportSchedule t) := by
  unfold Assembly.transportSchedule
  split
  · exact (modifyTrans a t rfl).trans (jobAdd _ _)
  · exact modifyTrans a t rfl

theorem enqueue (a : Assembly σ) (t : Nat) (callback : SshCallback) (command : CString) :
    Keeps a (a.enqueue t callback command) := by
  have hadded : Keeps a (a.addCommand t callback command) := by
    have hqueue := modifyTrans a t
      (f := fun trans => { trans with queue := trans.queue ++ [a.sshCount] }) rfl
    refine ⟨rfl, hqueue.line, fun {handle t'} hmem => ?_⟩
    rcases List.mem_append.mp hmem with hold | hnew
    · exact hold
    · simp at hnew
  unfold Assembly.enqueue
  split
  · exact hadded
  · exact hadded.trans (transportSchedule _ t)

theorem flush (a : Assembly σ) (t : Nat) : Keeps a (a.flush t) := by
  obtain ⟨jobs, timers, scheduled, -, htimers, heq⟩ := a.flush_eq t
  have hqueue := modifyTrans a t
    (f := ({ · with queue := [], scheduled := scheduled })) rfl
  rw [heq]
  exact ⟨rfl, hqueue.line, fun hmem => htimers.subset hmem⟩

theorem sshOpDequeue (a : Assembly σ) (s : Nat) : Keeps a (a.sshOpDequeue s) :=
  (timerDel a _).trans (modifyTrans _ _ rfl)

theorem execAgain (a : Assembly σ) (s : Nat) (state : SshExecState) (sshRc : Int) :
    Keeps a (a.execAgain s state sshRc) :=
  ⟨rfl, fun _ => rfl, id⟩

theorem dialing (h : Keeps a a') (hdialing : a.KeepalivesOwned)
    (hconnected : a.Connected t) (hsound : a'.Sound) : a'.Dialing := by
  refine ⟨h.keepalives hdialing, fun t' hlive => ?_⟩
  have hconnected' := h.connected.mpr hconnected
  obtain rfl : t = t' := hlive.eq hconnected'.1.1
  have hnone := (pipeline_eq_zero.mp (hsound.pipeline.connected hconnected')).2.1
  simp [hconnected'.2, hnone]

end Keeps

theorem Down.dialing (h : a.Down) : a.Dialing :=
  ⟨fun _ _ hmem => absurd hmem h.timers, fun t hlive => absurd hlive (h.not_live t)⟩

theorem KeepalivesOwned.down (h : a.KeepalivesOwned) (hnone : ∀ t, ¬ a.Live t) : a.Down :=
  ⟨hnone, fun {handle t} hmem => hnone t (h handle t hmem).1.1⟩

/-! ## Connecting -/

theorem transportConnect_dialing (hdown : a.Down) : a.transportConnect.Dialing := by
  refine ⟨fun handle t hmem => absurd hmem hdown.timers, fun t hlive => ?_⟩
  obtain rfl : a.transCount = t := hlive.eq rfl
  simp [transportConnect, jobAdd]

theorem Dialing.leave (howned : a.KeepalivesOwned) (hlive : a.Live t)
    (hnot : ¬ a.Connected t) (hgone : .connectExecute ∉ a.jobs) {state : SshState}
    (hstate : state ≠ .sessionConnecting) :
    (a.modifyTrans t ({ · with sshState := state })).Dialing := by
  refine ⟨fun handle t' hmem => ?_, fun t' hlive' => ?_⟩
  · have hconnected := (howned handle t' hmem).1
    exact absurd (hconnected.1.eq hlive.1 ▸ hconnected) hnot
  · obtain rfl : t = t' := hlive'.eq hlive.1
    simp [modifyTrans, hstate, hgone]

theorem Dialing.jobAdd (h : a.Dialing) {job : AssemblyJob} (hjob : job ≠ .connectExecute) :
    (a.jobAdd job).Dialing :=
  ⟨h.keepalives, fun t hlive => by
    simpa [Assembly.jobAdd, hjob.symm] using h.connecting t hlive⟩

theorem connectExecute_dialing (howned : a.KeepalivesOwned) (hlive : a.Live t)
    (hgone : .connectExecute ∉ a.jobs) (hstate : (a.trans t).sshState = .sessionConnecting)
    (h : a.connectExecute env = .ok a') : a'.Dialing := by
  have hnot : ¬ a.Connected t := fun hconnected => by
    rw [hconnected.2] at hstate
    cases hstate
  simp only [connectExecute, hlive.1] at h
  split at h
  · cases h
    exact (Dialing.leave howned hlive hnot hgone (by simp)).jobAdd (by simp)
  · cases h
    refine ⟨howned, fun t' hlive' => ?_⟩
    obtain rfl : t = t' := hlive'.eq hlive.1
    simp [jobAdd, hstate]

theorem KeepalivesOwned.of_only (hconnected : a.Connected t)
    (honly : ∀ handle t', (handle, .sshKeepaliveSend t') ∈ a.timers →
      handle = (a.trans t).keepaliveTimer ∧ t' = t) : a.KeepalivesOwned := by
  intro handle t' hmem
  obtain ⟨rfl, rfl⟩ := honly handle t' hmem
  exact ⟨hconnected, rfl⟩

theorem sshKeepaliveSend_owned (howned : a.KeepalivesOwned) {handle : Nat}
    (htimer : (handle, .sshKeepaliveSend t) ∈ a.timers) :
    ((a.timerDel handle).sshKeepaliveSend t).Connected t ∧
      ((a.timerDel handle).sshKeepaliveSend t).KeepalivesOwned := by
  obtain ⟨hconnected, hknown⟩ := howned handle t htimer
  have hconnected' : ((a.timerDel handle).sshKeepaliveSend t).Connected t := by
    simpa [Connected, Live, sshKeepaliveSend, modifyTrans, timerAdd, timerDel]
      using hconnected
  refine ⟨hconnected', .of_only hconnected' fun handle' t' hmem => ?_⟩
  rcases List.mem_append.mp hmem with hold | hnew
  · -- the timer that fired was the only one
    obtain ⟨hc, hknown'⟩ := howned handle' t' (List.mem_of_mem_filter hold)
    obtain rfl : t = t' := hc.1.eq hconnected.1.1
    have hne : handle' ≠ handle := by simpa using List.of_mem_filter hold
    exact absurd (hknown'.symm.trans hknown) hne
  · simpa [sshKeepaliveSend, modifyTrans, timerDel] using hnew

/-! ## How a handler of a connected assembly ends -/

inductive Ends (a a' : Assembly σ) (outputs : List Output) : Prop where
  | kept (hkeeps : Keeps a a') (hnot : .restarted ∉ outputs)
  | down (htransport : a'.transport = a.transport) (hdown : a'.Down)
      (hrestarted : .restarted ∈ outputs)

namespace Ends

theorem after (h : Keeps a a') (h' : Ends a' a'' outputs) : Ends a a'' outputs := by
  cases h' with
  | kept hkeeps hnot => exact .kept (h.trans hkeeps) hnot
  | down htransport hdown hrestarted =>
      exact .down (htransport.trans h.transport) hdown hrestarted

theorem before (h : Ends a a' outputs) (h' : Keeps a' a'') : Ends a a'' outputs := by
  cases h with
  | kept hkeeps hnot => exact .kept (hkeeps.trans h') hnot
  | down htransport hdown hrestarted =>
      exact .down (h'.transport.trans htransport) (h'.down hdown) hrestarted

theorem dialing (h : Ends a a' outputs) (howned : a.KeepalivesOwned)
    (hconnected : a.Connected t) (hsound : a'.Sound) : a'.Dialing := by
  cases h with
  | kept hkeeps _ => exact hkeeps.dialing howned hconnected hsound
  | down _ hdown _ => exact hdown.dialing

theorem freed_iff (h : Ends a a' outputs) (hconnected : a.Connected t) :
    (a'.trans t).freed = true ↔ .restarted ∈ outputs := by
  cases h with
  | kept hkeeps hnot => simp [hkeeps.freed, hconnected.1.2, hnot]
  | down htransport hdown hrestarted =>
      have hdead : ¬ a'.Live t := hdown.not_live t
      simpa [Live, htransport, hconnected.1.1, hrestarted] using hdead

end Ends

theorem transportDisconnect_down (howned : a.KeepalivesOwned) (hconnected : a.Connected t) :
    a.transportDisconnect.transport = a.transport ∧ a.transportDisconnect.Down := by
  have heq := transportDisconnect_eq hconnected
  have hkeeps := ((Keeps.timerDel a (a.trans t).healthcheckTimer).trans
    (Keeps.flush _ t)).trans (Keeps.timerDel _ (a.trans t).keepaliveTimer)
  have htransport : a.transportDisconnect.transport = a.transport := by
    rw [heq]
    exact hkeeps.transport
  refine ⟨htransport, fun t' hlive => ?_, fun {handle t'} hmem => ?_⟩
  · obtain rfl : t = t' := hlive.eq (htransport.trans hconnected.1.1)
    have hfreed := hlive.2
    rw [heq] at hfreed
    simp [modifyTrans] at hfreed
  · rw [heq] at hmem
    obtain ⟨hconnected', rfl⟩ := howned handle t' (hkeeps.timers hmem)
    obtain rfl : t = t' := hconnected'.1.eq hconnected.1.1
    simpa using List.of_mem_filter hmem

theorem restart_down (howned : a.KeepalivesOwned) (hconnected : a.Connected t) :
    a.restart.transport = a.transport ∧ a.restart.Down := by
  obtain ⟨htransport, hdown⟩ := transportDisconnect_down howned hconnected
  exact ⟨htransport, (Keeps.jobAdd _ _).down hdown⟩

/-! ## Disconnecting in any state -/

theorem deleteQueue_of_nil (h : (a.trans t).queue = []) : a.deleteQueue t = a := by
  have hsame : Function.update a.trans t { a.trans t with queue := [] } = a.trans := by
    rw [← h]
    exact Function.update_eq_self t a.trans
  simp only [deleteQueue, h, List.foldl_nil, modifyTrans, hsame]

/--
Before the session is up the queue is empty, and all that `transport_disconnect` deletes
from the loop are jobs; the one that connects to the instance stays.
-/
theorem transportDisconnect_dialing (hcommands : a.Commands) (hlive : a.Live t)
    (hnot : ¬ a.Connected t) :
    ∃ jobs timers, jobs.Sublist (a.jobs.erase .sshAssemblyConnect) ∧
      timers.Sublist a.timers ∧
      ((a.trans t).sshState = .sessionConnecting → .connectExecute ∈ a.jobs →
        .connectExecute ∈ jobs) ∧
      a.transportDisconnect =
        { a.modifyTrans t ({ · with freed := true }) with
          jobs := jobs
          timers := timers } := by
  have hqueue : (a.trans t).queue = [] :=
    List.eq_nil_iff_forall_not_mem.mpr
      fun s hs => hnot (hcommands.queue_connected hs)
  cases hstate : (a.trans t).sshState with
  | sessionConnected => exact absurd ⟨hlive, hstate⟩ hnot
  | sessionConnecting =>
      refine ⟨a.jobs.erase .sshAssemblyConnect,
        a.timers.filter (·.1 ≠ (a.trans t).healthcheckTimer), .refl _, List.filter_sublist,
        fun _ hjob => (List.mem_erase_of_ne (by simp)).mpr hjob, ?_⟩
      simp [transportDisconnect, hlive.1, hstate, deleteQueue_of_nil, jobDel, timerDel, hqueue,
        disconnectSession, modifyTrans]
  | sessionInit =>
      refine ⟨((a.jobs.erase .connectExecute).erase .sshAssemblyConnect).erase
        .sshAssemblyConnect, a.timers.filter (·.1 ≠ (a.trans t).healthcheckTimer),
        List.erase_sublist.trans (List.erase_sublist.erase _), List.filter_sublist,
        by simp, ?_⟩
      simp [transportDisconnect, hlive.1, hstate, deleteQueue_of_nil, jobDel, timerDel, hqueue,
        disconnectSession, modifyTrans]
  | sessionStartup | userauthPublickeyFromfile | keepaliveConfig =>
      refine ⟨(a.jobs.erase .sshAssemblyConnect).erase .sshAssemblyConnect,
        (a.timers.filter (·.1 ≠ (a.trans t).healthcheckTimer)).filter
          (·.1 ≠ (a.trans t).keepaliveTimer), List.erase_sublist,
        List.filter_sublist.trans List.filter_sublist, by simp, ?_⟩
      simp [transportDisconnect, hlive.1, hstate, deleteQueue_of_nil, jobDel, timerDel, hqueue,
        disconnectSession, modifyTrans]

theorem Pipeline.connect_erased (h : a.Pipeline) :
    .sshAssemblyConnect ∉ a.jobs.erase .sshAssemblyConnect := by
  by_cases hjob : .sshAssemblyConnect ∈ a.jobs
  · have hzero := h.jobDel_zero hjob (by simp)
    exact (pipeline_eq_zero.mp hzero).2.2.1
  · exact fun hmem => hjob (List.mem_of_mem_erase hmem)

/--
In any state of the connection, everything that refers to it is deleted from the loop but
the job that connects to the instance.
-/
theorem Dialing.unreferred_iff (h : a.Dialing) (hcommands : a.Commands)
    (hpipeline : a.Pipeline) (hlive : a.Live t) :
    a.transportDisconnect.Unreferred ↔ (a.trans t).sshState ≠ .sessionConnecting := by
  by_cases hconnected : a.Connected t
  · obtain ⟨hcommands', -⟩ := hcommands.transportDisconnect hconnected
    obtain ⟨-, hdown⟩ := transportDisconnect_down h.keepalives hconnected
    have hzero : a.transportDisconnect.pipeline = 0 := by
      obtain ⟨jobs, timers, scheduled, hjobs, htimers, heq⟩ :=
        transportDisconnect_frame hconnected
      have hle : a.transportDisconnect.pipeline ≤ a.pipeline :=
        pipeline_le_of_sublist (by rw [heq]; exact hjobs) (by rw [heq]; exact htimers)
      have hnone := hpipeline.connected hconnected
      omega
    have hdone := hcommands'.unreferred (.of_zero hzero) hdown.dialing.keepalives
    simp [hdone, hconnected.2]
  obtain ⟨jobs, timers, hjobs, htimers, hkept, heq⟩ :=
    transportDisconnect_dialing hcommands hlive hconnected
  have hnone : ∀ t', ¬ a.Connected t' := fun t' h' => hconnected (h'.1.eq hlive.1 ▸ h')
  rw [heq]
  constructor
  · intro hunreferred hstate
    have hjob := hkept hstate ((h.connecting t hlive).mp hstate)
    refine hunreferred t (by simp [modifyTrans]) (Or.inl ⟨_, hjob, ?_⟩)
    exact decide_eq_true hlive.1
  · rintro hstate t' - (⟨job, hjob, hrefers⟩ | ⟨⟨handle, timer⟩, htimer, hrefers⟩)
    · have hmem := hjobs.subset hjob
      cases job with
      | myInstanceStateGet => cases hrefers
      | connectExecute =>
          exact hstate ((h.connecting t hlive).mpr (List.mem_of_mem_erase hmem))
      | sshAssemblyConnect => exact hpipeline.connect_erased hmem
      | assemblySshExec s =>
          have hexec := (hcommands.exec_queue (List.mem_of_mem_erase hmem)).1
          exact hnone _ (hcommands.queue_connected (List.mem_of_mem_head? hexec))
    · have hrefers' : a.timerRefers t' timer = true := by
        cases timer <;> exact hrefers
      exact hnone t'
        (hcommands.timer_connected h.keepalives (htimers.subset htimer) hrefers')

/-! ## The handlers of a connected assembly -/

variable [Stopwatch σ]

theorem recoverSet_keeps (a : Assembly σ) (now : Nat) (state : RecoverState)
    (hstate : state ≠ .failed) :
    Keeps a (a.recoverSet now state).1 ∧ .restarted ∉ (a.recoverSet now state).2 := by
  obtain ⟨r, -, -, -, ⟨outputs, heq, houtputs, -⟩ | ⟨hfailed, -⟩⟩ :=
    a.recoverSet_cases now state
  · rw [heq]
    refine ⟨.setRecover a r, ?_⟩
    rcases houtputs with rfl | rfl <;> simp
  · exact absurd hfailed hstate

theorem recoverSet_ends (howned : a.KeepalivesOwned) (hconnected : a.Connected t)
    (now : Nat) (state : RecoverState) :
    Ends a (a.recoverSet now state).1 (a.recoverSet now state).2 := by
  obtain ⟨r, -, -, -, ⟨outputs, heq, houtputs, -⟩ | ⟨-, -, heq⟩⟩ :=
    a.recoverSet_cases now state
  · rw [heq]
    refine .kept (.setRecover a r) ?_
    rcases houtputs with rfl | rfl <;> simp
  · rw [heq]
    obtain ⟨htransport, hdown⟩ := restart_down (a := { a with recover := r }) (t := t)
      howned hconnected
    exact .down htransport hdown (by simp)

theorem unhealthy_ends (howned : a.KeepalivesOwned) (hconnected : a.Connected t)
    (h : a.unhealthy env = .ok (a', outputs)) : Ends a a' outputs := by
  simp only [unhealthy, hconnected.1.1, Except.ok.injEq] at h
  have hfailed := Keeps.timerDel a (a.trans t).keepaliveTimer
  have hset := recoverSet_ends (hfailed.keepalives howned) (t := t)
    (hfailed.connected.mpr hconnected) env.now .failed
  change Ends _ ((a.transportFailed t).recoverSet env.now .failed).1
    ((a.transportFailed t).recoverSet env.now .failed).2 at hset
  rw [h] at hset
  exact hset.after hfailed

theorem completed_ends (howned : a.KeepalivesOwned) (hconnected : a.Connected t)
    {callback : SshCallback} {sshRc : Int}
    (h : a.completed callback env sshRc = .ok (a', outputs)) : Ends a a' outputs := by
  cases callback with
  | resourceAction o =>
      cases h
      exact .kept (.refl a) (by simp)
  | healthcheck =>
      simp only [completed, hconnected.1.1] at h
      split at h
      · exact unhealthy_ends howned hconnected h
      split at h
      · cases h
        exact .kept (.healthcheckTimerAdd a t) (by simp)
      · cases h
        exact .kept (.refl a) (by simp)

theorem exec_ends (howned : a.KeepalivesOwned) (hconnected : a.Connected t)
    (h : a.exec s env = .ok (a', outputs)) : Ends a a' outputs := by
  rcases exec_eq_ok h with ⟨state, sshRc, -, rfl, rfl⟩ | ⟨-, rfl, rfl⟩ |
    ⟨sshRc, b, -, hcompleted, rfl⟩
  · exact .kept (.execAgain a s state sshRc) (by simp)
  · exact .kept (.refl a') (by simp)
  · have hdequeue := Keeps.sshOpDequeue a s
    have hends := completed_ends (hdequeue.keepalives howned)
      (hdequeue.connected.mpr hconnected) hcompleted
    exact (hends.after hdequeue).before (.transportSchedule b _)

theorem timeout_ends (howned : a.KeepalivesOwned) (hconnected : a.Connected t)
    (h : a.timeout s env = .ok (a', outputs)) : Ends a a' outputs := by
  have hflush : Keeps a (a.sshTimeoutFlush s) := Keeps.flush a (a.sshOps s).transport
  have howned' := hflush.keepalives howned
  have hconnected' := hflush.connected.mpr hconnected
  simp only [timeout] at h
  split at h
  · exact (unhealthy_ends howned' hconnected' h).after hflush
  · have hset := recoverSet_ends howned' hconnected' env.now .failed
    rw [Except.ok.inj h] at hset
    exact hset.after hflush

/-! ## The steps of the recovery -/

theorem poll_dialing (hdown : a.Down) (h : a.poll env = .ok (a', outputs)) :
    a'.Dialing ∧ .restarted ∉ outputs := by
  cases pollStep_of_poll h with
  | unanswered => exact ⟨hdown.dialing, by simp⟩
  | active => exact ⟨transportConnect_dialing hdown, by simp⟩
  | pending =>
      obtain ⟨hset, hnot⟩ := recoverSet_keeps a env.now .unknown (by simp)
      exact ⟨((hset.trans (.timerAdd _ (by simp))).down hdown).dialing, hnot⟩

theorem up_keeps (hconnected : a.Connected t) (h : a.up env = .ok (a', outputs)) :
    Keeps a a' ∧ .restarted ∉ outputs := by
  obtain ⟨hset, hnot⟩ := recoverSet_keeps a env.now .running (by simp)
  simp only [up, assemblyHealthcheck,
    transportExecute_eq (hset.connected.mpr hconnected)] at h
  cases h
  exact ⟨hset.trans (.enqueue _ t _ _), hnot⟩

theorem handshake_dialing (howned : a.KeepalivesOwned) (hlive : a.Live t) (hnot : ¬ a.Connected t)
    (hgone : .connectExecute ∉ a.jobs) (hshake : a.handshake env = .ok (a', outputs))
    (hsound : a'.Sound) : a'.Dialing ∧ .restarted ∉ outputs := by
  simp only [handshake, hlive.1] at hshake
  cases hout : connectOutcome env (a.trans t).sshState with
  | again state =>
      simp only [hout] at hshake
      cases hshake
      have hstate : state ≠ .sessionConnecting := by
        rcases connectOutcome_again hout with rfl | rfl | rfl <;> simp
      exact ⟨(Dialing.leave howned hlive hnot hgone hstate).jobAdd (by simp), by simp⟩
  | failed =>
      simp only [hout] at hshake
      cases hshake
      exact ⟨.leave howned hlive hnot hgone (by simp), by simp⟩
  | assertion => simp [hout] at hshake
  | keepalive =>
      simp only [hout] at hshake
      -- no other keepalive is armed, for none belongs to a transport being set up
      have hnone : ∀ handle t', (handle, .sshKeepaliveSend t') ∉ a.timers := by
        intro handle t' hmem
        have hconnected := (howned handle t' hmem).1
        exact hnot (hconnected.1.eq hlive.1 ▸ hconnected)
      have hconnected : ((a.sshKeepaliveSend t).modifyTrans t
          ({ · with sshState := .sessionConnected })).Connected t := by
        simpa [Connected, Live, sshKeepaliveSend, modifyTrans, timerAdd] using hlive
      have howned' : ((a.sshKeepaliveSend t).modifyTrans t
          ({ · with sshState := .sessionConnected })).KeepalivesOwned := by
        refine .of_only hconnected fun handle t' hmem => ?_
        rcases List.mem_append.mp hmem with hold | hnew
        · exact absurd hold (hnone handle t')
        · simpa [sshKeepaliveSend, modifyTrans] using hnew
      obtain ⟨hkeeps, hnot⟩ := up_keeps hconnected hshake
      exact ⟨hkeeps.dialing howned' hconnected hsound, hnot⟩
  | connected => exact absurd ⟨hlive, connectOutcome_connected hout⟩ hnot

/-! ## The reactions -/

theorem reactJob_dialing (h : a.Dialing) (hsound : a.Sound) {job : AssemblyJob}
    (hjob : job ∈ a.jobs)
    (hreact : (a.jobDel job).reactJob env job = .ok (a', outputs)) :
    a'.Dialing ∧ (.restarted ∈ outputs → ∃ t, a.Connected t) := by
  have hsound' := (reactJob_sound hsound hjob hreact).1
  have howned : (a.jobDel job).KeepalivesOwned := h.keepalives
  cases job with
  | myInstanceStateGet =>
      have hnone := hsound.pipeline.polling (Or.inl hjob)
      exact (poll_dialing (howned.down hnone) hreact).imp_right Not.elim
  | connectExecute =>
      obtain ⟨t, hlive⟩ := hsound.pipeline.connecting (Or.inl hjob)
      have hzero := hsound.pipeline.jobDel_zero hjob (by simp)
      simp only [reactJob] at hreact
      split at hreact
      · next b hconnect =>
          cases hreact
          exact ⟨connectExecute_dialing howned hlive (pipeline_eq_zero.mp hzero).2.1
            ((h.connecting t hlive).mpr hjob) hconnect, by simp⟩
      · cases hreact
  | sshAssemblyConnect =>
      have hpending : a.pipeline ≠ 0 := fun h => (pipeline_eq_zero.mp h).2.2.1 hjob
      obtain ⟨t, hlive⟩ := hsound.pipeline.connecting (Or.inr hjob)
      have hzero := hsound.pipeline.jobDel_zero hjob (by simp)
      exact (handshake_dialing howned hlive (hsound.not_connected hpending t)
        (pipeline_eq_zero.mp hzero).2.1 hreact hsound').imp_right Not.elim
  | assemblySshExec s =>
      have hmem := List.mem_of_mem_head? (hsound.commands.exec_queue hjob).1
      have hconnected := hsound.commands.queue_connected hmem
      exact ⟨(exec_ends howned hconnected hreact).dialing howned hconnected hsound',
        fun _ => ⟨_, hconnected⟩⟩

theorem reactTimer_dialing (h : a.Dialing) (hsound : a.Sound) {handle : Nat}
    {timer : AssemblyTimer} (htimer : (handle, timer) ∈ a.timers)
    (hreact : (a.timerDel handle).reactTimer env timer = .ok (a', outputs)) :
    a'.Dialing ∧ (.restarted ∈ outputs → ∃ t, a.Connected t) := by
  have hsound' := (reactTimer_sound hsound htimer hreact).1
  have howned := (Keeps.timerDel a handle).keepalives h.keepalives
  cases timer with
  | myInstanceStateGet =>
      have hnone := hsound.pipeline.polling (Or.inr ⟨handle, htimer⟩)
      exact (poll_dialing (howned.down hnone) hreact).imp_right Not.elim
  | sshTimeout s =>
      obtain ⟨-, t, hmem⟩ := hsound.commands.timeout_queued htimer
      have hconnected := hsound.commands.queue_connected hmem
      exact ⟨(timeout_ends howned hconnected hreact).dialing howned hconnected hsound',
        fun _ => ⟨t, hconnected⟩⟩
  | sshKeepaliveSend t =>
      cases hreact
      obtain ⟨hconnected, howned'⟩ := sshKeepaliveSend_owned h.keepalives htimer
      exact ⟨(Keeps.refl _).dialing howned' hconnected hsound', by simp⟩
  | assemblyHealthcheck =>
      obtain ⟨t, hconnected, -⟩ := hsound.commands.health_connected htimer
      have hconnected' : (a.timerDel handle).Connected t := hconnected
      simp only [reactTimer, assemblyHealthcheck, transportExecute_eq hconnected'] at hreact
      cases hreact
      exact ⟨(Keeps.enqueue _ t _ _).dialing howned hconnected' hsound', by simp⟩

/-! ## The rest of a handler -/

/--
What a handler still acts on after it called `recover_state_set`: the assembly as the call
left it, and the transport.  `ssh_timeout` returns at once, and the other timers and jobs
do not go on with a transport.
-/
def jobRemainder (a : Assembly σ) (env : Env) : AssemblyJob → Option (Assembly σ × Nat)
  | .assemblySshExec s =>
      match execOutcome env (a.sshOps s) with
      | .complete sshRc =>
          match (a.sshOpDequeue s).completed (a.sshOps s).callback env sshRc with
          | .ok (a', _) => some (a', (a.sshOps s).transport)
          | .error _ => none
      | .again _ _ | .openFailed | .assertion => none
  | .sshAssemblyConnect =>
      match a.transport with
      | none => none
      | some t =>
          match connectOutcome env (a.trans t).sshState with
          | .keepalive =>
              some ((((a.sshKeepaliveSend t).modifyTrans t
                ({ · with sshState := .sessionConnected })).recoverSet env.now .running).1, t)
          | .connected => some ((a.recoverSet env.now .running).1, t)
          | .again _ | .failed | .assertion => none
  | .myInstanceStateGet | .connectExecute => none

def restartsOnCompletion (a : Assembly σ) (env : Env) : AssemblyJob → Bool
  | .assemblySshExec s =>
      match (a.sshOps s).callback, execOutcome env (a.sshOps s) with
      | .healthcheck, .complete sshRc =>
          sshRc ≠ 0 ∧ .restart ∈ (recoverStateSet a.recover env.now .failed).2
      | _, _ => false
  | .myInstanceStateGet | .connectExecute | .sshAssemblyConnect => false

theorem restarted_mem_recoverSet (now : Nat) (state : RecoverState) :
    .restarted ∈ (a.recoverSet now state).2 ↔
      .restart ∈ (recoverStateSet a.recover now state).2 := by
  simp only [recoverSet, List.mem_flatMap]
  constructor
  · rintro ⟨call, hcall, hmem⟩
    cases call <;> simp [callbackOutput] at hmem
    exact hcall
  · intro hcall
    exact ⟨_, hcall, by simp [callbackOutput]⟩

theorem completed_restarted (hconnected : a.Connected t) {callback : SshCallback}
    {sshRc : Int} (h : a.completed callback env sshRc = .ok (a', outputs)) :
    .restarted ∈ outputs ↔ callback = .healthcheck ∧ sshRc ≠ 0 ∧
      .restart ∈ (recoverStateSet a.recover env.now .failed).2 := by
  cases callback with
  | resourceAction o =>
      cases h
      simp
  | healthcheck =>
      simp only [completed, unhealthy, hconnected.1.1] at h
      split at h
      · next hrc =>
          have houtputs := congrArg Prod.snd (Except.ok.inj h)
          simp only at houtputs
          rw [← houtputs, restarted_mem_recoverSet]
          simp [hrc, transportFailed, timerDel]
      · next hrc =>
          have hnil : outputs = [] := by
            split at h <;> cases h <;> rfl
          simp [hnil, hrc]

theorem restartsOnCompletion_exec {sshRc : Int}
    (hout : execOutcome env (a.sshOps s) = .complete sshRc) :
    a.restartsOnCompletion env (.assemblySshExec s) = true ↔
      (a.sshOps s).callback = .healthcheck ∧ sshRc ≠ 0 ∧
        .restart ∈ (recoverStateSet a.recover env.now .failed).2 := by
  cases hcallback : (a.sshOps s).callback <;>
    simp [restartsOnCompletion, hcallback, hout]

theorem jobRemainder_freed (h : a.Dialing) (hsound : a.Sound) {job : AssemblyJob}
    (hjob : job ∈ a.jobs)
    (hreact : (a.jobDel job).reactJob env job = .ok (a', outputs)) :
    (∀ x ∈ (a.jobDel job).jobRemainder env job, (x.1.trans x.2).freed = false) ↔
      (a.jobDel job).restartsOnCompletion env job = false := by
  cases job with
  | myInstanceStateGet | connectExecute => simp [jobRemainder, restartsOnCompletion]
  | sshAssemblyConnect =>
      obtain ⟨t, hlive⟩ := hsound.pipeline.connecting (Or.inr hjob)
      have htransport : (a.jobDel .sshAssemblyConnect).transport = some t := hlive.1
      have hkept : ∀ b : Assembly σ, (b.trans t).freed = false →
          ((b.recoverSet env.now .running).1.trans t).freed = false := by
        intro b hb
        rw [(recoverSet_keeps b env.now .running (by simp)).1.freed, hb]
      simp only [restartsOnCompletion, iff_true, jobRemainder, htransport]
      cases connectOutcome env ((a.jobDel .sshAssemblyConnect).trans t).sshState with
      | again | failed | assertion => simp
      | keepalive =>
          rintro x ⟨⟩
          refine hkept _ ?_
          simpa [sshKeepaliveSend, modifyTrans, timerAdd, jobDel] using hlive.2
      | connected =>
          rintro x ⟨⟩
          exact hkept _ hlive.2
  | assemblySshExec s =>
      have hmem := List.mem_of_mem_head? (hsound.commands.exec_queue hjob).1
      have hdequeue := (Keeps.jobDel a (.assemblySshExec s)).trans (Keeps.sshOpDequeue _ s)
      have hconnected := hdequeue.connected.mpr (hsound.commands.queue_connected hmem)
      have howned := hdequeue.keepalives h.keepalives
      rcases exec_eq_ok hreact with ⟨state, sshRc, hout, -⟩ | ⟨hout, -⟩ |
        ⟨sshRc, b, hout, hcompleted, -⟩
      · simp [jobRemainder, restartsOnCompletion, hout]
      · simp [jobRemainder, restartsOnCompletion, hout]
      · have hfreed := (completed_ends howned hconnected hcompleted).freed_iff hconnected
        rw [completed_restarted hconnected hcompleted] at hfreed
        have hsame := Bool.eq_iff_iff.mpr (hfreed.trans (restartsOnCompletion_exec hout).symm)
        rw [← hsame]
        simp only [jobRemainder, hout, hcompleted, Option.mem_some_iff, forall_eq']
        rfl

end Assembly

end PacemakerCloud

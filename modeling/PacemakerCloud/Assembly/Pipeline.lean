import PacemakerCloud.Assembly.Commands
import PacemakerCloud.Foundation.Lists

/-!
# Recovery and health checks of an assembly

The steps that continue the recovery of an assembly form one pipeline: polling
the cloud, connecting, and the handshake.  A running assembly has left it, is
connected, and has one health check outstanding.
-/

namespace PacemakerCloud

open Foundation

def SshCallback.op? : SshCallback → Option Nat
  | .healthcheck => none
  | .resourceAction o => some o

namespace Assembly

variable {σ : Type}

def pipeline (a : Assembly σ) : Nat :=
  a.jobs.count .myInstanceStateGet + a.jobs.count .connectExecute +
    a.jobs.count .sshAssemblyConnect +
    a.timers.countP (·.2 = .myInstanceStateGet)

def callbacks (a : Assembly σ) : List SshCallback :=
  match a.transport with
  | none => []
  | some t => (a.trans t).queue.map fun s => (a.sshOps s).callback

def actions (a : Assembly σ) : List Nat :=
  a.callbacks.filterMap SshCallback.op?

def healthchecks (a : Assembly σ) : Nat :=
  a.timers.countP (·.2 = .assemblyHealthcheck) + a.callbacks.count .healthcheck

structure Pipeline (a : Assembly σ) : Prop where
  le_one : a.pipeline ≤ 1
  connected : ∀ {t}, a.Connected t → a.pipeline = 0
  connecting : .connectExecute ∈ a.jobs ∨ .sshAssemblyConnect ∈ a.jobs →
    ∃ t, a.Live t
  polling : .myInstanceStateGet ∈ a.jobs ∨
    (∃ handle, (handle, .myInstanceStateGet) ∈ a.timers) → ∀ t, ¬ a.Live t

def Healthy (a : Assembly σ) : Prop :=
  a.recover.state = .running → (∃ t, a.Connected t) ∧ a.healthchecks = 1

structure Sound (a : Assembly σ) : Prop where
  commands : a.Commands
  pipeline : a.Pipeline
  healthy : a.Healthy

/-! ## Counting pending steps -/

section

variable {a b : Assembly σ}

theorem pipeline_eq_zero :
    a.pipeline = 0 ↔ .myInstanceStateGet ∉ a.jobs ∧ .connectExecute ∉ a.jobs ∧
      .sshAssemblyConnect ∉ a.jobs ∧
      ∀ handle, (handle, .myInstanceStateGet) ∉ a.timers := by
  simp only [Assembly.pipeline, Nat.add_eq_zero_iff, List.count_eq_zero,
    List.countP_eq_zero, decide_eq_true_eq, Prod.forall, and_assoc]
  constructor
  · rintro ⟨hpoll, hconnect, hshake, htimer⟩
    exact ⟨hpoll, hconnect, hshake, fun handle h => htimer handle _ h rfl⟩
  · rintro ⟨hpoll, hconnect, hshake, htimer⟩
    exact ⟨hpoll, hconnect, hshake, fun handle timer h heq => htimer handle (heq ▸ h)⟩

theorem pipeline_le_of_sublist (hjobs : b.jobs.Sublist a.jobs)
    (htimers : b.timers.Sublist a.timers) : b.pipeline ≤ a.pipeline := by
  have hpoll := hjobs.count_le .myInstanceStateGet
  have hconnect := hjobs.count_le .connectExecute
  have hshake := hjobs.count_le .sshAssemblyConnect
  have htimer := htimers.countP_le (p := fun x => x.2 = .myInstanceStateGet)
  simp only [Assembly.pipeline]
  omega

theorem pipeline_timerDel_le (a : Assembly σ) (handle : Nat) :
    (a.timerDel handle).pipeline ≤ a.pipeline :=
  pipeline_le_of_sublist (List.Sublist.refl _) List.filter_sublist

theorem pipeline_jobDel_le (a : Assembly σ) (job : AssemblyJob) :
    (a.jobDel job).pipeline ≤ a.pipeline :=
  pipeline_le_of_sublist List.erase_sublist (List.Sublist.refl _)

theorem pipeline_flush_le (a : Assembly σ) (t : Nat) :
    (a.flush t).pipeline ≤ a.pipeline := by
  obtain ⟨jobs, timers, scheduled, hjobs, htimers, heq⟩ := a.flush_eq t
  rw [heq]
  exact pipeline_le_of_sublist hjobs htimers

theorem Pipeline.of_zero (h : a.pipeline = 0) : a.Pipeline := by
  obtain ⟨hpoll, hconnect, hshake, htimer⟩ := pipeline_eq_zero.mp h
  exact
    { le_one := by omega
      connected := fun _ => h
      connecting := fun hjob => (hjob.elim hconnect hshake).elim
      polling := fun hpending =>
        (hpending.elim hpoll fun ⟨handle, hmem⟩ => htimer handle hmem).elim }

theorem Pipeline.connectJob (h : a.pipeline = 0) {t : Nat} (hlive : a.Live t)
    (hnot : ¬ a.Connected t) {job : AssemblyJob}
    (hjob : job = .connectExecute ∨ job = .sshAssemblyConnect) :
    (a.jobAdd job).Pipeline := by
  obtain ⟨hpoll, -, -, htimer⟩ := pipeline_eq_zero.mp h
  have hone : (a.jobAdd job).pipeline = 1 := by
    rcases hjob with rfl | rfl <;>
      simp only [Assembly.pipeline, jobAdd, List.count_append] at h ⊢ <;> simp <;> omega
  exact
    { le_one := hone.le
      connected := fun {t'} hc => by
        have ht : t' = t := Option.some.inj (hc.1.1.symm.trans hlive.1)
        exact absurd (ht ▸ hc) hnot
      connecting := fun _ => ⟨t, hlive⟩
      polling := fun hpending => by
        rcases hpending with hmem | ⟨handle, hmem⟩
        · rcases List.mem_append.mp hmem with hmem | hmem
          · exact absurd hmem hpoll
          · rcases hjob with rfl | rfl <;> simp at hmem
        · exact absurd hmem (htimer handle) }

theorem Pipeline.pollJob (h : a.pipeline = 0) (hnone : ∀ t, ¬ a.Live t) :
    (a.jobAdd .myInstanceStateGet).Pipeline := by
  obtain ⟨-, hconnect, hshake, -⟩ := pipeline_eq_zero.mp h
  exact
    { le_one := by
        simp only [Assembly.pipeline, jobAdd, List.count_append] at h ⊢
        simp
        omega
      connected := fun hc => absurd hc.1 (hnone _)
      connecting := fun hjob => by
        rcases hjob with hmem | hmem <;>
          simp [jobAdd, hconnect, hshake] at hmem
      polling := fun _ => hnone }

theorem Pipeline.pollTimer (h : a.pipeline = 0) (hnone : ∀ t, ¬ a.Live t) :
    (a.timerAdd .myInstanceStateGet).Pipeline := by
  obtain ⟨-, hconnect, hshake, -⟩ := pipeline_eq_zero.mp h
  exact
    { le_one := by
        simp only [Assembly.pipeline, timerAdd, List.countP_append] at h ⊢
        simp
        omega
      connected := fun hc => absurd hc.1 (hnone _)
      connecting := fun hjob => (hjob.elim hconnect hshake).elim
      polling := fun _ => hnone }

theorem Pipeline.jobDel_zero (h : a.Pipeline) {job : AssemblyJob} (hmem : job ∈ a.jobs)
    (hjob : job = .myInstanceStateGet ∨ job = .connectExecute ∨
      job = .sshAssemblyConnect) : (a.jobDel job).pipeline = 0 := by
  have hle := h.le_one
  have hpos := List.count_pos_iff.mpr hmem
  have hself := List.count_erase_self (a := job) (l := a.jobs)
  have hsub := List.erase_sublist (a := job) (l := a.jobs)
  have hpoll := hsub.count_le .myInstanceStateGet
  have hconnect := hsub.count_le .connectExecute
  have hshake := hsub.count_le .sshAssemblyConnect
  simp only [Assembly.pipeline, jobDel] at hle ⊢
  rcases hjob with rfl | rfl | rfl <;> omega

theorem Pipeline.timerDel_zero (h : a.Pipeline) {handle : Nat}
    (hmem : (handle, .myInstanceStateGet) ∈ a.timers) :
    (a.timerDel handle).pipeline = 0 := by
  have hle := h.le_one
  have hlt : (a.timerDel handle).timers.countP (·.2 = .myInstanceStateGet) < _ :=
    countP_filter_lt hmem (by simp) (by simp)
  simp only [Assembly.pipeline] at hle ⊢
  simp only [timerDel] at hlt ⊢
  omega

/-! ## Queued callbacks and health checks -/

theorem callbacks_eq {t : Nat} (h : a.transport = some t) :
    a.callbacks = (a.trans t).queue.map fun s => (a.sshOps s).callback := by
  simp [callbacks, h]

theorem Commands.callbacks_of_not_connected (h : a.Commands)
    (hnot : ∀ t, ¬ a.Connected t) : a.callbacks = [] := by
  unfold callbacks
  cases ht : a.transport with
  | none => rfl
  | some t =>
      have hempty : (a.trans t).queue = [] :=
        List.eq_nil_iff_forall_not_mem.mpr
          fun s hs => hnot t (h.queue_connected hs)
      simp [hempty]

theorem countP_timerDel {p : Nat × AssemblyTimer → Bool} {handle : Nat}
    (h : ∀ timer, (handle, timer) ∈ a.timers → p (handle, timer) = false) :
    (a.timerDel handle).timers.countP p = a.timers.countP p := by
  rw [timerDel, List.countP_filter]
  refine List.countP_congr fun x hx => ?_
  obtain ⟨handle', timer⟩ := x
  by_cases heq : handle' = handle
  · subst heq
    simp [h timer hx]
  · simp [heq]

theorem Commands.timer_unique (h : a.Commands) {handle : Nat}
    {timer timer' : AssemblyTimer} (ht : (handle, timer) ∈ a.timers)
    (ht' : (handle, timer') ∈ a.timers) : timer = timer' :=
  (Prod.mk.inj (List.inj_on_of_nodup_map h.timer_nodup ht ht' rfl)).2

@[simp] theorem callbacks_transportSchedule (a : Assembly σ) (t : Nat) :
    (a.transportSchedule t).callbacks = a.callbacks := by
  have hqueue : ∀ t', ((a.transportSchedule t).trans t').queue = (a.trans t').queue := by
    intro t'
    unfold transportSchedule
    cases hqueue : (a.trans t).queue <;> by_cases h : t' = t <;>
      simp [modifyTrans, jobAdd, h, hqueue]
  have hrest : (a.transportSchedule t).transport = a.transport ∧
      (a.transportSchedule t).sshOps = a.sshOps := by
    unfold transportSchedule
    cases (a.trans t).queue <;> exact ⟨rfl, rfl⟩
  simp only [callbacks, hrest.1, hrest.2, hqueue]

theorem callbacks_enqueue (h : a.Commands) {t : Nat} (hlive : a.Live t)
    (callback : SshCallback) (command : CString) :
    (a.enqueue t callback command).callbacks = a.callbacks ++ [callback] := by
  have hold : (a.trans t).queue.map
      (fun s => ((a.addCommand t callback command).sshOps s).callback) =
        (a.trans t).queue.map fun s => (a.sshOps s).callback := by
    refine List.map_congr_left fun s hs => ?_
    have hne : s ≠ a.sshCount := ((h.queue_op hs).1).ne
    simp [addCommand, hne]
  have hadded : (a.addCommand t callback command).callbacks =
      a.callbacks ++ [callback] := by
    have hnew := callbacks_eq (a := a.addCommand t callback command) hlive.1
    rw [callbacks_eq hlive.1, hnew, ← hold]
    simp [addCommand, modifyTrans]
  rw [← hadded]
  unfold enqueue
  split
  · rfl
  · exact callbacks_transportSchedule _ t

theorem actions_enqueue (h : a.Commands) {t : Nat} (hlive : a.Live t)
    (callback : SshCallback) (command : CString) :
    (a.enqueue t callback command).actions = a.actions ++ callback.op?.toList := by
  rw [actions, callbacks_enqueue h hlive, List.filterMap_append]
  cases callback <;> rfl

theorem callbacks_dequeue {s t : Nat} (htransport : a.transport = some t)
    (ht : (a.sshOps s).transport = t) (hhead : (a.trans t).queue.head? = some s) :
    a.callbacks = (a.sshOps s).callback :: (a.sshOpDequeue s).callbacks := by
  obtain ⟨rest, hqueue⟩ : ∃ rest, (a.trans t).queue = s :: rest :=
    List.head?_eq_some_iff.mp hhead
  simp [callbacks, htransport, hqueue, sshOpDequeue, modifyTrans, timerDel, ht]

theorem callbacks_execAgain (s : Nat) (state : SshExecState) (sshRc : Int) :
    (a.execAgain s state sshRc).callbacks = a.callbacks := by
  have hsame : ∀ s', ((a.execAgain s state sshRc).sshOps s').callback =
      (a.sshOps s').callback := by
    intro s'
    by_cases h : s' = s <;> simp [execAgain, modifySshOp, jobAdd, h]
  simp only [callbacks, hsame]
  rfl

/-! ## What does not matter -/

theorem Pipeline.congr (h : a.Pipeline) (hcount : b.pipeline = a.pipeline)
    (hlive : ∀ t, b.Live t ↔ a.Live t) (hconnected : ∀ t, b.Connected t → a.Connected t)
    (hjobs : ∀ job, (∀ s, job ≠ .assemblySshExec s) → job ∈ b.jobs → job ∈ a.jobs)
    (htimers : ∀ handle, (handle, .myInstanceStateGet) ∈ b.timers →
      (handle, .myInstanceStateGet) ∈ a.timers) : b.Pipeline where
  le_one := hcount ▸ h.le_one
  connected hc := hcount ▸ h.connected (hconnected _ hc)
  connecting hjob := by
    obtain ⟨t, ht⟩ := h.connecting (hjob.imp (hjobs _ (by simp)) (hjobs _ (by simp)))
    exact ⟨t, (hlive t).mpr ht⟩
  polling hpending t ht := by
    refine h.polling ?_ t ((hlive t).mp ht)
    exact hpending.imp (hjobs _ (by simp)) fun ⟨handle, hmem⟩ =>
      ⟨handle, htimers handle hmem⟩

theorem Healthy.congr (h : a.Healthy) (hstate : b.recover.state = a.recover.state)
    (hconnected : ∀ t, a.Connected t → b.Connected t)
    (hcount : b.healthchecks = a.healthchecks) : b.Healthy := by
  intro hrunning
  obtain ⟨⟨t, ht⟩, hone⟩ := h (hstate ▸ hrunning)
  exact ⟨⟨t, hconnected t ht⟩, hcount.trans hone⟩

theorem transportSchedule_frame (a : Assembly σ) (t : Nat) :
    ∃ scheduled jobs,
      (jobs = [] ∨ ∃ s, jobs = [.assemblySshExec s]) ∧
      a.transportSchedule t =
        { a.modifyTrans t ({ · with scheduled := scheduled }) with
          jobs := a.jobs ++ jobs } := by
  unfold transportSchedule
  cases (a.trans t).queue with
  | nil => exact ⟨false, [], Or.inl rfl, by simp [modifyTrans]⟩
  | cons s rest => exact ⟨true, [.assemblySshExec s], Or.inr ⟨s, rfl⟩, rfl⟩

@[simp] theorem live_transportSchedule (a : Assembly σ) (t t' : Nat) :
    (a.transportSchedule t).Live t' ↔ a.Live t' := by
  obtain ⟨scheduled, jobs, -, heq⟩ := a.transportSchedule_frame t
  by_cases h : t' = t <;> simp [heq, Live, modifyTrans, h]

@[simp] theorem connected_transportSchedule (a : Assembly σ) (t t' : Nat) :
    (a.transportSchedule t).Connected t' ↔ a.Connected t' := by
  obtain ⟨scheduled, jobs, -, heq⟩ := a.transportSchedule_frame t
  by_cases h : t' = t <;> simp [heq, Connected, Live, modifyTrans, h]

@[simp] theorem transportSchedule_recover (a : Assembly σ) (t : Nat) :
    (a.transportSchedule t).recover = a.recover := by
  obtain ⟨scheduled, jobs, -, heq⟩ := a.transportSchedule_frame t
  simp [heq, modifyTrans]

@[simp] theorem transportSchedule_timers (a : Assembly σ) (t : Nat) :
    (a.transportSchedule t).timers = a.timers := by
  obtain ⟨scheduled, jobs, -, heq⟩ := a.transportSchedule_frame t
  simp [heq, modifyTrans]

@[simp] theorem pipeline_transportSchedule (a : Assembly σ) (t : Nat) :
    (a.transportSchedule t).pipeline = a.pipeline := by
  obtain ⟨scheduled, jobs, rfl | ⟨s, rfl⟩, heq⟩ := a.transportSchedule_frame t <;>
    simp [heq, Assembly.pipeline, modifyTrans, List.count_append]

theorem mem_jobs_transportSchedule {t : Nat} {job : AssemblyJob}
    (hjob : ∀ s, job ≠ .assemblySshExec s)
    (hmem : job ∈ (a.transportSchedule t).jobs) : job ∈ a.jobs := by
  obtain ⟨scheduled, jobs, rfl | ⟨s, rfl⟩, heq⟩ := a.transportSchedule_frame t
  · simpa [heq] using hmem
  · simpa [heq, hjob s] using hmem

theorem Sound.schedule (h : a.Sound) (hidle : a.Idle) (t : Nat) :
    (a.transportSchedule t).Sound where
  commands := h.commands.schedule fun s _ => hidle s
  pipeline := h.pipeline.congr (by simp) (by simp) (by simp)
    (fun job hjob => mem_jobs_transportSchedule hjob) (by simp)
  healthy := h.healthy.congr (by simp) (by simp) (by simp [healthchecks])

/-! ## A new command -/

@[simp] theorem enqueue_recover (t : Nat) (callback : SshCallback)
    (command : CString) : (a.enqueue t callback command).recover = a.recover := by
  unfold enqueue
  split
  · rfl
  · simp only [transportSchedule_recover]
    rfl

theorem enqueue_timers (t : Nat) (callback : SshCallback) (command : CString) :
    (a.enqueue t callback command).timers =
      a.timers ++ [(a.timerCount + 1, .sshTimeout a.sshCount)] := by
  unfold enqueue
  split
  · rfl
  · simp only [transportSchedule_timers]
    rfl

@[simp] theorem pipeline_enqueue (t : Nat) (callback : SshCallback)
    (command : CString) : (a.enqueue t callback command).pipeline = a.pipeline := by
  have hadded : (a.addCommand t callback command).pipeline = a.pipeline := by
    simp [Assembly.pipeline, addCommand, modifyTrans, List.countP_append]
  unfold enqueue
  split
  · exact hadded
  · simpa using hadded

@[simp] theorem connected_enqueue (t : Nat) (callback : SshCallback)
    (command : CString) (t' : Nat) :
    (a.enqueue t callback command).Connected t' ↔ a.Connected t' := by
  have hadded : (a.addCommand t callback command).Connected t' ↔ a.Connected t' := by
    by_cases h : t' = t <;> simp [Connected, Live, addCommand, modifyTrans, h]
  unfold enqueue
  split
  · exact hadded
  · simpa using hadded

theorem healthchecks_enqueue (h : a.Commands) {t : Nat} (hlive : a.Live t)
    (callback : SshCallback) (command : CString) :
    (a.enqueue t callback command).healthchecks =
      a.healthchecks + [callback].count .healthcheck := by
  simp only [healthchecks, enqueue_timers, callbacks_enqueue h hlive,
    List.countP_append, List.count_append]
  simp
  omega

theorem Sound.enqueue (h : a.Sound) {t : Nat} (hconnected : a.Connected t) (o : Nat)
    (command : CString) : (a.enqueue t (.resourceAction o) command).Sound where
  commands := h.commands.enqueue hconnected _ _
  pipeline := Pipeline.of_zero (by simpa using h.pipeline.connected hconnected)
  healthy := h.healthy.congr (by simp) (by simp)
    (by simp [healthchecks_enqueue h.commands hconnected.1])

/-! ## A pending step -/

theorem Sound.not_connected (h : a.Sound) (hpending : a.pipeline ≠ 0) (t : Nat) :
    ¬ a.Connected t :=
  fun hconnected => hpending (h.pipeline.connected hconnected)

theorem Sound.not_running (h : a.Sound) (hpending : a.pipeline ≠ 0) :
    a.recover.state ≠ .running := by
  intro hrunning
  obtain ⟨⟨t, hconnected⟩, -⟩ := h.healthy hrunning
  exact h.not_connected hpending t hconnected

theorem Sound.actions_of_pending (h : a.Sound) (hpending : a.pipeline ≠ 0) :
    a.actions = [] := by
  rw [actions, h.commands.callbacks_of_not_connected (h.not_connected hpending)]
  rfl

/-! ## Failure and restart -/

theorem Commands.restart (h : a.Commands) {t : Nat} (hconnected : a.Connected t)
    (hzero : a.pipeline = 0) :
    a.restart.Commands ∧ a.restart.Idle ∧ a.restart.Pipeline ∧
      a.restart.callbacks = [] := by
  obtain ⟨hcommands, hidle⟩ := h.transportDisconnect hconnected
  obtain ⟨jobs, timers, scheduled, hjobs, htimers, heq⟩ :=
    transportDisconnect_frame hconnected
  have htransport : a.transportDisconnect.transport = some t := by
    rw [heq]
    exact hconnected.1.1
  have hnone : ∀ t', ¬ a.transportDisconnect.Live t' := by
    rintro t' ⟨ht', hfreed⟩
    obtain rfl : t' = t := Option.some.inj (ht'.symm.trans htransport)
    simp [heq, modifyTrans] at hfreed
  have hnothing : a.transportDisconnect.pipeline = 0 := by
    have hle : a.transportDisconnect.pipeline ≤ a.pipeline :=
      pipeline_le_of_sublist (by rw [heq]; exact hjobs) (by rw [heq]; exact htimers)
    omega
  refine ⟨hcommands.jobAdd (by simp), ?_, Pipeline.pollJob hnothing hnone,
    hcommands.callbacks_of_not_connected fun t hc => hnone t hc.1⟩
  intro s hs
  rcases List.mem_append.mp hs with hs | hs
  · exact hidle s hs
  · simp at hs

variable [Stopwatch σ]

@[simp] theorem recoverSet_state (a : Assembly σ) (now : Nat) (state : RecoverState) :
    (a.recoverSet now state).1.recover.state = state := by
  obtain ⟨r, hstate, -, -, ⟨outputs, heq, -, -⟩ | ⟨-, -, heq⟩⟩ :=
    a.recoverSet_cases now state
  · rw [heq, ← hstate]
  · rw [heq, ← hstate, restart_recover]

theorem Commands.fail (h : a.Commands) {t : Nat} (hconnected : a.Connected t)
    (hzero : a.pipeline = 0) (now : Nat) :
    (a.recoverSet now .failed).1.Sound ∧
      (a.Idle → (a.recoverSet now .failed).1.Idle) ∧
      ((a.recoverSet now .failed).1.callbacks = a.callbacks ∧
          (∀ x ∈ (a.recoverSet now .failed).2, x = .stateChanging) ∨
        (a.recoverSet now .failed).1.callbacks = [] ∧
          (a.recoverSet now .failed).2 = [.stateChanging, .restarted]) := by
  have hdown : (a.recoverSet now .failed).1.Healthy := by
    intro hrunning
    rw [recoverSet_state] at hrunning
    cases hrunning
  obtain ⟨r, -, -, -, ⟨outputs, heq, houtputs, -⟩ | ⟨-, -, heq⟩⟩ :=
    a.recoverSet_cases now .failed
  · rw [heq] at hdown ⊢
    refine ⟨⟨h.of_recover r, Pipeline.of_zero hzero, hdown⟩, id, Or.inl ⟨rfl, ?_⟩⟩
    rcases houtputs with rfl | rfl <;> simp
  · rw [heq] at hdown ⊢
    obtain ⟨hcommands, hidle, hpipeline, hcallbacks⟩ :=
      (h.of_recover r).restart (t := t) hconnected hzero
    exact ⟨⟨hcommands, hpipeline, hdown⟩, fun _ => hidle, Or.inr ⟨hcallbacks, rfl⟩⟩

end

end Assembly

end PacemakerCloud

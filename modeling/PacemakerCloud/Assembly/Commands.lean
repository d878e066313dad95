import PacemakerCloud.Assembly.Machine
import Mathlib.Data.List.Nodup

/-!
# The commands of a transport

What holds between the queue of a transport, the job that runs its first
command and the timers that watch its commands, whatever the handlers do.
-/

namespace PacemakerCloud

open Foundation

namespace Assembly

variable {σ : Type}

def Live (a : Assembly σ) (t : Nat) : Prop :=
  a.transport = some t ∧ (a.trans t).freed = false

def Connected (a : Assembly σ) (t : Nat) : Prop :=
  a.Live t ∧ (a.trans t).sshState = .sessionConnected

/--
Commands are queued on a connected transport only; the job in the loop runs the
first of them, and the timer of a command is not used for anything else.
-/
structure Commands (a : Assembly σ) : Prop where
  queue_connected : ∀ {t s}, s ∈ (a.trans t).queue → a.Connected t
  queue_nodup : ∀ t, (a.trans t).queue.Nodup
  queue_op : ∀ {t s}, s ∈ (a.trans t).queue →
    s < a.sshCount ∧ (a.sshOps s).transport = t
  exec_head : ∀ {s}, .assemblySshExec s ∈ a.jobs →
    ∃ t, (a.trans t).queue.head? = some s ∧ (a.trans t).scheduled = true
  exec_once : ∀ s, a.jobs.count (.assemblySshExec s) ≤ 1
  timeout_queued : ∀ {handle s}, (handle, .sshTimeout s) ∈ a.timers →
    (a.sshOps s).sshTimer = handle ∧ ∃ t, s ∈ (a.trans t).queue
  timer_own : ∀ {t s}, s ∈ (a.trans t).queue →
    (a.sshOps s).sshTimer ≤ a.timerCount ∧
      ∀ timer, ((a.sshOps s).sshTimer, timer) ∈ a.timers → timer = .sshTimeout s
  timer_nodup : (a.timers.map Prod.fst).Nodup
  timer_le : ∀ x ∈ a.timers, x.1 ≤ a.timerCount
  health_connected : ∀ {handle}, (handle, .assemblyHealthcheck) ∈ a.timers →
    ∃ t, a.Connected t ∧ (a.trans t).healthcheckTimer = handle

def Idle (a : Assembly σ) : Prop :=
  ∀ s, .assemblySshExec s ∉ a.jobs

def deleteTimers (a : Assembly σ) (queue : List Nat) : Assembly σ :=
  { a with
    timers := a.timers.filter fun x => ∀ s ∈ queue, x.1 ≠ (a.sshOps s).sshTimer }

theorem foldl_timerDel_eq (a : Assembly σ) (queue : List Nat) :
    queue.foldl (fun a s => a.timerDel (a.sshOps s).sshTimer) a =
      a.deleteTimers queue := by
  induction queue generalizing a with
  | nil => simp [deleteTimers]
  | cons s queue ih =>
      rw [List.foldl_cons, ih]
      simp [deleteTimers, timerDel, List.filter_filter, Bool.and_comm]

theorem deleteQueue_eq (a : Assembly σ) (t : Nat) :
    a.deleteQueue t =
      (a.deleteTimers (a.trans t).queue).modifyTrans t ({ · with queue := [] }) := by
  rw [deleteQueue, foldl_timerDel_eq]

def flush (a : Assembly σ) (t : Nat) : Assembly σ :=
  (a.transportUnschedule t).deleteQueue t

def addCommand (a : Assembly σ) (t : Nat) (callback : SshCallback)
    (command : CString) : Assembly σ :=
  { a.modifyTrans t fun trans =>
      { trans with queue := trans.queue ++ [a.sshCount] } with
    sshOps := Function.update a.sshOps a.sshCount
      { sshRc := 0
        sshTimer := a.timerCount + 1
        execState := .channelOpen
        callback := callback
        command := snprintf commandMax command
        transport := t }
    sshCount := a.sshCount + 1
    timers := a.timers ++ [(a.timerCount + 1, .sshTimeout a.sshCount)]
    timerCount := a.timerCount + 1 }

def enqueue (a : Assembly σ) (t : Nat) (callback : SshCallback)
    (command : CString) : Assembly σ :=
  let added := a.addCommand t callback command
  if (a.trans t).scheduled then added else added.transportSchedule t

theorem transportExecute_eq {a : Assembly σ} {t : Nat} (h : a.Connected t)
    (callback : SshCallback) (command : CString) :
    a.transportExecute callback command = .ok (a.enqueue t callback command) := by
  simp only [transportExecute, h.1.1, h.2, ne_eq, not_true, if_false, enqueue]
  by_cases hscheduled : (a.trans t).scheduled = true
  · simp [hscheduled, h.1.1, addCommand, modifyTrans, modifySshOp, timerAdd]
  · cases hqueue : (a.trans t).queue <;>
      simp [hscheduled, hqueue, h.1.1, addCommand, modifyTrans, modifySshOp, timerAdd,
        transportSchedule, jobAdd]

theorem transportUnschedule_eq (a : Assembly σ) (t : Nat) :
    ∃ jobs scheduled, List.Sublist jobs a.jobs ∧
      a.transportUnschedule t =
        { a.modifyTrans t ({ · with scheduled := scheduled }) with jobs := jobs } := by
  unfold transportUnschedule
  split
  · cases (a.trans t).queue with
    | nil => exact ⟨a.jobs, false, List.Sublist.refl _, rfl⟩
    | cons s rest => exact ⟨_, false, List.erase_sublist, rfl⟩
  · exact ⟨a.jobs, (a.trans t).scheduled, List.Sublist.refl _, by simp [modifyTrans]⟩

theorem flush_eq (a : Assembly σ) (t : Nat) :
    ∃ jobs timers scheduled, List.Sublist jobs a.jobs ∧
      List.Sublist timers a.timers ∧
      a.flush t =
        { a.modifyTrans t ({ · with queue := [], scheduled := scheduled }) with
          jobs := jobs
          timers := timers } := by
  obtain ⟨jobs, scheduled, hjobs, heq⟩ := a.transportUnschedule_eq t
  refine ⟨jobs, (a.deleteTimers (a.trans t).queue).timers, scheduled, hjobs,
    List.filter_sublist, ?_⟩
  simp [flush, heq, deleteQueue_eq, deleteTimers, modifyTrans]

@[simp] theorem flush_queue (a : Assembly σ) (t : Nat) :
    ((a.flush t).trans t).queue = [] := by
  obtain ⟨jobs, timers, scheduled, -, -, heq⟩ := a.flush_eq t
  simp [heq, modifyTrans]

@[simp] theorem flush_recover (a : Assembly σ) (t : Nat) :
    (a.flush t).recover = a.recover := by
  obtain ⟨jobs, timers, scheduled, -, -, heq⟩ := a.flush_eq t
  simp [heq, modifyTrans]

theorem Connected.flush {a : Assembly σ} {t : Nat} (h : a.Connected t) :
    (a.flush t).Connected t := by
  obtain ⟨jobs, timers, scheduled, -, -, heq⟩ := a.flush_eq t
  simpa [heq, Connected, Live, modifyTrans] using h

theorem transportDisconnect_eq {a : Assembly σ} {t : Nat} (h : a.Connected t) :
    a.transportDisconnect =
      ((((a.timerDel (a.trans t).healthcheckTimer).flush t).timerDel
        (a.trans t).keepaliveTimer).jobDel .sshAssemblyConnect).modifyTrans t
          ({ · with freed := true }) := by
  obtain ⟨jobs, timers, scheduled, -, -, heq⟩ :=
    (a.timerDel (a.trans t).healthcheckTimer).flush_eq t
  have hstate := h.2
  simp only [transportDisconnect, h.1.1, hstate, reduceCtorEq, if_false, ne_eq,
    not_true, if_true]
  rw [← flush, heq]
  simp [disconnectSession, modifyTrans, timerDel, hstate]

@[simp] theorem restart_recover (a : Assembly σ) : a.restart.recover = a.recover := by
  have hunschedule : ∀ (b : Assembly σ) t,
      (b.transportUnschedule t).recover = b.recover := by
    intro b t
    obtain ⟨jobs, scheduled, -, heq⟩ := b.transportUnschedule_eq t
    rw [heq]
    rfl
  have hdelete : ∀ (b : Assembly σ) t, (b.deleteQueue t).recover = b.recover := by
    intro b t
    rw [deleteQueue_eq]
    rfl
  have hsession : ∀ (b : Assembly σ) t, (b.disconnectSession t).recover = b.recover := by
    intro b t
    unfold disconnectSession
    split <;> rfl
  unfold restart transportDisconnect
  cases a.transport with
  | none => rfl
  | some t =>
      simp only [jobAdd, modifyTrans, hsession, hdelete]
      split_ifs <;> simp [hunschedule, jobDel, timerDel]

theorem transportDisconnect_frame {a : Assembly σ} {t : Nat} (h : a.Connected t) :
    ∃ jobs timers scheduled, List.Sublist jobs a.jobs ∧
      List.Sublist timers a.timers ∧
      a.transportDisconnect =
        { a.modifyTrans t
            ({ · with queue := [], scheduled := scheduled, freed := true }) with
          jobs := jobs
          timers := timers } := by
  obtain ⟨jobs, timers, scheduled, hjobs, htimers, heq⟩ :=
    (a.timerDel (a.trans t).healthcheckTimer).flush_eq t
  refine ⟨jobs.erase .sshAssemblyConnect,
    timers.filter (·.1 ≠ (a.trans t).keepaliveTimer), scheduled,
    List.erase_sublist.trans hjobs,
    List.filter_sublist.trans (htimers.trans List.filter_sublist), ?_⟩
  rw [transportDisconnect_eq h, heq]
  simp [modifyTrans, timerDel, jobDel]

namespace Commands

variable {a : Assembly σ}

theorem of_recover (h : a.Commands) (r : Recover σ) :
    ({ a with recover := r } : Assembly σ).Commands :=
  { h with }

theorem of_sublist (h : a.Commands) {jobs : List AssemblyJob}
    {timers : List (Nat × AssemblyTimer)} (hjobs : jobs.Sublist a.jobs)
    (htimers : timers.Sublist a.timers) :
    ({ a with jobs := jobs, timers := timers } : Assembly σ).Commands where
  queue_connected := h.queue_connected
  queue_nodup := h.queue_nodup
  queue_op := h.queue_op
  exec_head hs := h.exec_head (hjobs.subset hs)
  exec_once s := (hjobs.count_le _).trans (h.exec_once s)
  timeout_queued hs := h.timeout_queued (htimers.subset hs)
  timer_own hs :=
    ⟨(h.timer_own hs).1, fun timer ht => (h.timer_own hs).2 timer (htimers.subset ht)⟩
  timer_nodup := h.timer_nodup.sublist (htimers.map _)
  timer_le x hx := h.timer_le x (htimers.subset hx)
  health_connected hs := h.health_connected (htimers.subset hs)

theorem jobDel (h : a.Commands) (job : AssemblyJob) : (a.jobDel job).Commands :=
  h.of_sublist List.erase_sublist (List.Sublist.refl _)

theorem timerDel (h : a.Commands) (handle : Nat) : (a.timerDel handle).Commands :=
  h.of_sublist (List.Sublist.refl _) List.filter_sublist

theorem jobAdd (h : a.Commands) {job : AssemblyJob}
    (hjob : ∀ s, job = .assemblySshExec s → job ∉ a.jobs ∧
      ∃ t, (a.trans t).queue.head? = some s ∧ (a.trans t).scheduled = true) :
    (a.jobAdd job).Commands where
  queue_connected := h.queue_connected
  queue_nodup := h.queue_nodup
  queue_op := h.queue_op
  exec_head {s} hs := by
    rcases List.mem_append.mp hs with hold | hnew
    · exact h.exec_head hold
    · exact (hjob s (List.mem_singleton.mp hnew).symm).2
  exec_once s := by
    rw [Assembly.jobAdd, List.count_append]
    by_cases hs : job = .assemblySshExec s
    · have hnone := List.count_eq_zero.mpr (hjob s hs).1
      rw [← hs, hnone, List.count_singleton_self]
    · rw [List.count_singleton, if_neg (by simpa using hs)]
      exact h.exec_once s
  timeout_queued := h.timeout_queued
  timer_own := h.timer_own
  timer_nodup := h.timer_nodup
  timer_le := h.timer_le
  health_connected := h.health_connected

theorem exec_queue (h : a.Commands) {s : Nat} (hs : .assemblySshExec s ∈ a.jobs) :
    (a.trans (a.sshOps s).transport).queue.head? = some s ∧
      (a.trans (a.sshOps s).transport).scheduled = true := by
  obtain ⟨t, hhead, hscheduled⟩ := h.exec_head hs
  have ht := (h.queue_op (List.mem_of_mem_head? hhead)).2
  rw [ht]
  exact ⟨hhead, hscheduled⟩

theorem idle_jobDel (h : a.Commands) {s : Nat} (hs : .assemblySshExec s ∈ a.jobs) :
    (a.jobDel (.assemblySshExec s)).Idle := by
  intro s' hs'
  have hmem := List.mem_of_mem_erase hs'
  have hne : s' ≠ s := by
    rintro rfl
    have hcount : 0 < (a.jobs.erase (.assemblySshExec s')).count
        (.assemblySshExec s') := List.count_pos_iff.mpr hs'
    have honce := h.exec_once s'
    rw [List.count_erase_self] at hcount
    omega
  -- both commands are the first of the connected transport
  have hhead := (h.exec_queue hs).1
  have hhead' := (h.exec_queue hmem).1
  have hlive := (h.queue_connected (List.mem_of_mem_head? hhead)).1.1
  have hlive' := (h.queue_connected (List.mem_of_mem_head? hhead')).1.1
  rw [hlive] at hlive'
  rw [Option.some.inj hlive', hhead'] at hhead
  exact hne (Option.some.inj hhead)

theorem idle_of_queue (h : a.Commands) {t : Nat} (hlive : a.Live t)
    (hgone : ∀ s ∈ (a.trans t).queue, .assemblySshExec s ∉ a.jobs) : a.Idle := by
  intro s hs
  have hmem := List.mem_of_mem_head? (h.exec_queue hs).1
  have hlive' := (h.queue_connected hmem).1.1
  rw [hlive.1] at hlive'
  rw [← Option.some.inj hlive'] at hmem
  exact hgone s hmem hs

/-! ### Scheduling -/

theorem exec_of_mem (h : a.Commands) {t s : Nat} (hs : s ∈ (a.trans t).queue)
    (hjob : .assemblySshExec s ∈ a.jobs) :
    (a.trans t).queue.head? = some s ∧ (a.trans t).scheduled = true := by
  have hexec := h.exec_queue hjob
  rwa [(h.queue_op hs).2] at hexec

/--
The transport loses commands that are neither run nor watched; it stays scheduled if its first
command is run, and connected if it has commands or a health check.
-/
theorem shrink (h : a.Commands) {t : Nat} {f : TransSsh → TransSsh}
    (hqueue : (f (a.trans t)).queue.Sublist (a.trans t).queue)
    (hexec : ∀ s ∈ (a.trans t).queue, .assemblySshExec s ∈ a.jobs →
      (f (a.trans t)).queue.head? = some s ∧ (f (a.trans t)).scheduled = true)
    (hwatched : ∀ handle, ∀ s ∈ (a.trans t).queue, (handle, .sshTimeout s) ∈ a.timers →
      s ∈ (f (a.trans t)).queue)
    (hconnected : ∀ s ∈ (f (a.trans t)).queue, (a.modifyTrans t f).Connected t)
    (hhealth : ∀ handle, (handle, .assemblyHealthcheck) ∈ a.timers → a.Connected t →
      (a.modifyTrans t f).Connected t ∧
        (f (a.trans t)).healthcheckTimer = (a.trans t).healthcheckTimer) :
    (a.modifyTrans t f).Commands := by
  have hat : (a.modifyTrans t f).trans t = f (a.trans t) := Function.update_self ..
  have hoff : ∀ t', t' ≠ t → (a.modifyTrans t f).trans t' = a.trans t' :=
    fun t' ht => Function.update_of_ne ht ..
  have hqueues : ∀ t', ((a.modifyTrans t f).trans t').queue.Sublist (a.trans t').queue := by
    intro t'
    by_cases ht : t' = t
    · rw [ht, hat]
      exact hqueue
    · rw [hoff t' ht]
  have hother : ∀ t', t' ≠ t → a.Connected t' → (a.modifyTrans t f).Connected t' := by
    intro t' ht hlive
    rw [Connected, Live, hoff t' ht]
    exact hlive
  exact
    { queue_connected := fun {t' s} hs => by
        by_cases ht : t' = t
        · subst ht
          rw [hat] at hs
          exact hconnected s hs
        · exact hother t' ht (h.queue_connected ((hqueues t').subset hs))
      queue_nodup := fun t' => (h.queue_nodup t').sublist (hqueues t')
      queue_op := fun {t' s} hs => h.queue_op ((hqueues t').subset hs)
      exec_head := fun {s} hjob => by
        obtain ⟨t', hhead, hscheduled⟩ := h.exec_head hjob
        refine ⟨t', ?_⟩
        by_cases ht : t' = t
        · subst ht
          rw [hat]
          exact hexec s (List.mem_of_mem_head? hhead) hjob
        · rw [hoff t' ht]
          exact ⟨hhead, hscheduled⟩
      exec_once := h.exec_once
      timeout_queued := fun {handle s} hs => by
        obtain ⟨htimer, t', hmem⟩ := h.timeout_queued hs
        refine ⟨htimer, t', ?_⟩
        by_cases ht : t' = t
        · subst ht
          rw [hat]
          exact hwatched handle s hmem hs
        · rw [hoff t' ht]
          exact hmem
      timer_own := fun {t' s} hs => h.timer_own ((hqueues t').subset hs)
      timer_nodup := h.timer_nodup
      timer_le := h.timer_le
      health_connected := fun {handle} hs => by
        obtain ⟨t', hlive, htimer⟩ := h.health_connected hs
        by_cases ht : t' = t
        · subst ht
          obtain ⟨hkept, hsame⟩ := hhealth handle hs hlive
          exact ⟨t', hkept, by rw [hat, hsame, htimer]⟩
        · exact ⟨t', hother t' ht hlive, by rw [hoff t' ht, htimer]⟩ }

theorem setTrans (h : a.Commands) {t : Nat} {f : TransSsh → TransSsh}
    (hqueue : (f (a.trans t)).queue = (a.trans t).queue)
    (hscheduled : ∀ s ∈ (a.trans t).queue, .assemblySshExec s ∈ a.jobs →
      (f (a.trans t)).scheduled = true)
    (hconnected : ∀ s ∈ (a.trans t).queue, (a.modifyTrans t f).Connected t)
    (hhealth : ∀ handle, (handle, .assemblyHealthcheck) ∈ a.timers → a.Connected t →
      (a.modifyTrans t f).Connected t ∧
        (f (a.trans t)).healthcheckTimer = (a.trans t).healthcheckTimer) :
    (a.modifyTrans t f).Commands := by
  refine h.shrink (hqueue ▸ List.Sublist.refl _) (fun s hs hjob => ?_)
    (fun handle s hs _ => hqueue ▸ hs) (fun s hs => hconnected s (hqueue ▸ hs)) hhealth
  rw [hqueue]
  exact ⟨(h.exec_of_mem hs hjob).1, hscheduled s hs hjob⟩

theorem connected_modifyTrans {t : Nat} {f : TransSsh → TransSsh}
    (hfreed : (f (a.trans t)).freed = (a.trans t).freed)
    (hstate : (f (a.trans t)).sshState = (a.trans t).sshState) (h : a.Connected t) :
    (a.modifyTrans t f).Connected t := by
  simpa [Connected, Live, Assembly.modifyTrans, hfreed, hstate] using h

theorem setScheduled (h : a.Commands) {t : Nat} (scheduled : Bool)
    (hidle : ∀ s ∈ (a.trans t).queue, .assemblySshExec s ∉ a.jobs) :
    (a.modifyTrans t ({ · with scheduled := scheduled })).Commands := by
  refine h.setTrans rfl (fun s hs hjob => absurd hjob (hidle s hs)) (fun s hs => ?_)
    fun handle _ hlive => ⟨connected_modifyTrans rfl rfl hlive, rfl⟩
  exact connected_modifyTrans rfl rfl (h.queue_connected hs)

theorem unschedule (h : a.Commands) (t : Nat) :
    (a.transportUnschedule t).Commands ∧ ∀ s ∈ (a.trans t).queue,
      .assemblySshExec s ∉ (a.transportUnschedule t).jobs := by
  unfold transportUnschedule
  split
  case isFalse hscheduled =>
      exact ⟨h, fun s hs hjob => hscheduled (h.exec_of_mem hs hjob).2⟩
  case isTrue hscheduled =>
      cases hqueue : (a.trans t).queue with
      | nil => exact ⟨h.setScheduled false (by simp [hqueue]), by simp⟩
      | cons first rest =>
          have hgone : ∀ s ∈ (a.trans t).queue,
              .assemblySshExec s ∉ (a.jobDel (.assemblySshExec first)).jobs := by
            intro s hs hjob
            have hhead := (h.exec_of_mem hs (List.mem_of_mem_erase hjob)).1
            have hfirst : s = first := by simpa [hqueue] using hhead.symm
            subst hfirst
            exact h.idle_jobDel (List.mem_of_mem_erase hjob) s hjob
          exact ⟨(h.jobDel _).setScheduled false hgone,
            fun s hs => hgone s (by rwa [hqueue])⟩

theorem schedule (h : a.Commands) {t : Nat}
    (hidle : ∀ s ∈ (a.trans t).queue, .assemblySshExec s ∉ a.jobs) :
    (a.transportSchedule t).Commands := by
  unfold transportSchedule
  cases hqueue : (a.trans t).queue with
  | nil => exact h.setScheduled false hidle
  | cons first rest =>
      refine (h.setScheduled true hidle).jobAdd fun s hs => ?_
      cases hs
      exact ⟨hidle first (by simp [hqueue]), t, by simp [Assembly.modifyTrans, hqueue],
        by simp [Assembly.modifyTrans]⟩

/-! ### Removing commands -/

theorem dequeue (h : a.Commands) {s : Nat} (hidle : a.Idle) :
    (a.sshOpDequeue s).Commands := by
  refine (h.timerDel (a.sshOps s).sshTimer).shrink List.erase_sublist
    (fun s' _ hjob => absurd hjob (hidle s')) (fun handle s' hs' htimer => ?_)
    (fun s' hs' => ?_) fun handle _ hlive => ⟨connected_modifyTrans rfl rfl hlive, rfl⟩
  · obtain ⟨hold, hne⟩ := List.mem_filter.mp htimer
    have hother : s' ≠ s := by
      rintro rfl
      simp [(h.timeout_queued hold).1] at hne
    exact (List.mem_erase_of_ne hother).mpr hs'
  · exact connected_modifyTrans rfl rfl (h.queue_connected (List.mem_of_mem_erase hs'))

theorem deleteQueue (h : a.Commands) {t : Nat}
    (hidle : ∀ s ∈ (a.trans t).queue, .assemblySshExec s ∉ a.jobs) :
    (a.deleteQueue t).Commands := by
  rw [deleteQueue_eq]
  have hkept : (a.deleteTimers (a.trans t).queue).Commands :=
    h.of_sublist (List.Sublist.refl _) List.filter_sublist
  refine hkept.shrink (List.nil_sublist _) (fun s hs hjob => absurd hjob (hidle s hs))
    (fun handle s hs htimer => ?_) (fun s hs => absurd hs List.not_mem_nil)
    fun handle _ hlive => ⟨connected_modifyTrans rfl rfl hlive, rfl⟩
  -- the timers of the commands are deleted with them
  obtain ⟨hold, hdeleted⟩ := List.mem_filter.mp htimer
  simp only [decide_eq_true_eq] at hdeleted
  exact absurd (h.timeout_queued hold).1.symm (hdeleted s hs)

theorem flush (h : a.Commands) {t : Nat} (hlive : a.Live t) :
    (a.flush t).Commands ∧ (a.flush t).Idle := by
  obtain ⟨hcommands, hgone⟩ := h.unschedule t
  obtain ⟨jobs, scheduled, -, heq⟩ := a.transportUnschedule_eq t
  have hqueue : ((a.transportUnschedule t).trans t).queue = (a.trans t).queue := by
    simp [heq, Assembly.modifyTrans]
  have hlive' : (a.transportUnschedule t).Live t := by
    simpa [heq, Live, Assembly.modifyTrans] using hlive
  rw [← hqueue] at hgone
  have hidle := hcommands.idle_of_queue hlive' hgone
  refine ⟨hcommands.deleteQueue hgone, ?_⟩
  rw [Assembly.flush, deleteQueue_eq]
  exact hidle

/-! ### Adding commands and timers -/

theorem timers_concat_nodup (h : a.Commands) (timer : AssemblyTimer) :
    ((a.timers ++ [(a.timerCount + 1, timer)]).map Prod.fst).Nodup := by
  rw [List.map_append, List.nodup_append]
  refine ⟨h.timer_nodup, by simp, ?_⟩
  rintro handle hmem _ hnew rfl
  obtain ⟨x, hx, rfl⟩ := List.mem_map.mp hmem
  have hle := h.timer_le x hx
  rw [List.map_singleton, List.mem_singleton] at hnew
  omega

theorem timers_concat_le (h : a.Commands) (timer : AssemblyTimer) :
    ∀ x ∈ a.timers ++ [(a.timerCount + 1, timer)], x.1 ≤ a.timerCount + 1 := by
  intro x hx
  rcases List.mem_append.mp hx with hold | hnew
  · exact Nat.le_succ_of_le (h.timer_le x hold)
  · rw [List.mem_singleton.mp hnew]

theorem timers_concat_own (h : a.Commands) {t s : Nat} (hs : s ∈ (a.trans t).queue)
    (timer : AssemblyTimer) :
    (a.sshOps s).sshTimer ≤ a.timerCount + 1 ∧
      ∀ timer', ((a.sshOps s).sshTimer, timer') ∈ a.timers ++ [(a.timerCount + 1, timer)] →
        timer' = .sshTimeout s := by
  obtain ⟨hle, hown⟩ := h.timer_own hs
  refine ⟨Nat.le_succ_of_le hle, fun timer' hmem => ?_⟩
  rcases List.mem_append.mp hmem with hold | hnew
  · exact hown timer' hold
  · have heq := congrArg Prod.fst (List.mem_singleton.mp hnew)
    simp only at heq
    omega

theorem timerAdd (h : a.Commands) {timer : AssemblyTimer}
    (htimeout : ∀ s, timer ≠ .sshTimeout s)
    (hhealth : timer = .assemblyHealthcheck →
      ∃ t, a.Connected t ∧ (a.trans t).healthcheckTimer = a.timerCount + 1) :
    (a.timerAdd timer).Commands where
  queue_connected := h.queue_connected
  queue_nodup := h.queue_nodup
  queue_op := h.queue_op
  exec_head := h.exec_head
  exec_once := h.exec_once
  timeout_queued {handle s} hmem := by
    rcases List.mem_append.mp hmem with hold | hnew
    · exact h.timeout_queued hold
    · exact absurd (congrArg Prod.snd (List.mem_singleton.mp hnew)).symm (htimeout s)
  timer_own hs := h.timers_concat_own hs timer
  timer_nodup := h.timers_concat_nodup timer
  timer_le := h.timers_concat_le timer
  health_connected {handle} hmem := by
    rcases List.mem_append.mp hmem with hold | hnew
    · exact h.health_connected hold
    · cases List.mem_singleton.mp hnew
      exact hhealth rfl

theorem setKeepaliveTimer (h : a.Commands) (t handle : Nat) :
    (a.modifyTrans t ({ · with keepaliveTimer := handle })).Commands := by
  refine h.setTrans rfl (fun s hs hjob => (h.exec_of_mem hs hjob).2) (fun s hs => ?_)
    fun handle _ hlive => ⟨connected_modifyTrans rfl rfl hlive, rfl⟩
  exact connected_modifyTrans rfl rfl (h.queue_connected hs)

theorem sshKeepaliveSend (h : a.Commands) (t : Nat) :
    (a.sshKeepaliveSend t).Commands :=
  (h.timerAdd (by simp) (by simp)).setKeepaliveTimer t _

theorem setSshState (h : a.Commands) {t : Nat} (hnot : ¬ a.Connected t)
    (state : SshState) :
    (a.modifyTrans t ({ · with sshState := state })).Commands := by
  have hempty : ∀ s, s ∉ (a.trans t).queue := fun s hs => hnot (h.queue_connected hs)
  exact h.setTrans rfl (fun s hs => absurd hs (hempty s)) (fun s hs => absurd hs (hempty s))
    fun handle _ hlive => absurd hlive hnot

theorem healthcheckTimerAdd (h : a.Commands) {t : Nat} (hconnected : a.Connected t)
    (hnone : ∀ handle, (handle, .assemblyHealthcheck) ∉ a.timers) :
    (a.healthcheckTimerAdd t).Commands := by
  -- the transport can take the number before the timer is there: no other check is watched
  have hset : (a.modifyTrans t ({ · with healthcheckTimer := a.timerCount + 1 })).Commands :=
    h.setTrans rfl (fun s hs hjob => (h.exec_of_mem hs hjob).2)
      (fun s _ => connected_modifyTrans rfl rfl hconnected)
      fun handle hmem => absurd hmem (hnone handle)
  refine hset.timerAdd (by simp) fun _ => ⟨t, connected_modifyTrans rfl rfl hconnected, ?_⟩
  simp [Assembly.modifyTrans]

theorem setSshOp (h : a.Commands) {s : Nat} {f : SshOp → SshOp}
    (htimer : (f (a.sshOps s)).sshTimer = (a.sshOps s).sshTimer)
    (htransport : (f (a.sshOps s)).transport = (a.sshOps s).transport) :
    (a.modifySshOp s f).Commands := by
  have hsame : ∀ s', ((a.modifySshOp s f).sshOps s').sshTimer = (a.sshOps s').sshTimer ∧
      ((a.modifySshOp s f).sshOps s').transport = (a.sshOps s').transport := by
    intro s'
    by_cases hs : s' = s
    · simp [Assembly.modifySshOp, hs, htimer, htransport]
    · simp [Assembly.modifySshOp, hs]
  exact
    { h with
      queue_op := fun {t s'} hs => (hsame s').2 ▸ h.queue_op hs
      timeout_queued := fun {handle s'} hs => (hsame s').1 ▸ h.timeout_queued hs
      timer_own := fun {t s'} hs => (hsame s').1 ▸ h.timer_own hs }

theorem execAgain (h : a.Commands) {s : Nat} (hs : .assemblySshExec s ∈ a.jobs)
    (state : SshExecState) (sshRc : Int) :
    ((a.jobDel (.assemblySshExec s)).execAgain s state sshRc).Commands := by
  refine ((h.jobDel (.assemblySshExec s)).setSshOp rfl rfl).jobAdd fun s' hs' => ?_
  cases hs'
  exact ⟨h.idle_jobDel hs s, _, h.exec_queue hs⟩

theorem transportConnect (h : a.Commands) (hnone : ∀ t, ¬ a.Live t) :
    a.transportConnect.Commands := by
  have hempty : ∀ t s, s ∉ (a.trans t).queue :=
    fun t s hs => hnone t (h.queue_connected hs).1
  have hempty' : ∀ t s, s ∉ (a.transportConnect.trans t).queue := by
    intro t s
    by_cases ht : t = a.transCount
    · simp [Assembly.transportConnect, Assembly.jobAdd, ht]
    · simpa [Assembly.transportConnect, Assembly.jobAdd, ht] using hempty t s
  have hidle : a.Idle := fun s hs =>
    hempty _ s (List.mem_of_mem_head? (h.exec_queue hs).1)
  exact
    { queue_connected := fun {t s} hs => absurd hs (hempty' t s)
      queue_nodup := fun t => by simp [List.eq_nil_iff_forall_not_mem.mpr (hempty' t)]
      queue_op := fun {t s} hs => absurd hs (hempty' t s)
      exec_head := fun {s} hs => by
        rcases List.mem_append.mp hs with hold | hnew
        · exact absurd hold (hidle s)
        · cases List.mem_singleton.mp hnew
      exec_once := fun s => by
        have hzero := List.count_eq_zero.mpr (hidle s)
        simp [Assembly.transportConnect, Assembly.jobAdd, hzero]
      timeout_queued := fun {handle s} hs => by
        obtain ⟨-, t, hqueued⟩ := h.timeout_queued hs
        exact absurd hqueued (hempty t s)
      timer_own := fun {t s} hs => absurd hs (hempty' t s)
      timer_nodup := h.timer_nodup
      timer_le := h.timer_le
      health_connected := fun {handle} hs => by
        obtain ⟨t, hconnected, -⟩ := h.health_connected hs
        exact absurd hconnected.1 (hnone t) }

section AddCommand

variable {t : Nat} (callback : SshCallback) (command : CString)

theorem mem_queue_addCommand {t' s : Nat} :
    s ∈ ((a.addCommand t callback command).trans t').queue ↔
      s ∈ (a.trans t').queue ∨ t' = t ∧ s = a.sshCount := by
  by_cases ht : t' = t
  · simp [Assembly.addCommand, Assembly.modifyTrans, ht]
  · simp [Assembly.addCommand, Assembly.modifyTrans, ht]

theorem connected_addCommand {t' : Nat} (h : a.Connected t') :
    (a.addCommand t callback command).Connected t' := by
  by_cases ht : t' = t
  · subst ht
    simpa [Connected, Live, Assembly.addCommand, Assembly.modifyTrans] using h
  · simpa [Connected, Live, Assembly.addCommand, Assembly.modifyTrans, ht] using h

theorem sshOps_addCommand (h : a.Commands) {t' s : Nat} (hs : s ∈ (a.trans t').queue) :
    (a.addCommand t callback command).sshOps s = a.sshOps s :=
  Function.update_of_ne (h.queue_op hs).1.ne ..

theorem addCommand (h : a.Commands) (hconnected : a.Connected t) :
    (a.addCommand t callback command).Commands where
  queue_connected {t' s} hs := by
    refine connected_addCommand callback command ?_
    rcases (mem_queue_addCommand callback command).mp hs with hold | ⟨rfl, -⟩
    · exact h.queue_connected hold
    · exact hconnected
  queue_nodup t' := by
    by_cases ht : t' = t
    · subst ht
      have hnew : a.sshCount ∉ (a.trans t').queue := fun hs => (h.queue_op hs).1.ne rfl
      simpa [Assembly.addCommand, Assembly.modifyTrans, ← List.concat_eq_append]
        using (h.queue_nodup t').concat hnew
    · simpa [Assembly.addCommand, Assembly.modifyTrans, ht] using h.queue_nodup t'
  queue_op {t' s} hs := by
    rcases (mem_queue_addCommand callback command).mp hs with hold | ⟨rfl, rfl⟩
    · rw [h.sshOps_addCommand callback command hold]
      exact (h.queue_op hold).imp_left Nat.lt_succ_of_lt
    · simp [Assembly.addCommand]
  exec_head {s} hjob := by
    obtain ⟨t', hhead, hscheduled⟩ := h.exec_head hjob
    refine ⟨t', ?_⟩
    by_cases ht : t' = t
    · subst ht
      simp [Assembly.addCommand, Assembly.modifyTrans, hhead, hscheduled]
    · simp [Assembly.addCommand, Assembly.modifyTrans, ht, hhead, hscheduled]
  exec_once := h.exec_once
  timeout_queued {handle s} hmem := by
    rcases List.mem_append.mp hmem with hold | hnew
    · obtain ⟨htimer, t', hqueued⟩ := h.timeout_queued hold
      rw [h.sshOps_addCommand callback command hqueued]
      exact ⟨htimer, t', (mem_queue_addCommand callback command).mpr (Or.inl hqueued)⟩
    · cases List.mem_singleton.mp hnew
      exact ⟨by simp [Assembly.addCommand], t,
        (mem_queue_addCommand callback command).mpr (Or.inr ⟨rfl, rfl⟩)⟩
  timer_own {t' s} hs := by
    rcases (mem_queue_addCommand callback command).mp hs with hold | ⟨-, rfl⟩
    · rw [h.sshOps_addCommand callback command hold]
      exact h.timers_concat_own hold _
    · have htimer : ((a.addCommand t callback command).sshOps a.sshCount).sshTimer =
          a.timerCount + 1 := by
        simp [Assembly.addCommand]
      rw [htimer]
      refine ⟨le_rfl, fun timer hmem => ?_⟩
      rcases List.mem_append.mp hmem with hold | hnew
      · exact absurd (h.timer_le _ hold) (Nat.not_succ_le_self _)
      · cases List.mem_singleton.mp hnew
        rfl
  timer_nodup := h.timers_concat_nodup _
  timer_le := h.timers_concat_le _
  health_connected {handle} hmem := by
    rcases List.mem_append.mp hmem with hold | hnew
    · obtain ⟨t', hlive, htimer⟩ := h.health_connected hold
      refine ⟨t', connected_addCommand callback command hlive, ?_⟩
      by_cases ht : t' = t
      · subst ht
        simpa [Assembly.addCommand, Assembly.modifyTrans] using htimer
      · simpa [Assembly.addCommand, Assembly.modifyTrans, ht] using htimer
    · cases List.mem_singleton.mp hnew

end AddCommand

theorem enqueue (h : a.Commands) {t : Nat} (hconnected : a.Connected t)
    (callback : SshCallback) (command : CString) :
    (a.enqueue t callback command).Commands := by
  have hadded := h.addCommand callback command hconnected
  unfold Assembly.enqueue
  split
  · exact hadded
  · next hscheduled =>
      refine hadded.schedule fun s hs hjob => hscheduled ?_
      simpa [Assembly.addCommand, Assembly.modifyTrans]
        using (hadded.exec_of_mem hs hjob).2

/-! ### Disconnecting -/

theorem setFreed (h : a.Commands) {t : Nat} (hqueue : (a.trans t).queue = [])
    (hnone : ∀ handle, (handle, .assemblyHealthcheck) ∉ a.timers) :
    (a.modifyTrans t ({ · with freed := true })).Commands := by
  have hempty : ∀ s, s ∉ (a.trans t).queue := by simp [hqueue]
  exact h.setTrans rfl (fun s hs => absurd hs (hempty s)) (fun s hs => absurd hs (hempty s))
    fun handle hs => absurd hs (hnone handle)

theorem no_healthcheck (h : a.Commands) {t : Nat} (hlive : a.Live t) (handle : Nat) :
    (handle, .assemblyHealthcheck) ∉
      (a.timerDel (a.trans t).healthcheckTimer).timers := by
  intro hmem
  obtain ⟨hmem, hne⟩ := List.mem_filter.mp hmem
  obtain ⟨t', hconnected, htimer⟩ := h.health_connected hmem
  have ht : t' = t := Option.some.inj (hconnected.1.1.symm.trans hlive.1)
  simp [← htimer, ht] at hne

theorem transportDisconnect (h : a.Commands) {t : Nat} (hconnected : a.Connected t) :
    a.transportDisconnect.Commands ∧ a.transportDisconnect.Idle := by
  rw [transportDisconnect_eq hconnected]
  obtain ⟨hflushed, hidle⟩ :=
    (h.timerDel (a.trans t).healthcheckTimer).flush (t := t) hconnected.1
  have hnone := h.no_healthcheck hconnected.1
  obtain ⟨jobs, timers, scheduled, -, htimers, heq⟩ :=
    (a.timerDel (a.trans t).healthcheckTimer).flush_eq t
  refine ⟨((hflushed.timerDel _).jobDel _).setFreed ?_ ?_, ?_⟩
  · exact flush_queue _ t
  · intro handle hmem
    refine hnone handle (htimers.subset ?_)
    simpa [heq] using List.mem_of_mem_filter hmem
  · exact fun s hs => hidle s (List.mem_of_mem_erase hs)

end Commands

end Assembly

end PacemakerCloud

import PacemakerCloud.Assembly.Serial
import PacemakerCloud.Daemon.Completion

/-!
# Commands in a run of the daemon

The marks of a run, for one assembly: when its commands were executed, when their
channels were freed, when a queue was dropped, and which completion and timeout
functions were called.
-/

namespace PacemakerCloud

open Foundation

def AssemblyJob.isExec : AssemblyJob → Bool
  | .assemblySshExec _ => true
  | .myInstanceStateGet | .connectExecute | .sshAssemblyConnect => false

theorem Assembly.Commands.exec_le_one {σ : Type} {a : Assembly σ} (h : a.Commands) :
    a.jobs.countP AssemblyJob.isExec ≤ 1 := by
  by_cases hnone : a.jobs.countP AssemblyJob.isExec = 0
  · omega
  obtain ⟨job, hjob, hexec⟩ := List.countP_pos_iff.mp (Nat.pos_of_ne_zero hnone)
  cases job with
  | myInstanceStateGet | connectExecute | sshAssemblyConnect => cases hexec
  | assemblySshExec s =>
      have hidle := h.idle_jobDel hjob
      have hrest : (a.jobs.erase (.assemblySshExec s)).countP AssemblyJob.isExec = 0 := by
        refine List.countP_eq_zero.mpr fun job hmem hexec => ?_
        cases job with
        | myInstanceStateGet | connectExecute | sshAssemblyConnect => cases hexec
        | assemblySshExec s' => exact hidle s' hmem
      rw [(List.perm_cons_erase hjob).countP_eq, List.countP_cons, hrest]
      exact Nat.le_of_eq rfl

namespace World

variable {σ : Type}

theorem submit_turn {a : Assembly σ} (h : a.Sound) (hrunning : a.recover.state = .running)
    (o : Nat) (command : CString) : a.Turn (a.submit o command) [] := by
  obtain ⟨⟨t, hconnected⟩, -⟩ := h.healthy hrunning
  rw [Assembly.submit_eq hconnected.1.1]
  exact .enqueue h.commands hconnected.1 _ _

theorem update_turn {w : World σ} {b : CString} {asm : Assembly σ} {marks : List Mark}
    (a : CString) (h : (w.assemblies b).Turn asm marks) :
    (w.assemblies a).Turn (Function.update w.assemblies b asm a)
      (if b = a then marks else []) := by
  by_cases hb : b = a
  · subst hb
    simpa using h
  · rw [Function.update_of_ne (Ne.symm hb), if_neg hb]
    exact .same rfl rfl rfl

variable [Stopwatch σ]

def commandMarks (a : CString) (w : World σ) (e : Event) : List Mark :=
  match e with
  | .job b job env => if b = a then (w.assemblies a).jobMarks env (w.outputs e) job else []
  | .timer b handle _ =>
      if b = a then
        match (w.assemblies a).timers.find? (·.1 = handle) with
        | some (_, timer) => (w.assemblies a).timerMarks timer
        | none => []
      else []
  | _ => []

variable {d : Deployable} {w w' : World σ} {e : Event}

theorem Transition.turn (hsound : ∀ a, (w.assemblies a).Sound) (h : Transition d w e w')
    (a : CString) : (w.assemblies a).Turn (w'.assemblies a) (commandMarks a w e) := by
  have hsubmit : ∀ b o command, (w.assemblies b).recover.state = .running →
      (w.assemblies a).Turn (Function.update w.assemblies b
        ((w.assemblies b).submit o command) a) [] := by
    intro b o command hrunning
    simpa using update_turn a (submit_turn (hsound b) hrunning o command)
  cases h with
  | @job b job env asm outputs c hgraph hjob hreact hcalls =>
      have houtputs : w.outputs (.job b job env) = outputs := by simp [World.outputs, hreact]
      have hturn := update_turn a (Assembly.reactJob_turn (hsound b) hjob hreact)
      simp only [commandMarks, houtputs]
      by_cases hb : b = a
      · subst hb
        exact hturn
      · rw [if_neg hb] at hturn ⊢
        exact hturn
  | @timer b handle timer env asm outputs c hgraph htimer hreact hcalls =>
      have hfind := find_timer (hsound b) htimer
      have hturn := update_turn a (Assembly.reactTimer_turn (hsound b) htimer hreact)
      simp only [commandMarks]
      by_cases hb : b = a
      · subst hb
        rw [hfind]
        exact hturn
      · rw [if_neg hb] at hturn ⊢
        exact hturn
  | monitorRequest hgraph htimer hstate => exact hsubmit _ _ _ hstate
  | @fire graph spec env c queued command hgraph hexec =>
      cases queued with
      | true => exact hsubmit _ _ _ hexec.running
      | false => exact .same rfl rfl rfl
  | monitorOffline | processJob | processNextJob | confirmed | returned =>
      exact .same rfl rfl rfl

variable {errno : ResourceId → Int} {answers : CString → Env} {events : List Event}

theorem load_server (d : Deployable) (errno : ResourceId → Int) (answers : CString → Env)
    (a : CString) :
    ((load d errno answers : World σ).assemblies a).server = ⟨[], 0, false⟩ ∧
      ((load d errno answers : World σ).assemblies a).Fresh := by
  rw [load_assemblies]
  split <;> exact ⟨rfl, fun s hs => by cases hs⟩

end World

end PacemakerCloud

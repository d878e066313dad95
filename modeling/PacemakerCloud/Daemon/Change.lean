import PacemakerCloud.Cape.Effects
import PacemakerCloud.Daemon.Recovery

/-!
# What one event does to the operations

Seen from the policy engine an assembly is the list of operations its transport
carries.  `Change` is what an event does to these lists and to the rest of the
daemon; `step_change` says that every step of a reachable daemon is one.
-/

namespace PacemakerCloud

open Foundation

namespace OpSpec

def target (spec : OpSpec) : ResourceId := ⟨spec.hostname, spec.rname⟩

def Recurs (spec : OpSpec) (ec : Int) : Prop :=
  0 < spec.interval % 2 ^ 32 ∧ toUInt32 ec = spec.targetOutcome % 2 ^ 32

instance (spec : OpSpec) (ec : Int) : Decidable (spec.Recurs ec) :=
  inferInstanceAs (Decidable (_ ∧ _))

end OpSpec

namespace World

variable {σ : Type}

def actions (w : World σ) (a : CString) : List Nat :=
  (w.assemblies a).actions

theorem actions_update (w : World σ) (a : CString) (asm : Assembly σ) (c : Cape σ) :
    actions ⟨Function.update w.assemblies a asm, c⟩ =
      Function.update w.actions a asm.actions := by
  funext b
  by_cases hb : b = a
  · subst hb
    simp [actions]
  · simp [actions, Function.update_of_ne hb]

theorem find_timer {w : World σ} {a : CString} (h : (w.assemblies a).Sound)
    {handle : Nat} {timer : AssemblyTimer} (htimer : (handle, timer) ∈ (w.assemblies a).timers) :
    (w.assemblies a).timers.find? (·.1 = handle) = some (handle, timer) := by
  obtain ⟨⟨handle', timer'⟩, hfind⟩ :
      ∃ x, (w.assemblies a).timers.find? (·.1 = handle) = some x :=
    Option.isSome_iff_exists.mp (List.find?_isSome.mpr ⟨_, htimer, by simp⟩)
  obtain rfl : handle' = handle := by simpa using List.find?_some hfind
  rw [hfind, h.commands.timer_unique htimer (List.mem_of_find?_eq_some hfind)]

variable [Stopwatch σ]

def outputs (w : World σ) : Event → List Output
  | .job a job env =>
      match ((w.assemblies a).jobDel job).reactJob env job with
      | .ok result => result.2
      | .error _ => []
  | .timer a handle env =>
      match (w.assemblies a).timers.find? (·.1 = handle) with
      | none => []
      | some (_, timer) =>
          match ((w.assemblies a).timerDel handle).reactTimer env timer with
          | .ok result => result.2
          | .error _ => []
  | _ => []

def restarting (w : World σ) (e : Event) : Option (CString × Env) :=
  if .restarted ∈ w.outputs e then
    match e with
    | .job a _ env | .timer a _ env => some (a, env)
    | _ => none
  else none

def timingOut (w : World σ) : Event → Option CString
  | .timer a handle _ =>
      match (w.assemblies a).timers.find? (·.1 = handle) with
      | some (_, .sshTimeout _) => some a
      | _ => none
  | _ => none

inductive Engine (c : Cape σ) : Cape σ → Prop where
  | processJob : Engine c (World.processJob c)
  | processNextJob {graph : Nat} (hgraph : c.pe.inRunGraph = none)
      (h : graph ∈ c.pe.nextJobs) : Engine c (World.processNextJob c graph)
  | confirmed : Engine c { c with pe := { c.pe with graphUpdated := true } }
  | returned {graph : Nat} {status : TransitionStatus}
      (hgraph : c.pe.inRunGraph = some graph)
      (h : status = .complete ∨ status = .terminated → GraphConfirmed c graph) :
      Engine c (World.runGraphReturn c graph status)

omit [Stopwatch σ] in
theorem Engine.same {c c' : Cape σ} (h : Engine c c') :
    c.SameMonitors c' ∧ c'.handed = c.handed ∧
      c'.pe.completions = c.pe.completions := by
  cases h with
  | processJob =>
      simp only [World.processJob]
      split <;> exact ⟨{ Cape.Bookkeeping.refl c with }, rfl, rfl⟩
  | processNextJob =>
      simp only [World.processNextJob]
      split <;> exact ⟨{ Cape.Bookkeeping.refl c with }, rfl, rfl⟩
  | confirmed => exact ⟨{ Cape.Bookkeeping.refl c with }, rfl, rfl⟩
  | @returned graph status =>
      cases status <;> exact ⟨{ Cape.Bookkeeping.refl c with }, rfl, rfl⟩

inductive Change (d : Deployable) (w : World σ) :
    Event → (CString → List Nat) → Cape σ → Prop where
  | idle {e : Event} {c : Cape σ} (h : w.cape.Bookkeeping c) : Change d w e w.actions c
  | flushed {e : Event} {a : CString} {c : Cape σ} (htimeout : w.timingOut e = some a)
      (h : w.cape.Bookkeeping c) : Change d w e (Function.update w.actions a []) c
  | restarted {e : Event} {a : CString} {env : Env}
      (hrestart : w.restarting e = some (a, env)) :
      Change d w e (Function.update w.actions a [])
        ((w.cape.scheduleProcessing.nodeOpHistoryClear a).instanceRequests a env)
  | completed {e : Event} {a : CString} {env : Env} {o : Nat} {sshRc : Int}
      {rest : List Nat} {c : Cape σ} (houtputs : w.outputs e = [.actionCompleted o sshRc])
      (hactions : w.actions a = o :: rest)
      (h : w.cape.resourceActionCompletion d env o sshRc = .ok c) :
      Change d w e (Function.update w.actions a rest) c
  | monitorOffline {handle o : Nat} {env : Env} {c : Cape σ}
      (htimer : (handle, o) ∈ w.cape.monitorTimers)
      (h : (w.cape.timerDel handle).resourceActionCompleted d env o ocfUnknownError =
        .ok c) :
      Change d w (.monitorTimer handle env) w.actions c
  | monitorRequest {handle o : Nat} {env : Env}
      (htimer : (handle, o) ∈ w.cape.monitorTimers) :
      Change d w (.monitorTimer handle env)
        (Function.update w.actions (w.cape.ops o).hostname
          (w.actions (w.cape.ops o).hostname ++ [o]))
        ((w.cape.timerDel handle).hand o)
  | engine {e : Event} {c : Cape σ} (h : Engine w.cape c) : Change d w e w.actions c
  | fire {graph : Nat} {spec : OpSpec} {env : Env} {c : Cape σ} {queued : Bool}
      (hgraph : w.cape.pe.inRunGraph = some graph)
      (h : (execRscAction w.cape graph spec).Executed d env w.cape.opCount
        (w.assemblies spec.hostname).recover.state c queued) :
      Change d w (.fire (.rsc spec) env)
        (if queued then
          Function.update w.actions spec.hostname
            (w.actions spec.hostname ++ [w.cape.opCount])
        else w.actions) c

variable {d : Deployable} {w w' : World σ} {e : Event} {a : CString} {env : Env}
  {outputs : List Output} {asm : Assembly σ} {c : Cape σ}

theorem foldlM_receive_quiet {c c' : Cape σ} (hquiet : ∀ x ∈ outputs, x.Quiet)
    (h : outputs.foldlM (Cape.receive d a env) c = .ok c') : c.Bookkeeping c' := by
  induction outputs generalizing c with
  | nil =>
      cases h
      exact .refl _
  | cons x outputs ih =>
      rw [List.foldlM_cons] at h
      obtain ⟨mid, hx, hrest⟩ := bind_eq_ok.mp h
      have htail := ih (fun y hy => hquiet y (List.mem_cons_of_mem x hy)) hrest
      cases x with
      | stateChanging =>
          cases hx
          exact (Cape.Bookkeeping.scheduleProcessing c).trans htail
      | address address =>
          cases hx
          refine Cape.Bookkeeping.trans (.modifyCloud c a ?_) htail
          exact fun _ => .refl _
      | restarted => exact (hquiet _ List.mem_cons_self).elim
      | actionCompleted o sshRc => exact (hquiet _ List.mem_cons_self).elim

theorem effect_change (houtputs : w.outputs e = outputs)
    (hrestart : .restarted ∈ w.outputs e → w.restarting e = some (a, env))
    (heffect : (w.assemblies a).Effect asm outputs)
    (hcalls : outputs.foldlM (Cape.receive d a env) w.cape = .ok c) :
    Change d w e (Function.update w.actions a asm.actions) c := by
  cases heffect with
  | kept hquiet hactions =>
      have hsame : Function.update w.actions a asm.actions = w.actions := by
        rw [hactions]
        exact Function.update_eq_self a w.actions
      rw [hsame]
      exact .idle (foldlM_receive_quiet hquiet hcalls)
  | @completed o sshRc hactions =>
      have hdone : w.cape.resourceActionCompletion d env o sshRc = .ok c := by
        simpa [Cape.receive] using hcalls
      exact .completed houtputs hactions hdone
  | restarted hactions =>
      rw [hactions]
      obtain rfl := Except.ok.inj hcalls
      exact .restarted (hrestart (by simp [houtputs]))

theorem Transition.change (hsound : ∀ a, (w.assemblies a).Sound)
    (h : Transition d w e w') : Change d w e w'.actions w'.cape := by
  cases h with
  | job hgraph hjob hreact hcalls =>
      obtain ⟨-, heffect⟩ := Assembly.reactJob_sound (hsound _) hjob hreact
      rw [actions_update]
      refine effect_change ?_ ?_ heffect hcalls
      · simp [World.outputs, hreact]
      · intro hmem
        simp [restarting, hmem]
  | timer hgraph htimer hreact hcalls =>
      have hfind := find_timer (hsound _) htimer
      obtain ⟨-, heffect | ⟨⟨s, rfl⟩, hempty, hquiet⟩⟩ :=
        Assembly.reactTimer_sound (hsound _) htimer hreact
      · rw [actions_update]
        refine effect_change ?_ ?_ heffect hcalls
        · simp [World.outputs, hfind, hreact]
        · intro hmem
          simp [restarting, hmem]
      · rw [actions_update, hempty]
        exact .flushed (by simp [timingOut, hfind]) (foldlM_receive_quiet hquiet hcalls)
  | monitorOffline hgraph htimer hstate h => exact .monitorOffline htimer h
  | monitorRequest hgraph htimer hstate =>
      rw [actions_update, ((hsound _).submit hstate _ _).2]
      exact .monitorRequest htimer
  | processJob hgraph h => exact .engine .processJob
  | processNextJob hgraph h => exact .engine (.processNextJob hgraph h)
  | confirmed hgraph => exact .engine .confirmed
  | @fire graph spec env c queued command hgraph h =>
      have hactions : actions ⟨if queued then
          Function.update w.assemblies spec.hostname
            ((w.assemblies spec.hostname).submit w.cape.opCount command)
          else w.assemblies, c⟩ =
          if queued then
            Function.update w.actions spec.hostname
              (w.actions spec.hostname ++ [w.cape.opCount])
          else w.actions := by
        cases queued with
        | false => rfl
        | true =>
            rw [if_pos rfl, if_pos rfl, actions_update,
              ((hsound _).submit h.running _ _).2]
            rfl
      rw [hactions]
      exact .fire hgraph h
  | returned hgraph h => exact .engine (.returned hgraph h)

theorem step_change (hsound : ∀ a, (w.assemblies a).Sound)
    (hstep : step d w e = .ok w') : Change d w e w'.actions w'.cape :=
  (step_transition hsound hstep).change hsound

end World

end PacemakerCloud

import PacemakerCloud.Assembly.Disconnect
import PacemakerCloud.Daemon.Change

/-!
# Disconnected transports in a run of the daemon

A transport is disconnected when its node is restarted, and by `cape_exit` when the daemon
is interrupted.  Nothing pending refers to it afterwards while the daemon runs, but a
health check that fails restarts the node from inside the command that reported it.
-/

namespace PacemakerCloud

open Foundation

namespace World

variable {σ : Type}

def capeExit (d : Deployable) (w : World σ) : World σ :=
  d.assemblies.foldl (fun w node => w.modifyAssembly node.name (·.transportDisconnect)) w

/-- `cape_exit` disconnects no transport that is disconnected already. -/
def ExitsOnce (d : Deployable) (w : World σ) : Prop :=
  ∀ node ∈ d.assemblies, ∀ t ∈ (w.assemblies node.name).transport,
    ((w.assemblies node.name).trans t).freed = false

instance (d : Deployable) (w : World σ) : Decidable (w.ExitsOnce d) :=
  inferInstanceAs (Decidable (∀ node ∈ _, _))

/--
Every assembly has no transport yet, or one that is connected to the instance and not
disconnected.
-/
def Exitable (d : Deployable) (w : World σ) : Prop :=
  ∀ node ∈ d.assemblies, ∀ t ∈ (w.assemblies node.name).transport,
    ((w.assemblies node.name).trans t).freed = false ∧
      ((w.assemblies node.name).trans t).sshState ≠ .sessionConnecting

instance (d : Deployable) (w : World σ) : Decidable (w.Exitable d) :=
  inferInstanceAs (Decidable (∀ node ∈ _, _))

theorem capeExit_assemblies (d : Deployable) (w : World σ) (a : CString) :
    (w.capeExit d).assemblies a =
      if a ∈ d.assemblies.map AssemblyNode.name then (w.assemblies a).transportDisconnect
      else w.assemblies a :=
  foldl_assemblies (f := (·.transportDisconnect)) (fun _ _ => rfl) a d.names_nodup w

variable [Stopwatch σ]

def remainder (w : World σ) : Event → Option (Assembly σ × Nat)
  | .job a job env => ((w.assemblies a).jobDel job).jobRemainder env job
  | _ => none

def Spares (w : World σ) (e : Event) : Prop :=
  (∀ x ∈ w.remainder e, (x.1.trans x.2).freed = false) ∧
    ∀ x ∈ w.restarting e, ∀ t ∈ (w.assemblies x.1).transport,
      ((w.assemblies x.1).trans t).freed = false

instance (w : World σ) (e : Event) : Decidable (Spares w e) :=
  inferInstanceAs (Decidable (_ ∧ _))

/-- The event does not complete a failed health check whose failure restarts the node. -/
def CompletesInPlace (w : World σ) : Event → Prop
  | .job a job env => ((w.assemblies a).jobDel job).restartsOnCompletion env job = false
  | _ => True

instance (w : World σ) : ∀ e, Decidable (CompletesInPlace w e)
  | .job _ _ _ => inferInstanceAs (Decidable (_ = false))
  | .timer _ _ _ | .monitorTimer _ _ | .processJob | .processNextJob _ | .fire _ _
  | .runGraphReturn _ => inferInstanceAs (Decidable True)

structure Linked (w : World σ) : Prop where
  sound : ∀ a, (w.assemblies a).Sound
  dialing : ∀ a, (w.assemblies a).Dialing

variable {d : Deployable} {w w' : World σ} {e : Event}

omit [Stopwatch σ] in
theorem submit_dialing {a : Assembly σ} (h : a.Dialing) (hsound : a.Sound)
    (hrunning : a.recover.state = .running) (o : Nat) (command : CString) :
    (a.submit o command).Dialing := by
  obtain ⟨⟨t, hconnected⟩, -⟩ := hsound.healthy hrunning
  have hsound' := (hsound.submit hrunning o command).1
  rw [Assembly.submit_eq hconnected.1.1] at hsound' ⊢
  exact (Assembly.Keeps.enqueue a t _ _).dialing h.keepalives hconnected hsound'

theorem Transition.dialing (h : Transition d w e w') (hlinked : w.Linked) (a : CString) :
    (w'.assemblies a).Dialing := by
  have update : ∀ {b : CString} {asm : Assembly σ}, asm.Dialing →
      (Function.update w.assemblies b asm a).Dialing := by
    intro b asm hasm
    by_cases ha : a = b
    · subst ha
      rwa [Function.update_self]
    · rw [Function.update_of_ne ha]
      exact hlinked.dialing a
  cases h with
  | job hgraph hjob hreact hcalls =>
      exact update
        (Assembly.reactJob_dialing (hlinked.dialing _) (hlinked.sound _) hjob hreact).1
  | timer hgraph htimer hreact hcalls =>
      exact update
        (Assembly.reactTimer_dialing (hlinked.dialing _) (hlinked.sound _) htimer hreact).1
  | monitorRequest hgraph htimer hstate =>
      exact update (submit_dialing (hlinked.dialing _) (hlinked.sound _) hstate _ _)
  | @fire graph spec env c queued command hgraph hexec =>
      cases queued with
      | false => exact hlinked.dialing a
      | true =>
          exact update
            (submit_dialing (hlinked.dialing _) (hlinked.sound _) hexec.running _ _)
  | monitorOffline | processJob | processNextJob | confirmed | returned =>
      exact hlinked.dialing a

theorem Linked.step (h : w.Linked) (hstep : World.step d w e = .ok w') : w'.Linked :=
  ⟨step_sound h.sound hstep, (step_transition h.sound hstep).dialing h⟩

theorem load_down (d : Deployable) (errno : ResourceId → Int) (answers : CString → Env)
    (a : CString) : ((load d errno answers : World σ).assemblies a).Down := by
  have hnew : (newAssembly (errno ⟨a, []⟩) (d.assembly? a) : Assembly σ).Down :=
    ⟨fun t hlive => (nomatch hlive.1), fun hmem => (nomatch hmem)⟩
  rw [load_assemblies]
  split
  · exact (Assembly.Keeps.jobAdd _ _).down hnew
  · exact hnew

theorem load_linked (d : Deployable) (errno : ResourceId → Int) (answers : CString → Env) :
    (load d errno answers : World σ).Linked :=
  ⟨load_sound d errno answers, fun a => (load_down d errno answers a).dialing⟩

omit [Stopwatch σ] in
theorem not_freed_of_connected {a : Assembly σ} (h : ∃ t, a.Connected t) :
    ∀ t ∈ a.transport, (a.trans t).freed = false := by
  intro t ht
  obtain ⟨t', hconnected⟩ := h
  obtain rfl : t = t' := hconnected.1.eq ht
  exact hconnected.1.2

theorem Transition.restarting_live (h : Transition d w e w') (hlinked : w.Linked) :
    ∀ x ∈ w.restarting e, ∀ t ∈ (w.assemblies x.1).transport,
      ((w.assemblies x.1).trans t).freed = false := by
  intro x hx
  simp only [restarting] at hx
  split at hx
  case isFalse => cases hx
  case isTrue hmem =>
  refine not_freed_of_connected ?_
  cases h with
  | job hgraph hjob hreact hcalls =>
      cases hx
      simp only [World.outputs, hreact] at hmem
      exact (Assembly.reactJob_dialing (hlinked.dialing _) (hlinked.sound _) hjob hreact).2
        hmem
  | timer hgraph htimer hreact hcalls =>
      cases hx
      simp only [World.outputs, find_timer (hlinked.sound _) htimer, hreact] at hmem
      exact (Assembly.reactTimer_dialing (hlinked.dialing _) (hlinked.sound _) htimer
        hreact).2 hmem
  | monitorRequest | fire | monitorOffline | processJob | processNextJob | confirmed
  | returned => cases hx

theorem spares_iff (hlinked : w.Linked) (hstep : World.step d w e = .ok w') :
    Spares w e ↔ CompletesInPlace w e := by
  have htransition := step_transition hlinked.sound hstep
  rw [Spares, and_iff_left (htransition.restarting_live hlinked)]
  cases htransition with
  | job hgraph hjob hreact hcalls =>
      exact Assembly.jobRemainder_freed (hlinked.dialing _) (hlinked.sound _) hjob hreact
  | timer | monitorRequest | fire | monitorOffline | processJob | processNextJob
  | confirmed | returned => simp [remainder, CompletesInPlace]

omit [Stopwatch σ] in
theorem Linked.unreferred (h : w.Linked) (a : CString) : (w.assemblies a).Unreferred :=
  (h.sound a).commands.unreferred (h.sound a).pipeline (h.dialing a).keepalives

omit [Stopwatch σ] in
theorem Linked.exit_iff (h : w.Linked) (d : Deployable) :
    (w.ExitsOnce d ∧ ∀ a, ((w.capeExit d).assemblies a).Unreferred) ↔ w.Exitable d := by
  have hlive : ∀ {node t}, (w.assemblies node).transport = some t →
      ((w.assemblies node).trans t).freed = false →
      ((w.assemblies node).transportDisconnect.Unreferred ↔
        ((w.assemblies node).trans t).sshState ≠ .sessionConnecting) := by
    intro node t ht hfreed
    exact (h.dialing node).unreferred_iff (h.sound node).commands (h.sound node).pipeline
      ⟨ht, hfreed⟩
  constructor
  · rintro ⟨honce, hunreferred⟩ node hnode t ht
    have hfreed := honce node hnode t ht
    have hexit := hunreferred node.name
    rw [capeExit_assemblies, if_pos (List.mem_map_of_mem hnode)] at hexit
    exact ⟨hfreed, (hlive ht hfreed).mp hexit⟩
  · intro hexitable
    refine ⟨fun node hnode t ht => (hexitable node hnode t ht).1, fun a => ?_⟩
    rw [capeExit_assemblies]
    split
    · next hmem =>
        obtain ⟨node, hnode, rfl⟩ := List.mem_map.mp hmem
        cases ht : (w.assemblies node.name).transport with
        | none =>
            rw [Assembly.transportDisconnect, ht]
            exact h.unreferred node.name
        | some t =>
            obtain ⟨hfreed, hstate⟩ := hexitable node hnode t ht
            exact (hlive ht hfreed).mpr hstate
    · exact h.unreferred a

variable {errno : ResourceId → Int} {answers : CString → Env} {events : List Event}

theorem reaches_linked (h : Reaches d errno answers events w) : w.Linked :=
  run_invariant_of_step (fun hlinked hstep => hlinked.step hstep)
    (load_linked d errno answers) h

/--
A disconnected transport is not used again exactly in the runs in which no failed health
check restarts its node when it completes.  It stays unused when the daemon is interrupted
exactly if no assembly is being connected to its instance then, or has its last transport
already disconnected.
-/
theorem disconnected_unused_iff (h : Reaches d errno answers events w) :
    ((Along (step d) Spares (load d errno answers : World σ) events ∧
        ∀ a, (w.assemblies a).Unreferred) ↔
      Along (step d) CompletesInPlace (load d errno answers : World σ) events) ∧
    ((w.ExitsOnce d ∧ ∀ a, ((w.capeExit d).assemblies a).Unreferred) ↔ w.Exitable d) := by
  have hlinked := reaches_linked h
  refine ⟨?_, hlinked.exit_iff d⟩
  rw [and_iff_left hlinked.unreferred]
  exact along_iff (fun hlinked hstep => hlinked.step hstep) spares_iff
    (load_linked d errno answers) h

def reconnecting : List Event :=
  bringUp ++ .timer bar 2 workingEnv :: bringUp

/-- Both transports of the run are spared; the first is disconnected, the second in use. -/
theorem disconnected_unused_iff_reconnecting :
    ∃ w, BarReaches reconnecting w ∧ ((w.assemblies bar).trans 0).freed = true ∧
      (w.assemblies bar).transport = some 1 ∧
      Along (step barDeployable) Spares
        (load barDeployable (fun _ => 0) (fun _ => workingEnv) : World Ring) reconnecting ∧
      (w.assemblies bar).Unreferred ∧ w.ExitsOnce barDeployable ∧
      ((w.capeExit barDeployable).assemblies bar).Unreferred := by
  obtain ⟨w, hreach, hfreed, htransport, hexitable⟩ :
      ∃ w, BarReaches reconnecting w ∧ ((w.assemblies bar).trans 0).freed = true ∧
        (w.assemblies bar).transport = some 1 ∧ w.Exitable barDeployable :=
    exists_reaches (by decide +kernel)
  obtain ⟨hrun, hexit⟩ := disconnected_unused_iff hreach
  obtain ⟨hspares, hunreferred⟩ := hrun.mpr (by decide +kernel)
  obtain ⟨honce, hexited⟩ := hexit.mpr hexitable
  exact ⟨w, hreach, hfreed, htransport, hspares, hunreferred bar, honce, hexited bar⟩

def failedCheck : Event :=
  .job bar (.assemblySshExec 0) { workingEnv with exitStatus := 1 }

/--
A failed health check restarts its node, and `transport_schedule` is called on the freed
transport; an interrupt then disconnects it once more.  An interrupt while the assembly is
being connected leaves the job that connects it.
-/
theorem disconnected_used :
    (∃ w, BarReaches bringUp w ∧ ¬ Spares w failedCheck) ∧
    (∃ w, BarReaches (bringUp ++ [failedCheck]) w ∧ ¬ w.ExitsOnce barDeployable) ∧
    ∃ w, BarReaches (bringUp.take 1) w ∧
      (((w.capeExit barDeployable).assemblies bar).trans 0).freed = true ∧
      ((w.capeExit barDeployable).assemblies bar).Referred 0 :=
  ⟨exists_reaches (by decide +kernel), exists_reaches (by decide +kernel),
    exists_reaches (by decide +kernel)⟩

end World

end PacemakerCloud

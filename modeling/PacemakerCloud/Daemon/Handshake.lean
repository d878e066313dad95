import PacemakerCloud.Assembly.Handshake
import PacemakerCloud.Daemon.Disconnect

/-!
# Authenticated sessions

An assembly is set to running by `ssh_assembly_connect` only.  The calls that the
invocations of a run make are put one after the other, and the session they are
made on is the one that the last `libssh2_session_init` began.
-/

namespace PacemakerCloud

open Foundation

namespace World

variable {σ : Type}

def sessionCalls (a : CString) (w : World σ) : Event → List SessionCall
  | .job b job env => if b = a then (w.assemblies a).jobCalls env job else []
  | _ => []

def KeyAccepted (a : CString) (w : World σ) (e : Event) : Prop :=
  .userauth .error ∉ sessionCalls a w e

instance (a : CString) (w : World σ) (e : Event) : Decidable (KeyAccepted a w e) :=
  inferInstanceAs (Decidable (¬ _))

theorem submit_secured {a : Assembly σ} {session : List SessionCall} (h : a.Secured session)
    (hsound : a.Sound) (hrunning : a.recover.state = .running) (o : Nat) (command : CString) :
    (a.submit o command).Secured session := by
  obtain ⟨⟨t, hconnected⟩, -⟩ := hsound.healthy hrunning
  rw [Assembly.submit_eq hconnected.1.1]
  exact (Assembly.Keeps.enqueue a t _ _).secured h

variable [Stopwatch σ] {d : Deployable} {w w' : World σ} {e : Event} {a : CString}
  {session : List SessionCall}

theorem Transition.secured (h : Transition d w e w') (hlinked : w.Linked)
    (hsecured : (w.assemblies a).Secured session) (haccepted : KeyAccepted a w e) :
    RunningAuthenticated session (sessionCalls a w e) ∧
      (w'.assemblies a).Secured ((sessionCalls a w e).foldl extendSession session) := by
  have update : ∀ {b : CString} {asm : Assembly σ},
      (b = a → asm.Secured session) →
      (Function.update w.assemblies b asm a).Secured session := by
    intro b asm hasm
    by_cases hb : a = b
    · subst hb
      rw [Function.update_self]
      exact hasm rfl
    · rw [Function.update_of_ne hb]
      exact hsecured
  have hsubmit : ∀ {b : CString} {o : Nat} {command : CString},
      (w.assemblies b).recover.state = .running →
      (Function.update w.assemblies b ((w.assemblies b).submit o command) a).Secured
        session := by
    intro b o command hrunning
    refine update ?_
    rintro rfl
    exact submit_secured hsecured (hlinked.sound _) hrunning o command
  cases h with
  | @job b job env asm outputs c hgraph hjob hreact hcalls =>
      by_cases hb : b = a
      · subst hb
        simp only [KeyAccepted, sessionCalls, if_true, Function.update_self] at haccepted ⊢
        exact Assembly.reactJob_secured hsecured (hlinked.dialing b) (hlinked.sound b) hjob
          haccepted hreact
      · simp only [sessionCalls, if_neg hb]
        exact ⟨trivial, update fun h => absurd h hb⟩
  | @timer b handle timer env asm outputs c hgraph htimer hreact hcalls =>
      refine ⟨trivial, update ?_⟩
      rintro rfl
      exact Assembly.reactTimer_secured hsecured (hlinked.dialing _) (hlinked.sound _)
        htimer hreact
  | monitorRequest hgraph htimer hstate => exact ⟨trivial, hsubmit hstate⟩
  | @fire graph spec env c queued command hgraph hexec =>
      refine ⟨trivial, ?_⟩
      cases queued with
      | true => exact hsubmit hexec.running
      | false => exact hsecured
  | monitorOffline | processJob | processNextJob | confirmed | returned =>
      exact ⟨trivial, hsecured⟩

variable {errno : ResourceId → Int} {answers : CString → Env} {events : List Event}

/--
An assembly is set to running only on a session that has been started and
authenticated, in every run in which no key is refused.
-/
theorem running_authenticated_of_keyAccepted (h : Reaches d errno answers events w)
    (haccepted : Along (step d) (KeyAccepted a) (load d errno answers : World σ) events) :
    RunningAuthenticated []
      (trace (step d) (sessionCalls a) (load d errno answers : World σ) events) := by
  have hload : (load d errno answers : World σ).Linked ∧ RunningAuthenticated [] [] ∧
      ((load d errno answers : World σ).assemblies a).Secured [] :=
    ⟨load_linked d errno answers, trivial, (load_down d errno answers a).secured⟩
  have hkept := run_trace_along (sessionCalls a)
    (I := fun (w : World σ) calls => w.Linked ∧ RunningAuthenticated [] calls ∧
      (w.assemblies a).Secured (calls.foldl extendSession []))
    (fun {s e s' calls} ⟨hlinked, hauthenticated, hsecured⟩ hkey hstep => by
      obtain ⟨hcalls, hsecured'⟩ :=
        (step_transition hlinked.sound hstep).secured hlinked hsecured hkey
      refine ⟨hlinked.step hstep, runningAuthenticated_append.mpr ⟨hauthenticated, hcalls⟩, ?_⟩
      rw [List.foldl_append]
      exact hsecured')
    hload haccepted h
  exact hkept.2.1

def resumed : List Event :=
  bringUp.take 2 ++
    [.job bar .sshAssemblyConnect { workingEnv with sessionStartup := .eagain },
      .job bar .sshAssemblyConnect workingEnv]

theorem running_authenticated_of_keyAccepted_resumed :
    let calls := trace (step barDeployable) (sessionCalls bar)
      (load barDeployable (fun _ => 0) (fun _ => workingEnv) : World Ring) resumed
    calls = [.sessionInit, .sessionStartup .eagain, .sessionStartup .ok, .userauth .ok,
      .running] ∧ RunningAuthenticated [] calls := by
  obtain ⟨w, hreach, -⟩ : ∃ w, BarReaches resumed w ∧ True :=
    exists_reaches (by decide +kernel)
  exact ⟨by decide +kernel, running_authenticated_of_keyAccepted hreach (by decide +kernel)⟩

def refused : List Event :=
  bringUp.take 2 ++ [.job bar .sshAssemblyConnect { workingEnv with userauth := .error }]

theorem running_without_key :
    (∃ w, BarReaches refused w ∧ (w.assemblies bar).recover.state = .running) ∧
      let calls := trace (step barDeployable) (sessionCalls bar)
        (load barDeployable (fun _ => 0) (fun _ => workingEnv) : World Ring) refused
      calls = [.sessionInit, .sessionStartup .ok, .userauth .error, .running] ∧
        ¬ RunningAuthenticated [] calls :=
  ⟨exists_reaches (by decide +kernel), by decide +kernel, by decide +kernel⟩

end World

end PacemakerCloud

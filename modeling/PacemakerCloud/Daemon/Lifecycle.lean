import PacemakerCloud.Assembly.Lifecycle
import PacemakerCloud.Daemon.Disconnect

/-!
# The life of the assemblies in a run of the daemon

Every event moves an assembly along the edges of its life cycle, and only the assembly's own jobs
and timers move it.  Two phases are never left, so the cycle says from which states the daemon can
still bring an assembly up: from all the others, and with an instance that answers in four events.
-/

namespace PacemakerCloud

open Foundation

def Event.owner : Event → Option CString
  | .job a _ _ | .timer a _ _ => some a
  | .monitorTimer _ _ | .processJob | .processNextJob _ | .fire _ _ | .runGraphReturn _ => none

namespace Assembly

variable {σ : Type} {a : Assembly σ} {t : Nat}

theorem polled_of_polling (h : a.phase = .polling) : a.Polled := by
  unfold phase at h
  split_ifs at h with _ hpolled
  exact hpolled

theorem job_of_connecting (h : a.phase = .connecting) : .connectExecute ∈ a.jobs := by
  unfold phase at h
  split_ifs at h with _ _ hjob
  exact hjob

theorem jobs_of_handshake (h : a.phase = .handshake) :
    .connectExecute ∉ a.jobs ∧ .sshAssemblyConnect ∈ a.jobs := by
  unfold phase at h
  split_ifs at h with _ _ hconnect hjob
  exact ⟨hconnect, hjob⟩

theorem running_of_running (h : a.phase = .running) : a.recover.state = .running := by
  unfold phase at h
  split_ifs at h with hrunning
  exact hrunning

/-! An instance that runs and lets the daemon in. -/

open World (workingEnv)

variable [Stopwatch σ]

theorem poll_working (a : Assembly σ) :
    a.poll workingEnv = .ok (a.transportConnect, [.address "1.2.3.4".toList]) := by
  simp [poll, workingEnv, instanceStateGet]

theorem connect_working (hlive : a.Live t) : a.reactJob workingEnv .connectExecute =
    .ok ((a.modifyTrans t ({ · with sshState := .sessionInit })).jobAdd .sshAssemblyConnect,
      []) := by
  simp only [reactJob, connectExecute, hlive.1]
  rfl

theorem handshake_working (hlive : a.Live t) (hconnecting : (a.trans t).sshState ≠
    .sessionConnecting) (hconnected : (a.trans t).sshState ≠ .sessionConnected) :
    ∃ a' outputs, a.handshake workingEnv = .ok (a', outputs) ∧ a'.recover.state = .running ∧
      (outputs = [] ∨ outputs = [.stateChanging]) := by
  have hout : connectOutcome workingEnv (a.trans t).sshState = .keepalive := by
    cases hstate : (a.trans t).sshState with
    | sessionConnecting => exact absurd hstate hconnecting
    | sessionConnected => exact absurd hstate hconnected
    | sessionInit | sessionStartup | userauthPublickeyFromfile | keepaliveConfig => rfl
  have hup : ((a.sshKeepaliveSend t).modifyTrans t
      ({ · with sshState := .sessionConnected })).Connected t := by
    simpa [Connected, Live, sshKeepaliveSend, modifyTrans, timerAdd] using hlive
  obtain ⟨a', outputs, hok, hrunning⟩ := up_ok hup workingEnv
  exact ⟨a', outputs, by simp only [handshake, hlive.1, hout, hok], hrunning⟩

end Assembly

namespace World

variable {σ : Type}

def phase (w : World σ) (a : CString) : Phase := (w.assemblies a).phase

structure Circling (w : World σ) : Prop extends w.Linked where
  settled : ∀ a, (w.assemblies a).Settled

structure Follows (e : Event) (w w' : World σ) (a : CString) : Prop where
  settled : (w'.assemblies a).Settled
  next : Phase.Next (w.phase a) (w'.phase a)
  owner : w'.phase a ≠ w.phase a → e.owner = some a

variable [Stopwatch σ] {d : Deployable} {w w' : World σ} {e : Event} {env : Env}

/-! ## Every event follows the cycle -/

omit [Stopwatch σ] in
theorem Follows.stay (h : w.Circling) (e : Event) (a : CString) (hsame : w'.assemblies a =
    w.assemblies a) : Follows e w w' a := by
  have hphase : w'.phase a = w.phase a := congrArg Assembly.phase hsame
  refine ⟨?_, ?_, fun hne => absurd hphase hne⟩
  · rw [hsame]
    exact h.settled a
  · rw [hphase]
    exact .stay _

omit [Stopwatch σ] in
theorem Follows.owned (h : w.Circling) {b : CString} {asm : Assembly σ} (c : Cape σ)
    (howner : e.owner = some b) (hnext : asm.Settled ∧ Phase.Next (w.phase b) asm.phase)
    (a : CString) : Follows e w ⟨Function.update w.assemblies b asm, c⟩ a := by
  by_cases ha : a = b
  · subst ha
    refine ⟨?_, ?_, fun _ => howner⟩
    · simpa only [Function.update_self] using hnext.1
    · simpa only [phase, Function.update_self] using hnext.2
  · exact .stay h e a (Function.update_of_ne ha _ _)

omit [Stopwatch σ] in
theorem Follows.submit (h : w.Circling) (e : Event) {b : CString} (o : Nat) (command : CString)
    (c : Cape σ) (hrunning : (w.assemblies b).recover.state = .running) (a : CString) :
    Follows e w ⟨Function.update w.assemblies b ((w.assemblies b).submit o command), c⟩ a := by
  by_cases ha : a = b
  · subst ha
    have hstate : ((w.assemblies a).submit o command).recover.state = .running := by
      rw [Assembly.submit_recover, hrunning]
    refine ⟨fun _ _ => Or.inl ?_, ?_, fun hne => absurd ?_ hne⟩
    · simpa only [Function.update_self] using hstate
    · simp only [phase, Function.update_self, Assembly.phase_running hstate,
        Assembly.phase_running hrunning]
      exact .stay _
    · simp only [phase, Function.update_self, Assembly.phase_running hstate,
        Assembly.phase_running hrunning]
  · exact .stay h e a (Function.update_of_ne ha _ _)

theorem Transition.follows (h : Transition d w e w') (hcircling : w.Circling) (a : CString) :
    Follows e w w' a := by
  cases h with
  | job hgraph hjob hreact hcalls =>
      exact .owned hcircling _ rfl (Assembly.reactJob_next (hcircling.settled _)
        (hcircling.dialing _) (hcircling.sound _) hjob hreact) a
  | timer hgraph htimer hreact hcalls =>
      exact .owned hcircling _ rfl (Assembly.reactTimer_next (hcircling.settled _)
        (hcircling.dialing _) (hcircling.sound _) htimer hreact) a
  | monitorRequest hgraph htimer hstate => exact .submit hcircling _ _ _ _ hstate a
  | @fire graph spec env c queued command hgraph hexec =>
      cases queued with
      | false => exact .stay hcircling _ a rfl
      | true => exact .submit hcircling _ _ _ _ hexec.running a
  | monitorOffline | processJob | processNextJob | confirmed | returned =>
      exact .stay hcircling _ a rfl

theorem Circling.step (h : w.Circling) (hstep : World.step d w e = .ok w') : w'.Circling :=
  { h.toLinked.step hstep with
    settled := fun a => ((step_transition h.sound hstep).follows h a).settled }

theorem load_circling (d : Deployable) (errno : ResourceId → Int) (answers : CString → Env) :
    (load d errno answers : World σ).Circling :=
  { load_linked d errno answers with
    settled := fun a t hconnected =>
      absurd hconnected.1 ((load_down d errno answers a).not_live t) }

theorem reaches_circling {errno : ResourceId → Int} {answers : CString → Env}
    {events : List Event} (h : Reaches d errno answers events w) : w.Circling :=
  run_invariant_of_step (fun hcircling hstep => hcircling.step hstep)
    (load_circling d errno answers) h

/-- The life of every assembly follows the cycle, and only its own events move it. -/
theorem phase_next {errno : ResourceId → Int} {answers : CString → Env} {events : List Event}
    (h : Reaches d errno answers events w) (hstep : World.step d w e = .ok w') (a : CString) :
    Phase.Next (w.phase a) (w'.phase a) ∧ (w'.phase a ≠ w.phase a → e.owner = some a) := by
  have hcircling := reaches_circling h
  have hfollows := (step_transition hcircling.sound hstep).follows hcircling a
  exact ⟨hfollows.next, hfollows.owner⟩

theorem phase_next_opened :
    ∃ w w' : World Ring, BarReaches (bringUp.take 2) w ∧
      World.step barDeployable w (.job bar .sshAssemblyConnect workingEnv) = .ok w' ∧
      w.phase bar = .handshake ∧ w'.phase bar = .running ∧
      Phase.Next (w.phase bar) (w'.phase bar) := by
  obtain ⟨w, hreach, hphase, hends⟩ : ∃ w : World Ring, BarReaches (bringUp.take 2) w ∧
      w.phase bar = .handshake ∧ endsIn (World.step barDeployable) w
        [.job bar .sshAssemblyConnect workingEnv] (fun w' => w'.phase bar = .running) = true :=
    exists_reaches (by decide +kernel)
  obtain ⟨w', hrun, hrunning⟩ := exists_of_endsIn hends
  have hstep := run_singleton.mp hrun
  exact ⟨w, w', hreach, hstep, hphase, of_decide_eq_true hrunning,
    (phase_next hreach hstep bar).1⟩

/-! ## Taking the next step -/

theorem step_job {a : CString} {job : AssemblyJob} {asm : Assembly σ} {outputs : List Output}
    {c : Cape σ} (hgraph : w.cape.pe.inRunGraph = none) (hjob : job ∈ (w.assemblies a).jobs)
    (hreact : ((w.assemblies a).jobDel job).reactJob env job = .ok (asm, outputs))
    (hcalls : outputs.foldlM (Cape.receive d a env) w.cape = .ok c) :
    World.step d w (.job a job env) = .ok ⟨Function.update w.assemblies a asm, c⟩ := by
  simp only [World.step, hgraph, dispatch, if_pos hjob]
  rw [ofFault_eq_ok, dispatchJob_eq, perform_modifyAssembly]
  simp only [modifyAssembly, Function.update_self, hreact]
  exact perform_eq_ok.mpr ⟨rfl, hcalls⟩

theorem step_timer {a : CString} {handle : Nat} {timer : AssemblyTimer} {asm : Assembly σ}
    {outputs : List Output} {c : Cape σ} (hsound : (w.assemblies a).Sound)
    (hgraph : w.cape.pe.inRunGraph = none) (htimer : (handle, timer) ∈ (w.assemblies a).timers)
    (hreact : ((w.assemblies a).timerDel handle).reactTimer env timer = .ok (asm, outputs))
    (hcalls : outputs.foldlM (Cape.receive d a env) w.cape = .ok c) :
    World.step d w (.timer a handle env) = .ok ⟨Function.update w.assemblies a asm, c⟩ := by
  simp only [World.step, hgraph, dispatch, find_timer hsound htimer]
  rw [ofFault_eq_ok, dispatchTimer_eq (d := d), perform_modifyAssembly]
  simp only [modifyAssembly, Function.update_self, hreact]
  exact perform_eq_ok.mpr ⟨rfl, hcalls⟩

/-! ## Coming up again -/

/-- Some continuation of at most so many events brings the assembly up. -/
def ComesUp (d : Deployable) (a : CString) (bound : Nat) (w : World σ) : Prop :=
  ∃ events w', events.length ≤ bound ∧ run (World.step d) w events = .ok w' ∧
    (w'.assemblies a).recover.state = .running

variable {a : CString}

theorem ComesUp.cons {bound : Nat} (hstep : World.step d w e = .ok w')
    (h : w'.ComesUp d a bound) : w.ComesUp d a (bound + 1) := by
  obtain ⟨events, w'', hle, hrun, hrunning⟩ := h
  exact ⟨e :: events, w'', Nat.succ_le_succ hle, by rw [run, hstep]; exact hrun, hrunning⟩

theorem ComesUp.mono {bound bound' : Nat} (h : w.ComesUp d a bound) (hle : bound ≤ bound') :
    w.ComesUp d a bound' := by
  obtain ⟨events, w', hlength, hrun⟩ := h
  exact ⟨events, w', hlength.trans hle, hrun⟩

theorem Circling.comesUp_handshake (h : w.Circling) (hgraph : w.cape.pe.inRunGraph = none)
    (hphase : w.phase a = .handshake) : w.ComesUp d a 1 := by
  obtain ⟨hconnect, hjob⟩ := Assembly.jobs_of_handshake hphase
  have hpending : (w.assemblies a).pipeline ≠ 0 :=
    fun hzero => (Assembly.pipeline_eq_zero.mp hzero).2.2.1 hjob
  obtain ⟨t, hlive⟩ := (h.sound a).pipeline.connecting (Or.inr hjob)
  obtain ⟨asm, outputs, hreact, hrunning, houtputs⟩ := Assembly.handshake_working
    (a := (w.assemblies a).jobDel .sshAssemblyConnect) hlive
    (mt ((h.dialing a).connecting t hlive).mp hconnect)
    (fun hconnected => (h.sound a).not_connected hpending t ⟨hlive, hconnected⟩)
  have hcalls : ∃ c, outputs.foldlM (Cape.receive d a workingEnv) w.cape = .ok c := by
    rcases houtputs with rfl | rfl
    · exact ⟨_, rfl⟩
    · exact ⟨_, rfl⟩
  obtain ⟨c, hcalls⟩ := hcalls
  refine .cons (step_job hgraph hjob hreact hcalls) ⟨[], _, Nat.zero_le _, rfl, ?_⟩
  simpa only [Function.update_self] using hrunning

theorem Circling.comesUp_connecting (h : w.Circling) (hgraph : w.cape.pe.inRunGraph = none)
    (hphase : w.phase a = .connecting) : w.ComesUp d a 2 := by
  have hjob := Assembly.job_of_connecting hphase
  obtain ⟨t, hlive⟩ := (h.sound a).pipeline.connecting (Or.inl hjob)
  have hreact := Assembly.connect_working (a := (w.assemblies a).jobDel .connectExecute) hlive
  have hstep := step_job (d := d) hgraph hjob hreact rfl
  have hcircling := h.step hstep
  refine .cons hstep (hcircling.comesUp_handshake hgraph ?_)
  refine (hcircling.sound a).phase_handshake ?_
  simp [Assembly.jobAdd]

theorem Circling.comesUp_polling (h : w.Circling) (hgraph : w.cape.pe.inRunGraph = none)
    (hphase : w.phase a = .polling) : w.ComesUp d a 3 := by
  have hfound : ∀ {b : Assembly σ} {e : Event}, World.step d w e =
      .ok ⟨Function.update w.assemblies a b.transportConnect,
        w.cape.modifyCloud a ({ · with address := some "1.2.3.4".toList })⟩ →
      w.ComesUp d a 3 := by
    intro b e hstep
    have hcircling := h.step hstep
    refine .cons hstep (hcircling.comesUp_connecting hgraph ?_)
    refine (hcircling.sound a).phase_connecting ?_
    simp [Assembly.transportConnect, Assembly.jobAdd]
  rcases Assembly.polled_of_polling hphase with hjob | ⟨⟨handle, timer⟩, htimer, rfl⟩
  · have hreact : ((w.assemblies a).jobDel .myInstanceStateGet).reactJob workingEnv
        .myInstanceStateGet = _ := Assembly.poll_working _
    exact hfound (step_job hgraph hjob hreact rfl)
  · have hreact : ((w.assemblies a).timerDel handle).reactTimer workingEnv
        .myInstanceStateGet = _ := Assembly.poll_working _
    exact hfound (step_timer (h.sound a) hgraph htimer hreact rfl)

theorem Circling.comesUp (h : w.Circling) (hgraph : w.cape.pe.inRunGraph = none)
    (hlost : ¬ (w.phase a).Lost) : w.ComesUp d a 3 := by
  cases hphase : w.phase a with
  | polling => exact h.comesUp_polling hgraph hphase
  | connecting => exact (h.comesUp_connecting hgraph hphase).mono (by omega)
  | handshake => exact (h.comesUp_handshake hgraph hphase).mono (by omega)
  | running => exact ⟨[], w, Nat.zero_le _, rfl, Assembly.running_of_running hphase⟩
  | escalated => exact absurd (Or.inl hphase) hlost
  | abandoned => exact absurd (Or.inr hphase) hlost

theorem Circling.run_lost (h : w.Circling) {events : List Event}
    (hlost : (w.phase a).Lost) (hrun : run (World.step d) w events = .ok w') :
    (w'.phase a).Lost := by
  have hboth : w'.Circling ∧ (w'.phase a).Lost := by
    refine run_invariant_of_step (I := fun w => w.Circling ∧ (w.phase a).Lost) ?_ ⟨h, hlost⟩ hrun
    rintro w₁ e w₂ ⟨hcircling, hlost⟩ hstep
    have hfollows := (step_transition hcircling.sound hstep).follows hcircling a
    exact ⟨hcircling.step hstep, hfollows.next.lost hlost⟩
  exact hboth.2

end World

end PacemakerCloud

import PacemakerCloud.Assembly.Disconnect

/-!
# The life of an assembly

Seen from outside an assembly goes round in a circle: the cloud is polled for its instance, the
instance is connected to, a session is opened, and the assembly runs until it fails and is polled
again.  Two phases lie off the circle, and no handler leaves them: a failure that was escalated
leaves the assembly failed on an open connection, and a recovery step that ends without a next one
leaves it alone.
-/

namespace PacemakerCloud

open Foundation

inductive Phase where
  /-- The state of the instance is asked for. -/
  | polling
  | connecting
  | handshake
  | running
  /-- The assembly has failed and is still connected. -/
  | escalated
  /-- The assembly is down, and nothing that is pending will change it. -/
  | abandoned
  deriving DecidableEq, Repr

namespace Phase

inductive Next : Phase → Phase → Prop where
  | stay (phase : Phase) : Next phase phase
  | found : Next .polling .connecting
  | unanswered : Next .polling .abandoned
  | connected : Next .connecting .handshake
  | opened : Next .handshake .running
  | refused : Next .handshake .abandoned
  | restarted : Next .running .polling
  | escalated : Next .running .escalated

def Lost (phase : Phase) : Prop := phase = .escalated ∨ phase = .abandoned

instance (phase : Phase) : Decidable phase.Lost := inferInstanceAs (Decidable (_ ∨ _))

theorem Next.lost {p q : Phase} (h : Next p q) (hlost : p.Lost) : q.Lost := by
  cases h with
  | stay => exact hlost
  | found | unanswered | connected | opened | refused | restarted | escalated =>
      rcases hlost with hlost | hlost <;> cases hlost

end Phase

namespace Assembly

variable {σ : Type}

def Polled (a : Assembly σ) : Prop :=
  .myInstanceStateGet ∈ a.jobs ∨ ∃ x ∈ a.timers, x.2 = .myInstanceStateGet

instance (a : Assembly σ) : Decidable a.Polled := inferInstanceAs (Decidable (_ ∨ _))

def isConnected (a : Assembly σ) : Bool :=
  a.transport.any fun t => !(a.trans t).freed && (a.trans t).sshState = .sessionConnected

def phase (a : Assembly σ) : Phase :=
  if a.recover.state = .running then .running
  else if a.Polled then .polling
  else if .connectExecute ∈ a.jobs then .connecting
  else if .sshAssemblyConnect ∈ a.jobs then .handshake
  else if a.isConnected then .escalated
  else .abandoned

def Settled (a : Assembly σ) : Prop :=
  ∀ t, a.Connected t → a.recover.state = .running ∨ a.recover.state = .failed

variable {a a' : Assembly σ} {t s : Nat} {env : Env} {outputs : List Output}

theorem isConnected_iff : a.isConnected = true ↔ ∃ t, a.Connected t := by
  simp [isConnected, Connected, Live, Option.any_eq_true, and_assoc]

/-! ## Recognising the phase -/

theorem pipeline_ne_zero_of_polled (h : a.Polled) : a.pipeline ≠ 0 := by
  rw [Ne, pipeline_eq_zero]
  rintro ⟨hjob, -, -, htimer⟩
  rcases h with hmem | ⟨⟨handle, timer⟩, hmem, rfl⟩
  · exact hjob hmem
  · exact htimer handle hmem

theorem not_polled (h : a.pipeline = 0) : ¬ a.Polled :=
  fun hpolled => pipeline_ne_zero_of_polled hpolled h

theorem Sound.not_polled_of_job (h : a.Sound) {job : AssemblyJob} (hjob : job ∈ a.jobs)
    (hconnect : job = .connectExecute ∨ job = .sshAssemblyConnect) : ¬ a.Polled := by
  have hpending : .connectExecute ∈ a.jobs ∨ .sshAssemblyConnect ∈ a.jobs := by
    rcases hconnect with rfl | rfl
    · exact Or.inl hjob
    · exact Or.inr hjob
  obtain ⟨t, hlive⟩ := h.pipeline.connecting hpending
  rintro (hmem | ⟨⟨handle, timer⟩, hmem, rfl⟩)
  · exact h.pipeline.polling (Or.inl hmem) t hlive
  · exact h.pipeline.polling (Or.inr ⟨handle, hmem⟩) t hlive

theorem Pipeline.not_connecting (h : a.Pipeline) (hjob : .sshAssemblyConnect ∈ a.jobs) :
    .connectExecute ∉ a.jobs := by
  intro hmem
  have hle := h.le_one
  have hconnect := List.count_pos_iff.mpr hmem
  have hshake := List.count_pos_iff.mpr hjob
  simp only [Assembly.pipeline] at hle
  omega

theorem phase_running (h : a.recover.state = .running) : a.phase = .running :=
  if_pos h

theorem Sound.phase_polling (h : a.Sound) (hpolled : a.Polled) : a.phase = .polling := by
  have hdown := h.not_running (pipeline_ne_zero_of_polled hpolled)
  simp [phase, hdown, hpolled]

theorem Sound.phase_connecting (h : a.Sound) (hjob : .connectExecute ∈ a.jobs) :
    a.phase = .connecting := by
  have hdown := h.not_running fun hzero => (pipeline_eq_zero.mp hzero).2.1 hjob
  have hnot := h.not_polled_of_job hjob (Or.inl rfl)
  simp [phase, hdown, hnot, hjob]

theorem Sound.phase_handshake (h : a.Sound) (hjob : .sshAssemblyConnect ∈ a.jobs) :
    a.phase = .handshake := by
  have hdown := h.not_running fun hzero => (pipeline_eq_zero.mp hzero).2.2.1 hjob
  have hnot := h.not_polled_of_job hjob (Or.inr rfl)
  simp [phase, hdown, hnot, h.pipeline.not_connecting hjob, hjob]

theorem Sound.phase_escalated (h : a.Sound) (hconnected : a.Connected t)
    (hdown : a.recover.state ≠ .running) : a.phase = .escalated := by
  have hzero := h.pipeline.connected hconnected
  obtain ⟨-, hconnect, hshake, -⟩ := pipeline_eq_zero.mp hzero
  simp [phase, hdown, not_polled hzero, hconnect, hshake, isConnected_iff.mpr ⟨t, hconnected⟩]

theorem phase_abandoned (hdown : a.recover.state ≠ .running) (hzero : a.pipeline = 0)
    (hnot : ∀ t, ¬ a.Connected t) : a.phase = .abandoned := by
  obtain ⟨-, hconnect, hshake, -⟩ := pipeline_eq_zero.mp hzero
  have hout : a.isConnected = false := by
    rw [Bool.eq_false_iff, Ne, isConnected_iff]
    exact fun ⟨t, ht⟩ => hnot t ht
  simp [phase, hdown, not_polled hzero, hconnect, hshake, hout]

theorem phase_lost_iff : a.phase.Lost ↔ a.recover.state ≠ .running ∧ a.pipeline = 0 := by
  constructor
  · intro hlost
    simp only [phase] at hlost
    split_ifs at hlost with hrunning hpolled hconnect hshake hconnected
    case pos | pos | pos | pos => exact absurd hlost (by decide)
    all_goals
      exact ⟨hrunning, pipeline_eq_zero.mpr ⟨fun h => hpolled (Or.inl h), hconnect, hshake,
        fun handle h => hpolled (Or.inr ⟨_, h, rfl⟩)⟩⟩
  · rintro ⟨hdown, hzero⟩
    obtain ⟨-, hconnect, hshake, -⟩ := pipeline_eq_zero.mp hzero
    simp only [phase, hdown, if_false, not_polled hzero, hconnect, hshake]
    split
    · exact Or.inl rfl
    · exact Or.inr rfl

/-! ## The handlers of a connected assembly -/

inductive Verdict (a a' : Assembly σ) (outputs : List Output) : Prop where
  | same (hstate : a'.recover.state = a.recover.state) (hnot : .restarted ∉ outputs)
  | failed (hstate : a'.recover.state = .failed) (hnot : .restarted ∉ outputs)
  | restarted (hstate : a'.recover.state = .failed) (hbefore : a.recover.state ≠ .failed)
      (hpolled : a'.Polled)

theorem Verdict.congr {b b' : Assembly σ} (h : Verdict b b' outputs)
    (hbefore : b.recover.state = a.recover.state)
    (hafter : a'.recover.state = b'.recover.state) (hpolled : b'.Polled → a'.Polled) :
    Verdict a a' outputs := by
  cases h with
  | same hstate hnot => exact .same (hafter.trans (hstate.trans hbefore)) hnot
  | failed hstate hnot => exact .failed (hafter.trans hstate) hnot
  | restarted hstate hne hpoll =>
      exact .restarted (hafter.trans hstate) (hbefore ▸ hne) (hpolled hpoll)

theorem Ends.stays (h : Ends a a' outputs) (hconnected : a.Connected t)
    (hnot : .restarted ∉ outputs) : a'.Connected t := by
  cases h with
  | kept hkeeps _ => exact hkeeps.connected.mpr hconnected
  | down _ _ hrestarted => exact absurd hrestarted hnot

theorem Verdict.next (h : Verdict a a' outputs) (hstay : .restarted ∉ outputs → a'.Connected t)
    (hsound : a.Sound) (hsound' : a'.Sound) (hsettled : a.Settled) (hconnected : a.Connected t) :
    a'.Settled ∧ Phase.Next a.phase a'.phase := by
  have hbefore := hsettled t hconnected
  cases h with
  | same hstate hnot =>
      refine ⟨fun _ _ => hstate ▸ hbefore, ?_⟩
      by_cases hrunning : a.recover.state = .running
      · rw [phase_running hrunning, phase_running (hstate.trans hrunning)]
        exact .stay _
      · rw [hsound.phase_escalated hconnected hrunning,
          hsound'.phase_escalated (hstay hnot) (hstate ▸ hrunning)]
        exact .stay _
  | failed hstate hnot =>
      have hphase := hsound'.phase_escalated (hstay hnot) (by simp [hstate])
      refine ⟨fun _ _ => Or.inr hstate, ?_⟩
      rcases hbefore with hrunning | hfailed
      · rw [phase_running hrunning, hphase]
        exact .escalated
      · rw [hsound.phase_escalated hconnected (by simp [hfailed]), hphase]
        exact .stay _
  | restarted hstate hnot hpolled =>
      rw [phase_running (hbefore.resolve_right hnot), hsound'.phase_polling hpolled]
      exact ⟨fun _ _ => Or.inr hstate, .restarted⟩

theorem connectExecute_next (hsound' : a'.Sound) (h : a.connectExecute env = .ok a') :
    a'.Settled ∧ Phase.Next .connecting a'.phase := by
  have hpending : .connectExecute ∈ a'.jobs ∨ .sshAssemblyConnect ∈ a'.jobs := by
    unfold connectExecute at h
    split at h
    · cases h
    · split at h
      · cases h
        exact Or.inr (List.mem_append_right _ List.mem_cons_self)
      · cases h
        exact Or.inl (List.mem_append_right _ List.mem_cons_self)
  refine ⟨fun t hc => absurd hc (hsound'.not_connected ?_ t), ?_⟩
  · intro hz
    obtain ⟨-, hconnect, hshake, -⟩ := pipeline_eq_zero.mp hz
    exact hpending.elim hconnect hshake
  · rcases hpending with hjob | hjob
    · rw [hsound'.phase_connecting hjob]
      exact .stay _
    · rw [hsound'.phase_handshake hjob]
      exact .connected

variable [Stopwatch σ]

theorem fail_verdict (now : Nat) :
    Verdict a (a.recoverSet now .failed).1 (a.recoverSet now .failed).2 := by
  obtain ⟨r, hstate, -, -, ⟨outs, heq, houts, -⟩ | ⟨-, hne, heq⟩⟩ := a.recoverSet_cases now .failed
  · rw [heq]
    refine .failed hstate ?_
    rcases houts with rfl | rfl <;> simp
  · rw [heq]
    exact .restarted (by simpa using hstate) hne
      (Or.inl (List.mem_append_right _ List.mem_cons_self))

theorem unhealthy_verdict (hconnected : a.Connected t) (h : a.unhealthy env = .ok (a', outputs)) :
    Verdict a a' outputs := by
  simp only [unhealthy, hconnected.1.1, Except.ok.injEq] at h
  have hfail := fail_verdict (a := a.transportFailed t) env.now
  rw [h] at hfail
  exact hfail.congr rfl rfl id

theorem completed_verdict (hconnected : a.Connected t) {callback : SshCallback} {sshRc : Int}
    (h : a.completed callback env sshRc = .ok (a', outputs)) : Verdict a a' outputs := by
  cases callback with
  | resourceAction o =>
      cases h
      exact .same rfl (by simp)
  | healthcheck =>
      simp only [completed, hconnected.1.1] at h
      split at h
      · exact unhealthy_verdict hconnected h
      split at h
      · cases h
        exact .same rfl (by simp)
      · cases h
        exact .same rfl (by simp)

theorem exec_verdict (hconnected : a.Connected t) (h : a.exec s env = .ok (a', outputs)) :
    Verdict a a' outputs := by
  rcases exec_eq_ok h with ⟨state, sshRc, -, rfl, rfl⟩ | ⟨-, rfl, rfl⟩ |
    ⟨sshRc, b, -, hcompleted, rfl⟩
  · exact .same rfl (by simp)
  · exact .same rfl (by simp)
  · have hverdict := completed_verdict (t := t)
      ((Keeps.sshOpDequeue a s).connected.mpr hconnected) hcompleted
    refine hverdict.congr rfl (by simp) ?_
    rintro (hmem | htimer)
    · obtain ⟨scheduled, jobs, -, heq⟩ := b.transportSchedule_frame (a.sshOps s).transport
      exact Or.inl (by simp [heq, hmem])
    · exact Or.inr (by simpa using htimer)

theorem timeout_verdict (hconnected : a.Connected t) (h : a.timeout s env = .ok (a', outputs)) :
    Verdict a a' outputs := by
  have hconnected' : (a.sshTimeoutFlush s).Connected t :=
    (Keeps.flush a (a.sshOps s).transport).connected.mpr hconnected
  have hrecover : (a.sshTimeoutFlush s).recover = a.recover := flush_recover _ _
  have hverdict : Verdict (a.sshTimeoutFlush s) a' outputs := by
    simp only [timeout] at h
    split at h
    · exact unhealthy_verdict hconnected' h
    · have hfail := fail_verdict (a := a.sshTimeoutFlush s) env.now
      rwa [Except.ok.inj h] at hfail
  exact hverdict.congr (congrArg Recover.state hrecover) rfl id

/-! ## The steps of the recovery -/

theorem poll_next (hzero : a.pipeline = 0) (hnone : ∀ t, ¬ a.Live t)
    (hdown : a.recover.state ≠ .running) (hsound' : a'.Sound)
    (h : a.poll env = .ok (a', outputs)) :
    a'.Settled ∧ Phase.Next .polling a'.phase := by
  cases pollStep_of_poll h with
  | unanswered =>
      rw [phase_abandoned hdown hzero fun t hc => hnone t hc.1]
      exact ⟨fun t hc => absurd hc.1 (hnone t), .unanswered⟩
  | active =>
      have hjob : .connectExecute ∈ a.transportConnect.jobs :=
        List.mem_append_right _ List.mem_cons_self
      rw [hsound'.phase_connecting hjob]
      refine ⟨fun t hc => absurd hc ?_, .found⟩
      exact hsound'.not_connected (fun hz => (pipeline_eq_zero.mp hz).2.1 hjob) t
  | pending =>
      have hpolled : ((a.recoverSet env.now .unknown).1.timerAdd .myInstanceStateGet).Polled :=
        Or.inr ⟨_, List.mem_append_right _ List.mem_cons_self, rfl⟩
      rw [hsound'.phase_polling hpolled]
      refine ⟨fun t hc => absurd hc ?_, .stay _⟩
      exact hsound'.not_connected (pipeline_ne_zero_of_polled hpolled) t

theorem up_ok (hconnected : a.Connected t) (env : Env) :
    ∃ a' outputs, a.up env = .ok (a', outputs) ∧ a'.recover.state = .running ∧
      (outputs = [] ∨ outputs = [.stateChanging]) := by
  obtain ⟨r, hstate, -, -, ⟨outputs, heq, houtputs, -⟩ | ⟨hfailed, -⟩⟩ :=
    a.recoverSet_cases env.now .running
  · have hset := (Keeps.setRecover a r).connected.mpr hconnected
    have hup : a.up env =
        .ok ({ a with recover := r }.enqueue t .healthcheck "uptime".toList, outputs) := by
      simp only [up, heq, assemblyHealthcheck, transportExecute_eq hset]
    exact ⟨_, outputs, hup, by rw [enqueue_recover]; exact hstate, houtputs⟩
  · cases hfailed

theorem handshake_next (hzero : a.pipeline = 0) (hlive : a.Live t) (hnot : ¬ a.Connected t)
    (hdown : a.recover.state ≠ .running) (hsound' : a'.Sound)
    (h : a.handshake env = .ok (a', outputs)) :
    a'.Settled ∧ Phase.Next .handshake a'.phase := by
  simp only [handshake, hlive.1] at h
  cases hout : connectOutcome env (a.trans t).sshState with
  | again state =>
      simp only [hout] at h
      cases h
      have hjob : .sshAssemblyConnect ∈ ((a.modifyTrans t
          ({ · with sshState := state })).jobAdd .sshAssemblyConnect).jobs :=
        List.mem_append_right _ List.mem_cons_self
      rw [hsound'.phase_handshake hjob]
      refine ⟨fun t hc => absurd hc ?_, .stay _⟩
      exact hsound'.not_connected (fun hz => (pipeline_eq_zero.mp hz).2.2.1 hjob) t
  | failed =>
      simp only [hout] at h
      cases h
      have hout' : ∀ t', ¬ (a.modifyTrans t
          ({ · with sshState := .sessionStartup })).Connected t' := by
        rintro t' ⟨⟨htransport, -⟩, hstate⟩
        obtain rfl : t' = t := hlive.eq htransport
        simp [modifyTrans] at hstate
      have hphase : (a.modifyTrans t ({ · with sshState := .sessionStartup })).phase =
          .abandoned := phase_abandoned hdown hzero hout'
      rw [hphase]
      exact ⟨fun t' hc => absurd hc (hout' t'), .refused⟩
  | assertion => simp [hout] at h
  | keepalive =>
      simp only [hout] at h
      have hconnected : ((a.sshKeepaliveSend t).modifyTrans t
          ({ · with sshState := .sessionConnected })).Connected t := by
        simpa [Connected, Live, sshKeepaliveSend, modifyTrans, timerAdd] using hlive
      obtain ⟨b, outs, hup, hrunning, -⟩ := up_ok hconnected env
      cases h.symm.trans hup
      rw [phase_running hrunning]
      exact ⟨fun _ _ => Or.inl hrunning, .opened⟩
  | connected => exact absurd ⟨hlive, connectOutcome_connected hout⟩ hnot

/-! ## The reactions -/

theorem reactJob_next (hsettled : a.Settled) (hdialing : a.Dialing) (hsound : a.Sound)
    {job : AssemblyJob} (hjob : job ∈ a.jobs)
    (hreact : (a.jobDel job).reactJob env job = .ok (a', outputs)) :
    a'.Settled ∧ Phase.Next a.phase a'.phase := by
  have hsound' := (reactJob_sound hsound hjob hreact).1
  cases job with
  | myInstanceStateGet =>
      have hpolled : a.Polled := Or.inl hjob
      rw [hsound.phase_polling hpolled]
      exact poll_next (hsound.pipeline.jobDel_zero hjob (by simp))
        (hsound.pipeline.polling (Or.inl hjob))
        (hsound.not_running (pipeline_ne_zero_of_polled hpolled)) hsound' hreact
  | connectExecute =>
      rw [hsound.phase_connecting hjob]
      simp only [reactJob] at hreact
      split at hreact
      · next b hconnect =>
          cases hreact
          exact connectExecute_next hsound' hconnect
      · cases hreact
  | sshAssemblyConnect =>
      have hpending : a.pipeline ≠ 0 := fun h => (pipeline_eq_zero.mp h).2.2.1 hjob
      obtain ⟨t, hlive⟩ := hsound.pipeline.connecting (Or.inr hjob)
      rw [hsound.phase_handshake hjob]
      exact handshake_next (t := t) (hsound.pipeline.jobDel_zero hjob (by simp)) hlive
        (hsound.not_connected hpending t) (hsound.not_running hpending) hsound' hreact
  | assemblySshExec s =>
      have hmem := List.mem_of_mem_head? (hsound.commands.exec_queue hjob).1
      have hconnected := hsound.commands.queue_connected hmem
      have hverdict : Verdict a a' outputs :=
        (exec_verdict (a := a.jobDel _) hconnected hreact).congr rfl rfl id
      have hends := exec_ends (a := a.jobDel _) hdialing.keepalives hconnected hreact
      exact hverdict.next (hends.stays hconnected) hsound hsound' hsettled hconnected

theorem reactTimer_next (hsettled : a.Settled) (hdialing : a.Dialing) (hsound : a.Sound)
    {handle : Nat} {timer : AssemblyTimer} (htimer : (handle, timer) ∈ a.timers)
    (hreact : (a.timerDel handle).reactTimer env timer = .ok (a', outputs)) :
    a'.Settled ∧ Phase.Next a.phase a'.phase := by
  have hsound' := (reactTimer_sound hsound htimer hreact).1
  have hdeleted := Keeps.timerDel a handle
  have howned := hdeleted.keepalives hdialing.keepalives
  cases timer with
  | myInstanceStateGet =>
      have hpolled : a.Polled := Or.inr ⟨_, htimer, rfl⟩
      rw [hsound.phase_polling hpolled]
      exact poll_next (hsound.pipeline.timerDel_zero htimer)
        (hsound.pipeline.polling (Or.inr ⟨handle, htimer⟩))
        (hsound.not_running (pipeline_ne_zero_of_polled hpolled)) hsound' hreact
  | sshTimeout s =>
      obtain ⟨-, t, hmem⟩ := hsound.commands.timeout_queued htimer
      have hconnected := hsound.commands.queue_connected hmem
      have hverdict : Verdict a a' outputs :=
        (timeout_verdict (a := a.timerDel _) hconnected hreact).congr rfl rfl id
      have hends := timeout_ends (a := a.timerDel _) howned hconnected hreact
      exact hverdict.next (hends.stays hconnected) hsound hsound' hsettled hconnected
  | sshKeepaliveSend t =>
      cases hreact
      obtain ⟨hconnected, -⟩ := hdialing.keepalives handle t htimer
      obtain ⟨hconnected', -⟩ := sshKeepaliveSend_owned hdialing.keepalives htimer
      have hverdict : Verdict a ((a.timerDel handle).sshKeepaliveSend t) [] := .same rfl (by simp)
      exact hverdict.next (fun _ => hconnected') hsound hsound' hsettled hconnected
  | assemblyHealthcheck =>
      obtain ⟨t, hconnected, -⟩ := hsound.commands.health_connected htimer
      have hconnected' : (a.timerDel handle).Connected t := hconnected
      simp only [reactTimer, assemblyHealthcheck, transportExecute_eq hconnected'] at hreact
      cases hreact
      have hstate : ((a.timerDel handle).enqueue t .healthcheck "uptime".toList).recover.state =
          a.recover.state := by rw [enqueue_recover]; rfl
      exact (Verdict.same hstate List.not_mem_nil).next
        (fun _ => (Keeps.enqueue _ t _ _).connected.mpr hconnected') hsound hsound' hsettled
        hconnected

end Assembly

end PacemakerCloud

import PacemakerCloud.Daemon.Blocked
import PacemakerCloud.Daemon.Lifecycle
import PacemakerCloud.Daemon.Lookup

/-!
# A queue that is served

While the calls on the channels succeed and no health check fails, each dispatch of
`assembly_ssh_exec` runs the first command to its end and starts the next one.  The queue is empty
after as many dispatches as it has commands, and every operation it carried is confirmed.
-/

namespace PacemakerCloud

open Foundation

/-- The exit status that the command ends with, which may have been read in an earlier dispatch. -/
def SshOp.finalRc (op : SshOp) (env : Env) : Int :=
  if op.execState = .channelFree then op.sshRc else env.exitStatus

/-- Every call on the channel succeeds, and a health check passes; other commands may fail. -/
structure Env.Serves (env : Env) (op : SshOp) : Prop where
  exec : ∀ state, env.exec state = .ok
  passes : op.callback = .healthcheck → op.finalRc env = 0

namespace Assembly

variable {σ : Type}

def completions (callback : SshCallback) (sshRc : Int) : List Output :=
  callback.op?.toList.map (.actionCompleted · sshRc)

variable {a : Assembly σ} {s t : Nat} {rest : List Nat} {env : Env}

theorem actions_eq (a : Assembly σ) :
    a.actions = a.queue.filterMap fun s => (a.sshOps s).callback.op? := by
  unfold actions callbacks queue
  cases a.transport with
  | none => rfl
  | some t => exact List.filterMap_map

theorem execOutcome_serves {op : SshOp} (henv : env.Serves op) :
    execOutcome env op = .complete (op.finalRc env) := by
  unfold execOutcome SshOp.finalRc
  cases op.execState <;> simp [execStages, runStages, henv.exec]

theorem exec_mem_transportSchedule (h : a.transport = some t) :
    ∀ s ∈ a.queue.head?, .assemblySshExec s ∈ (a.transportSchedule t).jobs := by
  intro s hs
  rw [queue_eq h] at hs
  obtain ⟨rest, hq⟩ := List.head?_eq_some_iff.mp hs
  simp [transportSchedule, hq, jobAdd]

theorem transportSchedule_sshOps (a : Assembly σ) (t : Nat) :
    (a.transportSchedule t).sshOps = a.sshOps := by
  obtain ⟨scheduled, jobs, -, heq⟩ := a.transportSchedule_frame t
  rw [heq]
  rfl

theorem healthcheckTimerAdd_queue (a : Assembly σ) (t : Nat) :
    (a.healthcheckTimerAdd t).queue = a.queue :=
  queue_modifyTrans (a := a.timerAdd .assemblyHealthcheck) t rfl

structure Popped (a : Assembly σ) (rest : List Nat) (a' : Assembly σ) : Prop where
  queue : a'.queue = rest
  sshOps : a'.sshOps = a.sshOps
  recover : a'.recover = a.recover
  transport : a'.transport = a.transport

theorem Popped.schedule {b : Assembly σ} (h : Popped a rest b) (t : Nat) :
    Popped a rest (b.transportSchedule t) where
  queue := (queue_transportSchedule b t).trans h.queue
  sshOps := (transportSchedule_sshOps b t).trans h.sshOps
  recover := (transportSchedule_recover b t).trans h.recover
  transport := by
    obtain ⟨scheduled, jobs, -, heq⟩ := b.transportSchedule_frame t
    rw [heq]
    exact h.transport

variable [Stopwatch σ]

theorem completed_serves (env : Env) {b : Assembly σ} (h : Popped a rest b)
    (hconnected : b.Connected t)
    {callback : SshCallback} {sshRc : Int} (hrc : callback = .healthcheck → sshRc = 0) :
    ∃ b', b.completed callback env sshRc = .ok (b', completions callback sshRc) ∧
      Popped a rest b' := by
  cases callback with
  | resourceAction o => exact ⟨b, rfl, h⟩
  | healthcheck =>
      simp only [completed, hrc rfl, ne_eq, not_true, if_false, hconnected.1.1]
      split
      · refine ⟨b.healthcheckTimerAdd t, rfl, ?_⟩
        exact ⟨(healthcheckTimerAdd_queue b t).trans h.queue, h.sshOps, h.recover, h.transport⟩
      · exact ⟨b, rfl, h⟩

theorem exec_complete {b : Assembly σ} {sshRc : Int} {outputs : List Output}
    (hstate : (a.trans (a.sshOps s).transport).sshState = .sessionConnected)
    (hout : execOutcome env (a.sshOps s) = .complete sshRc)
    (hcompleted : (a.sshOpDequeue s).completed (a.sshOps s).callback env sshRc =
      .ok (b, outputs)) :
    a.exec s env = .ok (b.transportSchedule (a.sshOps s).transport, outputs) := by
  simp [exec, hstate, hout, hcompleted]

theorem exec_serves (h : a.Sound) (hjob : .assemblySshExec s ∈ a.jobs)
    (hqueue : a.queue = s :: rest) (henv : env.Serves (a.sshOps s)) :
    ∃ a' sshRc, (a.jobDel (.assemblySshExec s)).exec s env =
        .ok (a', completions (a.sshOps s).callback sshRc) ∧
      Popped a rest a' ∧ ∀ s' ∈ rest.head?, .assemblySshExec s' ∈ a'.jobs := by
  have hhead := (h.commands.exec_queue hjob).1
  have hconnected := h.commands.queue_connected (List.mem_of_mem_head? hhead)
  obtain ⟨-, -, -, hconnected', -, -⟩ := h.dequeue hjob
  have hpopped : Popped a rest ((a.jobDel (.assemblySshExec s)).sshOpDequeue s) := by
    refine ⟨?_, rfl, rfl, rfl⟩
    have htail := queue_dequeue (a := a.jobDel (.assemblySshExec s)) (s := s)
      (t := (a.sshOps s).transport) (by simp [show (a.jobDel _).queue = _ from hqueue])
      hconnected.1.1 rfl
    rw [htail]
    exact congrArg List.tail hqueue
  obtain ⟨b, hcompleted, hb⟩ := completed_serves env hpopped hconnected' henv.passes
  refine ⟨b.transportSchedule (a.sshOps s).transport, (a.sshOps s).finalRc env, ?_,
    hb.schedule _, ?_⟩
  · exact exec_complete (a := a.jobDel (.assemblySshExec s)) hconnected.2
      (execOutcome_serves henv) hcompleted
  · rw [← hb.queue]
    exact exec_mem_transportSchedule (hb.transport.trans hconnected.1.1)

end Assembly

theorem Deployable.Has.assembly? {d : Deployable} {r : ResourceId} (h : d.Has r) :
    (d.assembly? r.assembly).isSome := by
  unfold Has Deployable.resource? at h
  cases hnode : d.assembly? r.assembly with
  | none => simp [hnode] at h
  | some node => rfl

namespace Cape

variable {σ : Type} [Stopwatch σ] {d : Deployable} {env : Env} {c c' : Cape σ} {o : Nat}

theorem resourceActionCompleted_of_has (h : d.Has (c.ops o).target) (env : Env) (ec : Int) :
    ∃ c', c.resourceActionCompleted d env o ec = .ok c' := by
  obtain ⟨node, hnode⟩ := Option.isSome_iff_exists.mp h.assembly?
  obtain ⟨r, hr⟩ := Option.isSome_iff_exists.mp h
  replace hnode : d.assembly? (c.ops o).hostname = some node := hnode
  replace hr : d.resource? (c.ops o).hostname (c.ops o).rname = some r := hr
  have hrecord : ∃ c₁, (c.timesExecutedAdd o).opHistoryRecord env (some r) o ec = .ok c₁ := by
    unfold opHistoryRecord
    split <;> exact ⟨_, rfl⟩
  obtain ⟨c₁, hrecord⟩ := hrecord
  have hset : ∃ c₂, (c₁.confirmFirst o ec).resourceStateSet env (some r) (c.ops o) ec =
      .ok c₂ := by
    unfold resourceStateSet
    split <;> exact ⟨_, rfl⟩
  obtain ⟨c₂, hset⟩ := hset
  have hrelease : ∀ c : Cape σ, ∃ c₃, c.resourceActionRelease (some r) o ec = .ok c₃ := by
    intro c
    unfold resourceActionRelease
    split
    · split <;> exact ⟨_, rfl⟩
    · exact ⟨_, rfl⟩
  obtain ⟨c₃, hrelease⟩ := hrelease (if (c.ops o).Unexpected ec then c₂.scheduleProcessing else c₂)
  exact ⟨c₃, by simp [resourceActionCompleted, hnode, hr, hrecord, hset, hrelease, ok_bind]⟩

theorem resourceActionCompletion_of_has (h : d.Has (c.ops o).target) (env : Env)
    (sshRc : Int) : ∃ c', c.resourceActionCompletion d env o sshRc = .ok c' := by
  obtain ⟨c', hc'⟩ := resourceActionCompleted_of_has h env ((c.ops o).exitcode sshRc)
  exact ⟨c'.peResourceUnref o, by simp [resourceActionCompletion, hc', ok_bind, pure, Except.pure]⟩

theorem resourceActionCompletion_inRunGraph {sshRc : Int}
    (h : c.resourceActionCompletion d env o sshRc = .ok c') :
    c'.pe.inRunGraph = c.pe.inRunGraph := by
  obtain ⟨mid, hmid, heq⟩ := bind_eq_ok.mp h
  obtain ⟨c₁, hc₁, hend⟩ := resourceActionCompleted_ok hmid
  have hpe : mid.pe.inRunGraph = c.pe.inRunGraph := by
    have hexecuted := (c.execute_jobs o ((c.ops o).exitcode sshRc)).2
    rcases hend with ⟨-, hc⟩ | ⟨r, -, -, hc⟩ <;> rw [hc]
    · rw [(Unwinds.peResourceUnref c₁ o).pe, hc₁.pe, hexecuted]
    · rw [← hexecuted, ← hc₁.pe]
      rfl
  rw [← Except.ok.inj heq, (Unwinds.peResourceUnref mid o).pe, hpe]

end Cape

namespace World

variable {σ : Type} [Stopwatch σ] {d : Deployable} {w w' : World σ} {a : CString} {env : Env}

structure Serviceable (d : Deployable) (w : World σ) : Prop extends w.Tracked where
  found : w.ledger.Found d

theorem reaches_serviceable {errno : ResourceId → Int} {answers : CString → Env}
    {events : List Event} (h : Reaches d errno answers events w)
    (halong : Along (World.step d) (FindsResource d) (load d errno answers : World σ) events) :
    w.Serviceable d := by
  refine { reaches_tracked h with found := ?_ }
  have hinit : (load d errno answers : World σ).ledger.Found d := by
    obtain ⟨cloud, hcape⟩ := load_cape (σ := σ) d errno answers
    rintro o (⟨a, ha⟩ | ⟨x, hx, -⟩)
    · simp [ledger, load_actions] at ha
    · simp [ledger, hcape, empty] at hx
  have hkept : Kept (Ledger.Found d) w := by
    refine run_invariant (I := Kept (Ledger.Found d)) ?_ (.load hinit) halong h
    exact fun hkept hfinds hstep => hkept.step (fun hchange =>
      hchange.found hkept.fact hkept.accounted hfinds) hstep
  exact hkept.fact

structure Dispatched (d : Deployable) (a : CString) (s : Nat) (rest : List Nat) (w w' : World σ) :
    Prop where
  serviceable : w'.Serviceable d
  outside : w'.cape.pe.inRunGraph = none
  popped : Assembly.Popped (w.assemblies a) rest (w'.assemblies a)
  next : ∀ s' ∈ rest.head?, .assemblySshExec s' ∈ (w'.assemblies a).jobs
  others : ∀ b ≠ a, w'.assemblies b = w.assemblies b
  confirms : ∀ o ∈ ((w.assemblies a).sshOps s).callback.op?, w'.cape.Confirmed o
  confirmed : ∀ o, w.cape.Confirmed o → w'.cape.Confirmed o

/-- The completion function of a served command confirms the operation that it carries. -/
theorem Serviceable.completions_ok {s : Nat} {rest : List Nat} (h : w.Serviceable d)
    (hgraph : w.cape.pe.inRunGraph = none) (hqueue : (w.assemblies a).queue = s :: rest)
    (sshRc : Int) :
    ∃ c, (Assembly.completions ((w.assemblies a).sshOps s).callback sshRc).foldlM
        (Cape.receive d a env) w.cape = .ok c ∧ c.pe.inRunGraph = none ∧
      ∀ o ∈ ((w.assemblies a).sshOps s).callback.op?, c.Confirmed o := by
  cases hcallback : ((w.assemblies a).sshOps s).callback with
  | healthcheck => exact ⟨w.cape, rfl, hgraph, by simp [SshCallback.op?]⟩
  | resourceAction o =>
      have hmem : o ∈ w.actions a := by
        simp [actions, Assembly.actions_eq, hqueue, hcallback, SshCallback.op?]
      obtain ⟨c, hc⟩ := Cape.resourceActionCompletion_of_has (h.found o (Or.inl ⟨a, hmem⟩))
        env sshRc
      replace hc : w.cape.resourceActionCompletion d env o sshRc = .ok c := hc
      refine ⟨c, ?_, (Cape.resourceActionCompletion_inRunGraph hc).trans hgraph, ?_⟩
      · simpa [Assembly.completions, SshCallback.op?, Cape.receive] using hc
      · intro x hx
        obtain rfl : o = x := by simpa [SshCallback.op?] using hx
        obtain ⟨mid, hmid, heq⟩ := bind_eq_ok.mp hc
        rw [← Except.ok.inj heq]
        refine (Cape.confirmed_of_pe (Cape.Unwinds.peResourceUnref mid o).pe).mpr ?_
        exact Ledger.confirmed_completed
          (h.accounted.confirmed_execute (h.accounted.queued hmem).1 _) hmid

theorem Serviceable.serve {s : Nat} {rest : List Nat} (h : w.Serviceable d)
    (hgraph : w.cape.pe.inRunGraph = none) (hqueue : (w.assemblies a).queue = s :: rest)
    (hjob : .assemblySshExec s ∈ (w.assemblies a).jobs)
    (henv : env.Serves ((w.assemblies a).sshOps s)) :
    ∃ w', World.step d w (.job a (.assemblySshExec s) env) = .ok w' ∧
      Dispatched d a s rest w w' := by
  obtain ⟨asm, sshRc, hreact, hpopped, hnext⟩ :=
    Assembly.exec_serves (h.sound a) hjob hqueue henv
  obtain ⟨c, hcalls, hinside, hconfirms⟩ := h.completions_ok hgraph hqueue sshRc
  have hstep := step_job hgraph hjob hreact hcalls
  have hchange := step_change h.sound hstep
  have hfinds : FindsResource d w (.job a (.assemblySshExec s) env) := trivial
  refine ⟨_, hstep, { h.toTracked.step hstep with
    found := hchange.found h.found h.accounted hfinds }, hinside, ?_, ?_, ?_, hconfirms, ?_⟩
  · simpa only [Function.update_self] using hpopped
  · simpa only [Function.update_self] using hnext
  · exact fun b hb => Function.update_of_ne hb _ _
  · exact fun o ho => (Ledger.moves_change h.accounted hchange).confirmed ho

theorem Serviceable.drain {queue : List Nat} {envs : Nat → Env} (h : w.Serviceable d)
    (hgraph : w.cape.pe.inRunGraph = none) (hqueue : (w.assemblies a).queue = queue)
    (hnext : ∀ s ∈ queue.head?, .assemblySshExec s ∈ (w.assemblies a).jobs)
    (henv : ∀ s ∈ queue, (envs s).Serves ((w.assemblies a).sshOps s)) :
    ∃ w', run (World.step d) w (queue.map fun s => .job a (.assemblySshExec s) (envs s)) =
        .ok w' ∧
      Assembly.Popped (w.assemblies a) [] (w'.assemblies a) ∧
      (∀ o ∈ w.actions a, w'.cape.Confirmed o) ∧
      (∀ b ≠ a, w'.assemblies b = w.assemblies b) ∧
      ∀ o, w.cape.Confirmed o → w'.cape.Confirmed o := by
  induction queue generalizing w with
  | nil =>
      refine ⟨w, rfl, ⟨hqueue, rfl, rfl, rfl⟩, fun o ho => ?_, fun _ _ => rfl, fun _ => id⟩
      simp [actions, Assembly.actions_eq, hqueue] at ho
  | cons s rest ih =>
      obtain ⟨w₁, hstep, hserved⟩ :=
        h.serve hgraph hqueue (hnext s rfl) (henv s List.mem_cons_self)
      have henv' : ∀ s' ∈ rest, (envs s').Serves ((w₁.assemblies a).sshOps s') := by
        rw [hserved.popped.sshOps]
        exact fun s' hs' => henv s' (List.mem_cons_of_mem s hs')
      obtain ⟨w', hrun, hpopped, hconfirms, hothers, hconfirmed⟩ := ih hserved.serviceable
        hserved.outside hserved.popped.queue hserved.next henv'
      refine ⟨w', ?_, ?_, fun o ho => ?_, fun b hb => ?_, fun o ho => ?_⟩
      · rw [List.map_cons, run, hstep]
        exact hrun
      · exact ⟨hpopped.queue, hpopped.sshOps.trans hserved.popped.sshOps,
          hpopped.recover.trans hserved.popped.recover,
          hpopped.transport.trans hserved.popped.transport⟩
      · rw [actions, Assembly.actions_eq, hqueue, List.mem_filterMap] at ho
        obtain ⟨s', hs', hop⟩ := ho
        rcases List.mem_cons.mp hs' with rfl | hrest
        · exact hconfirmed o (hserved.confirms o hop)
        · refine hconfirms o ?_
          rw [actions, Assembly.actions_eq, hserved.popped.queue, hserved.popped.sshOps]
          exact List.mem_filterMap.mpr ⟨s', hrest, hop⟩
      · exact (hothers b hb).trans (hserved.others b hb)
      · exact hconfirmed o (hserved.confirmed o ho)

/--
While the calls on its channels succeed and its health checks pass, the commands of a transport
run in their order, one in each dispatch, and every operation they carry is confirmed, whatever
its command exits with.  The state of the assembly and all other assemblies stay as they are.
-/
theorem queue_drains {errno : ResourceId → Int} {answers : CString → Env} {events : List Event}
    (h : Reaches d errno answers events w)
    (halong : Along (World.step d) (FindsResource d) (load d errno answers : World σ) events)
    (hgraph : w.cape.pe.inRunGraph = none) (hserved : ¬ (w.assemblies a).Idle) {envs : Nat → Env}
    (henv : ∀ s ∈ (w.assemblies a).queue, (envs s).Serves ((w.assemblies a).sshOps s)) :
    ∃ w', run (World.step d) w
        ((w.assemblies a).queue.map fun s => .job a (.assemblySshExec s) (envs s)) = .ok w' ∧
      (w'.assemblies a).queue = [] ∧ (w'.assemblies a).recover = (w.assemblies a).recover ∧
      (∀ o ∈ w.actions a, w'.cape.Confirmed o) ∧ ∀ b ≠ a, w'.assemblies b = w.assemblies b := by
  have hserviceable := reaches_serviceable h halong
  have hnext : ∀ s ∈ (w.assemblies a).queue.head?,
      .assemblySshExec s ∈ (w.assemblies a).jobs := by
    intro s hs
    obtain ⟨s', hjob⟩ : ∃ s', .assemblySshExec s' ∈ (w.assemblies a).jobs := by
      by_contra hnone
      exact hserved fun s' hjob => hnone ⟨s', hjob⟩
    have hhead := ((hserviceable.sound a).commands.exec_queue hjob).1
    have hconnected := (hserviceable.sound a).commands.queue_connected
      (List.mem_of_mem_head? hhead)
    rw [← Assembly.queue_eq hconnected.1.1, hs] at hhead
    rwa [Option.some.inj hhead]
  obtain ⟨w', hrun, hpopped, hconfirms, hothers, -⟩ :=
    hserviceable.drain hgraph rfl hnext henv
  exact ⟨w', hrun, hpopped.queue, hpopped.recover, hconfirms, hothers⟩

/-- The health check passes, and the probe behind it exits with seven. -/
theorem queue_drains_probing :
    ∃ w w' : World Ring, BarReaches probing w ∧ 0 ∈ w.actions bar ∧
      run (World.step barDeployable) w [.job bar (.assemblySshExec 0) workingEnv,
        .job bar (.assemblySshExec 1) { workingEnv with exitStatus := 7 }] = .ok w' ∧
      w'.cape.Confirmed 0 := by
  obtain ⟨w, hreach, hgraph, hjobs, hstate, hcallback, hqueue, hcarried⟩ :
      ∃ w : World Ring, BarReaches probing w ∧ w.cape.pe.inRunGraph = none ∧
        (w.assemblies bar).jobs = [.assemblySshExec 0] ∧
        ((w.assemblies bar).sshOps 0).execState = .channelOpen ∧
        ((w.assemblies bar).sshOps 1).callback = .resourceAction 0 ∧
        (w.assemblies bar).queue = [0, 1] ∧ 0 ∈ w.actions bar :=
    exists_reaches (by decide +kernel)
  have hserved : ¬ (w.assemblies bar).Idle := fun hidle => hidle 0 (by simp [hjobs])
  let envs : Nat → Env := fun s => if s = 0 then workingEnv else { workingEnv with exitStatus := 7 }
  have henv : ∀ s ∈ (w.assemblies bar).queue,
      (envs s).Serves ((w.assemblies bar).sshOps s) := by
    rw [hqueue]
    intro s hs
    rcases List.mem_pair.mp hs with rfl | rfl
    · exact ⟨fun _ => rfl, fun _ => by simp [SshOp.finalRc, hstate, envs, workingEnv]⟩
    · exact ⟨fun _ => rfl, fun h => by simp [hcallback] at h⟩
  obtain ⟨w', hrun, -, -, hconfirms, -⟩ :=
    queue_drains hreach (by decide +kernel) hgraph hserved henv
  rw [hqueue] at hrun
  exact ⟨w, w', hreach, hcarried, hrun, hconfirms 0 hcarried⟩

end World

end PacemakerCloud

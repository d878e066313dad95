import PacemakerCloud.Assembly.Reaction
import PacemakerCloud.Foundation.Serial

/-!
# The commands of an assembly are served in turn

The queue of the current transport is a serial server: `assembly_ssh_exec` runs the first
command through the states of its channel, `ssh_timeout` and `transport_disconnect` drop
the whole queue.  Every handler does what such a server may do.
-/

namespace PacemakerCloud

open Foundation

/-- `libssh2_channel_exec` has succeeded for a command in this state. -/
def SshExecState.Execed : SshExecState → Bool
  | .channelOpen | .channelExec => false
  | _ => true

namespace Assembly

variable {σ : Type}

/-! ## The states that one dispatch passes -/

def stagesDone (env : Env) (stages : List SshExecState) : List SshExecState :=
  stages.takeWhile (env.exec · = .ok)

def execMarks (a : Assembly σ) (s : Nat) (env : Env) : List Mark :=
  let done := stagesDone env (execStages (a.sshOps s).execState)
  (if .channelExec ∈ done then [.executed s] else []) ++
    ((if .channelFree ∈ done then [.freed s] else []) ++
      match execOutcome env (a.sshOps s) with
      -- the one outcome on which the handler calls `ssh_op_complete`
      | .complete _ => [.completed s]
      | .again _ _ | .openFailed | .assertion => [])

theorem runStages_again {env : Env} {stages : List SshExecState} {rc rc' : Int}
    {state : SshExecState} (h : runStages env stages rc = .again state rc') :
    ∃ rest, stages = stagesDone env stages ++ state :: rest := by
  induction stages generalizing rc with
  | nil => cases h
  | cons first stages ih =>
      simp only [runStages] at h
      cases hfirst : env.exec first with
      | eagain =>
          simp only [hfirst] at h
          cases h
          exact ⟨stages, by simp [stagesDone, hfirst]⟩
      | error =>
          simp only [hfirst] at h
          split at h <;> cases h
      | ok =>
          simp only [hfirst] at h
          obtain ⟨rest, hrest⟩ := ih h
          refine ⟨rest, ?_⟩
          simpa [stagesDone, hfirst] using hrest

theorem runStages_complete {env : Env} {stages : List SshExecState} {rc rc' : Int}
    (h : runStages env stages rc = .complete rc') : stagesDone env stages = stages := by
  induction stages generalizing rc with
  | nil => rfl
  | cons first stages ih =>
      simp only [runStages] at h
      cases hfirst : env.exec first with
      | eagain => simp [hfirst] at h
      | error =>
          simp only [hfirst] at h
          split at h <;> cases h
      | ok =>
          simp only [hfirst] at h
          simpa [stagesDone, hfirst] using ih h

theorem runStages_openFailed {env : Env} {stages : List SshExecState} {rc : Int}
    (h : runStages env stages rc = .openFailed) :
    ∃ rest, stages = stagesDone env stages ++ .channelOpen :: rest := by
  induction stages generalizing rc with
  | nil => cases h
  | cons first stages ih =>
      simp only [runStages] at h
      cases hfirst : env.exec first with
      | eagain => simp [hfirst] at h
      | error =>
          simp only [hfirst] at h
          split at h
          · next hopen =>
              subst hopen
              exact ⟨stages, by simp [stagesDone, hfirst]⟩
          · cases h
      | ok =>
          simp only [hfirst] at h
          obtain ⟨rest, hrest⟩ := ih h
          refine ⟨rest, ?_⟩
          simpa [stagesDone, hfirst] using hrest

theorem channelExec_mem_iff {state state' : SshExecState} {done rest : List SshExecState}
    (h : execStages state = done ++ state' :: rest) :
    (.channelExec ∈ done ↔ state.Execed = false ∧ state'.Execed = true) ∧
      .channelFree ∉ done ∧ (state.Execed = true → state'.Execed = true) := by
  have hsplit : ∀ k < (execStages state).length,
      (.channelExec ∈ (execStages state).take k ↔
        state.Execed = false ∧ ((execStages state).drop k).head?.all (·.Execed) = true) ∧
      .channelFree ∉ (execStages state).take k ∧
      (state.Execed = true → ((execStages state).drop k).head?.all (·.Execed) = true) := by
    cases state <;> decide
  have hlen : done.length < (execStages state).length := by
    rw [h]
    simp
  simpa [h] using hsplit done.length hlen

theorem channelExec_mem_execStages (state : SshExecState) :
    (.channelExec ∈ execStages state ↔ state.Execed = false) ∧
      .channelFree ∈ execStages state := by
  cases state <;> decide

/-! ## The server -/

def queue (a : Assembly σ) : List Nat :=
  match a.transport with
  | none => []
  | some t => (a.trans t).queue

def server (a : Assembly σ) : Server where
  queue := a.queue
  count := a.sshCount
  running := a.queue.head?.any fun s => (a.sshOps s).execState.Execed

/-- Only the first command may have been executed. -/
def Fresh (a : Assembly σ) : Prop :=
  ∀ s ∈ a.queue.tail, (a.sshOps s).execState.Execed = false

def Turn (a a' : Assembly σ) (marks : List Mark) : Prop :=
  a.Fresh → Serves a.server marks a'.server ∧ a'.Fresh

variable {a a' a'' : Assembly σ} {marks marks' : List Mark} {s t : Nat} {env : Env}
  {outputs : List Output}

theorem queue_eq (h : a.transport = some t) : a.queue = (a.trans t).queue := by
  simp [queue, h]

theorem Commands.queue_of_not_connected (h : a.Commands) (hnot : ∀ t, ¬ a.Connected t) :
    a.queue = [] := by
  unfold queue
  cases ht : a.transport with
  | none => rfl
  | some t =>
      exact List.eq_nil_iff_forall_not_mem.mpr fun s hs => hnot t (h.queue_connected hs)

theorem queue_modifyTrans (t : Nat) {f : TransSsh → TransSsh}
    (hf : (f (a.trans t)).queue = (a.trans t).queue) : (a.modifyTrans t f).queue = a.queue := by
  unfold queue modifyTrans
  cases a.transport with
  | none => rfl
  | some t' => by_cases h : t' = t <;> simp [h, hf]

@[simp] theorem queue_transportSchedule (a : Assembly σ) (t : Nat) :
    (a.transportSchedule t).queue = a.queue := by
  obtain ⟨scheduled, jobs, -, heq⟩ := a.transportSchedule_frame t
  rw [heq]
  exact queue_modifyTrans (a := a) t (f := ({ · with scheduled := scheduled })) rfl

theorem queue_dequeue (hs : a.queue.head? = some s) (htransport : a.transport = some t)
    (ht : (a.sshOps s).transport = t) : (a.sshOpDequeue s).queue = a.queue.tail := by
  obtain ⟨rest, hq⟩ := List.head?_eq_some_iff.mp hs
  have hsame : (a.sshOpDequeue s).transport = some t := htransport
  rw [queue_eq htransport] at hq
  rw [queue_eq hsame, queue_eq htransport]
  simp [sshOpDequeue, modifyTrans, timerDel, ht, hq]

namespace Turn

theorem trans (h : Turn a a' marks) (h' : Turn a' a'' marks') :
    Turn a a'' (marks ++ marks') := by
  intro hfresh
  obtain ⟨hserves, hfresh'⟩ := h hfresh
  obtain ⟨hserves', hfresh''⟩ := h' hfresh'
  exact ⟨hserves.trans hserves', hfresh''⟩

theorem same (hqueue : a'.queue = a.queue) (hcount : a'.sshCount = a.sshCount)
    (hops : a'.sshOps = a.sshOps) : Turn a a' [] := by
  intro hfresh
  have hserver : a'.server = a.server := by simp only [server, hqueue, hcount, hops]
  refine ⟨hserver ▸ Serves.refl _, ?_⟩
  simpa only [Fresh, hqueue, hops] using hfresh

theorem modifyTrans (a : Assembly σ) (t : Nat) {f : TransSsh → TransSsh}
    (hf : (f (a.trans t)).queue = (a.trans t).queue) : Turn a (a.modifyTrans t f) [] :=
  same (queue_modifyTrans t hf) rfl rfl

theorem jobAdd (a : Assembly σ) (job : AssemblyJob) : Turn a (a.jobAdd job) [] :=
  same rfl rfl rfl

theorem schedule (a : Assembly σ) (t : Nat) : Turn a (a.transportSchedule t) [] := by
  obtain ⟨scheduled, jobs, -, heq⟩ := a.transportSchedule_frame t
  exact same (queue_transportSchedule a t) (by rw [heq]; rfl) (by rw [heq]; rfl)

theorem drop (hqueue : a'.queue = []) (hcount : a'.sshCount = a.sshCount) :
    Turn a a' [.dropped a.queue] := by
  intro _
  refine ⟨?_, by simp [Fresh, hqueue]⟩
  have hserver : a'.server = ⟨[], a.sshCount, false⟩ := by simp [server, hqueue, hcount]
  rw [hserver]
  exact .drop

theorem expire (hs : s ∈ a.queue) (hqueue : a'.queue = []) (hcount : a'.sshCount = a.sshCount) :
    Turn a a' [.dropped a.queue, .expired s] := by
  intro _
  refine ⟨?_, by simp [Fresh, hqueue]⟩
  have hserver : a'.server = ⟨[], a.sshCount, false⟩ := by simp [server, hqueue, hcount]
  rw [hserver]
  exact .expire hs

theorem enqueue (h : a.Commands) (hlive : a.Live t) (callback : SshCallback)
    (command : CString) : Turn a (a.enqueue t callback command) [] := by
  have hadded : Turn a (a.addCommand t callback command) [] := by
    intro hfresh
    have hnew : a.sshCount ∉ a.queue := fun hmem => by
      have hlt := (h.queue_op (queue_eq hlive.1 ▸ hmem)).1
      omega
    have hqueue : (a.addCommand t callback command).queue = a.queue ++ [a.sshCount] := by
      have hsame : (a.addCommand t callback command).transport = some t := hlive.1
      rw [queue_eq hsame, queue_eq hlive.1]
      simp [addCommand, Assembly.modifyTrans]
    have hops : ∀ s ∈ a.queue, (a.addCommand t callback command).sshOps s = a.sshOps s := by
      intro s hs
      have hne : s ≠ a.sshCount := fun heq => hnew (heq ▸ hs)
      simp [addCommand, hne]
    have hopen : ((a.addCommand t callback command).sshOps a.sshCount).execState =
        .channelOpen := by
      simp [addCommand]
    constructor
    · have hserver : (a.addCommand t callback command).server =
          ⟨a.queue ++ [a.sshCount], a.sshCount + 1, a.server.running⟩ := by
        simp only [server, hqueue]
        cases hq : a.queue with
        | nil => simp [addCommand, SshExecState.Execed]
        | cons first rest =>
            have hfirst := hops first (by simp [hq])
            simp only [List.cons_append, List.head?_cons, Option.any_some, hfirst]
            rfl
      rw [hserver]
      exact .enqueue
    · intro s hs
      rw [hqueue] at hs
      cases hq : a.queue with
      | nil => simp [hq] at hs
      | cons first rest =>
          rw [hq, List.cons_append, List.tail_cons, List.mem_append] at hs
          rcases hs with hold | hlast
          · rw [hops s (by simp [hq, hold])]
            exact hfresh s (by simpa [hq] using hold)
          · rw [List.mem_singleton.mp hlast, hopen]
            rfl
  unfold Assembly.enqueue
  split
  · exact hadded
  · exact hadded.trans (schedule _ t)

theorem again (hs : a.queue.head? = some s) (hnodup : a.queue.Nodup)
    {state : SshExecState} (sshRc : Int)
    (hmono : (a.sshOps s).execState.Execed = true → state.Execed = true) :
    Turn a (a.execAgain s state sshRc)
      (if (a.sshOps s).execState.Execed = false ∧ state.Execed = true then [.executed s]
        else []) := by
  intro hfresh
  obtain ⟨rest, hq⟩ := List.head?_eq_some_iff.mp hs
  have hqueue : (a.execAgain s state sshRc).queue = a.queue := rfl
  have hops : ∀ x, ((a.execAgain s state sshRc).sshOps x).execState =
      if x = s then state else (a.sshOps x).execState := by
    intro x
    by_cases hx : x = s <;> simp [execAgain, modifySshOp, Assembly.jobAdd, hx]
  have hserver : a.server = ⟨s :: rest, a.sshCount, (a.sshOps s).execState.Execed⟩ := by
    simp [server, hq]
  have hserver' : (a.execAgain s state sshRc).server =
      ⟨s :: rest, a.sshCount, state.Execed⟩ := by
    simp only [server, hqueue, hq, List.head?_cons, Option.any_some, hops, if_true]
    rfl
  rw [hserver, hserver']
  constructor
  · cases hbefore : (a.sshOps s).execState.Execed with
    | true =>
        rw [hmono hbefore]
        exact .refl _
    | false =>
        cases hafter : state.Execed with
        | true => exact .execute
        | false => exact .refl _
  · intro x hx
    rw [hqueue, hq, List.tail_cons] at hx
    have hne : x ≠ s := fun heq => by
      rw [hq] at hnodup
      exact (List.nodup_cons.mp hnodup).1 (heq ▸ hx)
    rw [hops, if_neg hne]
    exact hfresh x (by simpa [hq] using hx)

theorem dequeue (hs : a.queue.head? = some s) (htransport : a.transport = some t)
    (ht : (a.sshOps s).transport = t) :
    Turn a (a.sshOpDequeue s)
      ((if (a.sshOps s).execState.Execed = false then [.executed s] else []) ++
        [.freed s, .completed s]) := by
  intro hfresh
  obtain ⟨rest, hq⟩ := List.head?_eq_some_iff.mp hs
  have hqueue : (a.sshOpDequeue s).queue = rest := by
    rw [queue_dequeue hs htransport ht, hq, List.tail_cons]
  have hops : (a.sshOpDequeue s).sshOps = a.sshOps := rfl
  have hnext : ∀ x ∈ rest, (a.sshOps x).execState.Execed = false := fun x hx =>
    hfresh x (by simpa [hq] using hx)
  have hserver : a.server = ⟨s :: rest, a.sshCount, (a.sshOps s).execState.Execed⟩ := by
    simp [server, hq]
  have hserver' : (a.sshOpDequeue s).server = ⟨rest, a.sshCount, false⟩ := by
    simp only [server, hqueue, hops, Server.mk.injEq, true_and]
    refine ⟨rfl, ?_⟩
    cases rest with
    | nil => rfl
    | cons next rest => simpa using hnext next List.mem_cons_self
  rw [hserver, hserver']
  constructor
  · cases hbefore : (a.sshOps s).execState.Execed with
    | true => exact .finish
    | false => exact Serves.execute.trans .finish
  · intro x hx
    rw [hqueue] at hx
    exact hnext x (List.mem_of_mem_tail hx)

end Turn

/-! ## The handlers -/

def jobMarks (a : Assembly σ) (env : Env) (outputs : List Output) : AssemblyJob → List Mark
  | .assemblySshExec s =>
      a.execMarks s env ++ if .restarted ∈ outputs then [.dropped a.queue.tail] else []
  | .myInstanceStateGet | .connectExecute | .sshAssemblyConnect => []

def timerMarks (a : Assembly σ) : AssemblyTimer → List Mark
  -- `ssh_timeout` ends with the timeout function of its command, whichever it is
  | .sshTimeout s => [.dropped a.queue, .expired s]
  | .myInstanceStateGet | .sshKeepaliveSend _ | .assemblyHealthcheck => []

theorem connectExecute_turn (h : a.connectExecute env = .ok a') : Turn a a' [] := by
  unfold connectExecute at h
  split at h
  · cases h
  · next t ht =>
      split at h
      · cases h
        exact (Turn.modifyTrans a t rfl).trans (.jobAdd _ _)
      · cases h
        exact .same rfl rfl rfl

theorem sshKeepaliveSend_turn (a : Assembly σ) (t : Nat) :
    Turn a (a.sshKeepaliveSend t) [] := by
  have harmed : Turn a (a.timerAdd (.sshKeepaliveSend t)) [] := .same rfl rfl rfl
  exact harmed.trans (.modifyTrans _ t rfl)

theorem assemblyHealthcheck_turn (h : a.Commands) (hconnected : a.Connected t)
    (hcheck : a.assemblyHealthcheck = .ok a') : Turn a a' [] := by
  rw [assemblyHealthcheck, transportExecute_eq hconnected] at hcheck
  cases hcheck
  exact .enqueue h hconnected.1 _ _

theorem restart_queue (hconnected : a.Connected t) :
    a.restart.queue = [] ∧ a.restart.sshCount = a.sshCount ∧ a.restart.sshOps = a.sshOps := by
  obtain ⟨jobs, timers, scheduled, -, -, heq⟩ := transportDisconnect_frame hconnected
  have htransport : a.restart.transport = some t := by
    rw [restart, heq]
    exact hconnected.1.1
  refine ⟨?_, ?_, ?_⟩
  · rw [queue_eq htransport, restart, heq]
    simp [jobAdd, modifyTrans]
  · rw [restart, heq]
    rfl
  · rw [restart, heq]
    rfl

variable [Stopwatch σ]

theorem recoverSet_turn (hconnected : a.Connected t) (now : Nat) (state : RecoverState) :
    Turn a (a.recoverSet now state).1
      (if .restarted ∈ (a.recoverSet now state).2 then [.dropped a.queue] else []) := by
  obtain ⟨r, -, -, -, ⟨outs, heq, houts, -⟩ | ⟨-, -, heq⟩⟩ := a.recoverSet_cases now state
  · have hnone : .restarted ∉ outs := by rcases houts with rfl | rfl <;> simp
    rw [heq, if_neg hnone]
    exact .same rfl rfl rfl
  · obtain ⟨hqueue, hcount, -⟩ :=
      restart_queue (a := { a with recover := r }) (t := t) hconnected
    rw [heq, if_pos (by simp)]
    exact .drop hqueue hcount

theorem poll_turn (hcommands : a.Commands) (hnone : ∀ t, ¬ a.Live t)
    (h : a.poll env = .ok (a', outputs)) : Turn a a' [] := by
  cases pollStep_of_poll h with
  | unanswered => exact .same rfl rfl rfl
  | active =>
      have hempty := hcommands.queue_of_not_connected fun t hc => hnone t hc.1
      refine .same ?_ rfl rfl
      rw [hempty]
      simp [transportConnect, queue, jobAdd]
  | pending =>
      obtain ⟨r, -, -, -, ⟨outs, heq, -, -⟩ | ⟨hfailed, -⟩⟩ :=
        a.recoverSet_cases env.now .unknown
      · rw [heq]
        exact .same rfl rfl rfl
      · cases hfailed

theorem up_turn (hcommands : a.Commands) (hconnected : a.Connected t)
    (h : a.up env = .ok (a', outputs)) : Turn a a' [] := by
  obtain ⟨r, -, -, -, ⟨outs, heq, -, -⟩ | ⟨hfailed, -⟩⟩ :=
    a.recoverSet_cases env.now .running
  · simp only [up, heq] at h
    split at h
    · next b hcheck =>
        cases h
        have hset : Turn a { a with recover := r } [] := .same rfl rfl rfl
        exact hset.trans (assemblyHealthcheck_turn (hcommands.of_recover r) (t := t)
          hconnected hcheck)
    · cases h
  · cases hfailed

theorem handshake_turn (hcommands : a.Commands) (hlive : a.Live t) (hnot : ¬ a.Connected t)
    (h : a.handshake env = .ok (a', outputs)) : Turn a a' [] := by
  simp only [handshake, hlive.1] at h
  cases hout : connectOutcome env (a.trans t).sshState with
  | again state =>
      simp only [hout] at h
      cases h
      exact (Turn.modifyTrans a t rfl).trans (.jobAdd _ _)
  | failed =>
      simp only [hout] at h
      cases h
      exact .modifyTrans a t rfl
  | assertion => simp [hout] at h
  | keepalive =>
      simp only [hout] at h
      have hnot' : ¬ (a.sshKeepaliveSend t).Connected t := by
        simpa [Connected, Live, sshKeepaliveSend, modifyTrans, timerAdd] using hnot
      have hconnected : ((a.sshKeepaliveSend t).modifyTrans t
          ({ · with sshState := .sessionConnected })).Connected t := by
        simpa [Connected, Live, sshKeepaliveSend, modifyTrans, timerAdd] using hlive
      have hset : Turn (a.sshKeepaliveSend t) ((a.sshKeepaliveSend t).modifyTrans t
          ({ · with sshState := .sessionConnected })) [] :=
        .modifyTrans _ t rfl
      exact ((sshKeepaliveSend_turn a t).trans hset).trans
        (up_turn ((hcommands.sshKeepaliveSend t).setSshState hnot' _) hconnected h)
  | connected => exact absurd ⟨hlive, connectOutcome_connected hout⟩ hnot

theorem completed_turn {callback : SshCallback} {sshRc : Int} (hconnected : a.Connected t)
    (h : a.completed callback env sshRc = .ok (a', outputs)) :
    Turn a a' (if .restarted ∈ outputs then [.dropped a.queue] else []) := by
  cases callback with
  | resourceAction o =>
      cases h
      exact .same rfl rfl rfl
  | healthcheck =>
      simp only [completed] at h
      split at h
      · simp only [unhealthy, hconnected.1.1, Except.ok.injEq] at h
        have hset := recoverSet_turn (a := a.transportFailed t) (t := t) hconnected env.now
          .failed
        rw [h] at hset
        exact hset
      · split at h
        · simp only [hconnected.1.1] at h
          cases h
          have htimer : Turn a (a.timerAdd .assemblyHealthcheck) [] := .same rfl rfl rfl
          exact htimer.trans (.modifyTrans _ t rfl)
        · cases h
          exact .same rfl rfl rfl

theorem exec_turn (h : a.Sound) (hs : .assemblySshExec s ∈ a.jobs)
    (hexec : (a.jobDel (.assemblySshExec s)).exec s env = .ok (a', outputs)) :
    Turn a a' (a.jobMarks env outputs (.assemblySshExec s)) := by
  have hhead := (h.commands.exec_queue hs).1
  have hconnected := h.commands.queue_connected (List.mem_of_mem_head? hhead)
  have hqueue := queue_eq hconnected.1.1
  rw [← hqueue] at hhead
  have hnodup : a.queue.Nodup := hqueue ▸ h.commands.queue_nodup _
  have hdel : Turn a (a.jobDel (.assemblySshExec s)) [] := .same rfl rfl rfl
  have hop : (a.jobDel (.assemblySshExec s)).sshOps s = a.sshOps s := rfl
  rcases exec_eq_ok hexec with ⟨state, sshRc, hout, rfl, rfl⟩ | ⟨hout, rfl, rfl⟩ |
    ⟨sshRc, b, hout, hcompleted, rfl⟩ <;> rw [hop] at hout
  · obtain ⟨rest, hsplit⟩ := runStages_again hout
    obtain ⟨hexec, hfree, hmono⟩ := channelExec_mem_iff hsplit
    have hagain := hdel.trans (Turn.again hhead hnodup sshRc hmono)
    have hmarks : a.jobMarks env [] (.assemblySshExec s) =
        if (a.sshOps s).execState.Execed = false ∧ state.Execed = true then [.executed s]
        else [] := by
      simp only [jobMarks, execMarks, hout, hexec, hfree, if_false, List.not_mem_nil,
        List.append_nil]
    rw [hmarks]
    exact hagain
  · obtain ⟨rest, hsplit⟩ := runStages_openFailed hout
    obtain ⟨hexec, hfree, -⟩ := channelExec_mem_iff hsplit
    have hmarks : a.jobMarks env [] (.assemblySshExec s) = [] := by
      have hexec' : .channelExec ∉ stagesDone env (execStages (a.sshOps s).execState) :=
        fun hmem => by simpa [SshExecState.Execed] using (hexec.mp hmem).2
      simp only [jobMarks, execMarks, hout, hexec', hfree, if_false, List.not_mem_nil,
        List.append_nil]
    rw [hmarks]
    exact hdel
  · have hdone : stagesDone env (execStages (a.sshOps s).execState) =
        execStages (a.sshOps s).execState := runStages_complete hout
    obtain ⟨hexec, hfree⟩ := channelExec_mem_execStages (a.sshOps s).execState
    have hconnected' := (h.dequeue hs).2.2.2.1
    have hmarks : a.execMarks s env =
        (if (a.sshOps s).execState.Execed = false then [.executed s] else []) ++
          [.freed s, .completed s] := by
      simp only [execMarks, hout, hdone, hexec, hfree, if_true]
      rfl
    have hrest : ((a.jobDel (.assemblySshExec s)).sshOpDequeue s).queue = a.queue.tail :=
      queue_dequeue (a := a.jobDel (.assemblySshExec s)) hhead hconnected.1.1 rfl
    have hdequeue := hdel.trans (Turn.dequeue (a := a.jobDel (.assemblySshExec s)) hhead
      hconnected.1.1 rfl)
    have hcomplete := completed_turn hconnected' hcompleted
    have hall := (hdequeue.trans hcomplete).trans (.schedule b (a.sshOps s).transport)
    rw [jobMarks, hmarks, ← hrest]
    simp only [List.nil_append, List.append_nil] at hall
    exact hall

theorem timeout_turn (h : a.Sound) {handle : Nat} (hs : (handle, .sshTimeout s) ∈ a.timers)
    (htimeout : (a.timerDel handle).timeout s env = .ok (a', outputs)) :
    Turn a a' [.dropped a.queue, .expired s] := by
  obtain ⟨-, t, hmem⟩ := h.commands.timeout_queued hs
  have hconnected := h.commands.queue_connected hmem
  have ht : ((a.timerDel handle).sshOps s).transport = t := (h.commands.queue_op hmem).2
  have hconnected' : ((a.timerDel handle).flush t).Connected t :=
    Connected.flush (a := a.timerDel handle) hconnected
  have hempty : ((a.timerDel handle).flush t).queue = [] := by
    rw [queue_eq hconnected'.1.1, flush_queue]
  have hcount : ((a.timerDel handle).flush t).sshCount = a.sshCount := by
    obtain ⟨jobs, timers, scheduled, -, -, heq⟩ := (a.timerDel handle).flush_eq t
    rw [heq]
    rfl
  have hflush : (a.timerDel handle).sshTimeoutFlush s = (a.timerDel handle).flush t := by
    simp only [sshTimeoutFlush, ht, Assembly.flush]
  -- with the queue empty, a restart has nothing left to drop
  have hfail : ∀ {b : Assembly σ}, b.Connected t → b.queue = [] → b.sshCount = a.sshCount →
      b.recoverSet env.now .failed = (a', outputs) →
      a'.queue = [] ∧ a'.sshCount = a.sshCount := by
    intro b hb hq hc hset
    obtain ⟨r, -, -, -, ⟨outs, heq, -, -⟩ | ⟨-, -, heq⟩⟩ := b.recoverSet_cases env.now .failed
    · rw [heq, Prod.mk.injEq] at hset
      exact hset.1 ▸ ⟨hq, hc⟩
    · rw [heq, Prod.mk.injEq] at hset
      obtain ⟨hqueue, hcount, -⟩ :=
        restart_queue (a := { b with recover := r }) (t := t) hb
      exact hset.1 ▸ ⟨hqueue, hcount.trans hc⟩
  obtain ⟨hqueue', hcount'⟩ : a'.queue = [] ∧ a'.sshCount = a.sshCount := by
    simp only [timeout, hflush] at htimeout
    split at htimeout
    · simp only [unhealthy, hconnected'.1.1, Except.ok.injEq] at htimeout
      exact hfail (b := ((a.timerDel handle).flush t).transportFailed t) hconnected' hempty
        hcount htimeout
    · simp only [Except.ok.injEq] at htimeout
      exact hfail hconnected' hempty hcount htimeout
  exact .expire (queue_eq hconnected.1.1 ▸ hmem) hqueue' hcount'

theorem reactJob_turn (h : a.Sound) {job : AssemblyJob} (hjob : job ∈ a.jobs)
    (hreact : (a.jobDel job).reactJob env job = .ok (a', outputs)) :
    Turn a a' (a.jobMarks env outputs job) := by
  have hcommands := h.commands.jobDel job
  have hdel : Turn a (a.jobDel job) [] := .same rfl rfl rfl
  cases job with
  | myInstanceStateGet =>
      exact hdel.trans (poll_turn hcommands (h.pipeline.polling (Or.inl hjob)) hreact)
  | connectExecute =>
      simp only [reactJob] at hreact
      split at hreact
      · next b hconnect =>
          cases hreact
          exact hdel.trans (connectExecute_turn hconnect)
      · cases hreact
  | sshAssemblyConnect =>
      have hpending : a.pipeline ≠ 0 := fun h => (pipeline_eq_zero.mp h).2.2.1 hjob
      obtain ⟨t, hlive⟩ := h.pipeline.connecting (Or.inr hjob)
      exact hdel.trans (handshake_turn hcommands (t := t) hlive
        (h.not_connected hpending t) hreact)
  | assemblySshExec s => exact exec_turn h hjob hreact

theorem reactTimer_turn (h : a.Sound) {handle : Nat} {timer : AssemblyTimer}
    (htimer : (handle, timer) ∈ a.timers)
    (hreact : (a.timerDel handle).reactTimer env timer = .ok (a', outputs)) :
    Turn a a' (a.timerMarks timer) := by
  have hcommands := h.commands.timerDel handle
  have hdel : Turn a (a.timerDel handle) [] := .same rfl rfl rfl
  cases timer with
  | myInstanceStateGet =>
      exact hdel.trans (poll_turn hcommands (h.pipeline.polling (Or.inr ⟨handle, htimer⟩))
        hreact)
  | sshTimeout s => exact timeout_turn h htimer hreact
  | sshKeepaliveSend t =>
      cases hreact
      exact hdel.trans (sshKeepaliveSend_turn _ t)
  | assemblyHealthcheck =>
      obtain ⟨t, hconnected, -⟩ := h.commands.health_connected htimer
      simp only [reactTimer] at hreact
      split at hreact
      · next b hcheck =>
          cases hreact
          exact hdel.trans (assemblyHealthcheck_turn hcommands (t := t) hconnected hcheck)
      · cases hreact

end Assembly

end PacemakerCloud

import PacemakerCloud.Daemon.History

/-!
# The CIM transport

`trans_cim.c` and `cim_service.c`, compared with `resource_action_completion` of the SSH
transport.  Allocations and `qb_loop_job_add` do not fail here.  The property `Started` of a
service is passed on as if it were the exit code of a resource agent, where zero is success.
-/

namespace PacemakerCloud

open Foundation

/-- `CIMCData`, as far as its type is looked at. -/
inductive CimcData where
  | boolean (value : UInt8)
  | uint32 (value : UInt32)
  | other
  deriving DecidableEq, Repr

inductive CimReply where
  /-- `create_object_path` fails; the data is what is found on the stack. -/
  | noPath (garbage : CimcData)
  /-- `status.rc` is not zero. -/
  | error (data : CimcData)
  | data (data : CimcData)
  deriving DecidableEq, Repr

/-- `service_get_property`: its result, and what it leaves in `*result`. -/
def serviceGetProperty : CimReply → Int × CimcData
  | .noPath garbage => (0, garbage)
  | .error data => (-1, data)
  | .data data => (0, data)

def cimServiceStarted (reply : CimReply) : Int :=
  match serviceGetProperty reply with
  | (0, .boolean value) => value.toNat
  | _ => -1

def serviceSetEnabled : CimReply → Int
  | .data (.uint32 value) => if value = 0 then 0 else -1
  | .data (.boolean _) | .data .other | .noPath _ | .error _ => -1

def cimActionFunc (op : PeOperation) : Except Fault (CimReply → Int) :=
  if op.rclass ≠ "lsb".toList then .error .assertion
  else
    match op.method with
    | .monitor => .ok cimServiceStarted
    | .start | .stop => .ok serviceSetEnabled
    | .delete | .other _ => .error .assertion

/-! ## Service states -/

inductive ServiceState where
  | running
  | stopped
  | failed
  deriving DecidableEq, Repr

/-- What a CIM server says about a service; without a boolean the query has failed. -/
def CimReply.serviceState : CimReply → ServiceState
  | .data (.boolean value) => if value = 0 then .stopped else .running
  | .data (.uint32 _) | .data .other | .noPath _ | .error _ => .failed

def lsbServiceState (status : Int) : ServiceState :=
  if status = 0 then .running
  else if status = 1 ∨ status = 2 ∨ status = 3 then .stopped
  else .failed

/-- The exit code tells the state of the service, and is never `OCF_PENDING`. -/
structure Reports (service : ServiceState) (ec : Int) : Prop where
  ok : ec = ocfOk ↔ service = .running
  notRunning : ec = ocfNotRunning ↔ service = .stopped
  failed : service = .failed → ec ≠ ocfPending

/-- The query has failed, and what is on the stack looks like an error code. -/
def CimReply.StackError : CimReply → Prop
  | .noPath (.boolean value) => value ≠ 0 ∧ value ≠ 7
  | _ => False

theorem ssh_reports {op : PeOperation} (hclass : op.rclass = "lsb".toList)
    (hmethod : op.method = .monitor) (status : Int) :
    Reports (lsbServiceState status) (op.exitcode status) := by
  simp only [PeOperation.exitcode, peResourceOcfExitcodeGet, hclass, hmethod, if_true, and_self,
    lsbServiceState]
  split
  · constructor <;> simp [ocfOk, ocfNotRunning]
  · split
    · constructor <;> simp [ocfOk, ocfNotRunning]
    · constructor <;> simp [ocfOk, ocfNotRunning, ocfUnknownError, ocfPending]

theorem code_eq_iff (value code : UInt8) :
    (value.toNat : Int) = (code.toNat : Int) ↔ value = code :=
  Int.natCast_inj.trans UInt8.toNat_inj

theorem cim_reports_iff (reply : CimReply) :
    Reports reply.serviceState (cimServiceStarted reply) ↔ reply.StackError := by
  have hpending : ∀ {service}, service = .failed → ¬ Reports service (-1) :=
    fun hservice h => h.failed hservice rfl
  cases reply with
  | noPath garbage =>
      cases garbage with
      | boolean value =>
          constructor
          · intro h
            refine ⟨fun hzero => ?_, fun hseven => ?_⟩
            · cases h.ok.mp ((code_eq_iff value 0).mpr hzero)
            · cases h.notRunning.mp ((code_eq_iff value 7).mpr hseven)
          · rintro ⟨hzero, hseven⟩
            refine ⟨iff_of_false (mt (code_eq_iff value 0).mp hzero) nofun,
              iff_of_false (mt (code_eq_iff value 7).mp hseven) nofun, fun _ => ?_⟩
            simp only [cimServiceStarted, serviceGetProperty, ocfPending]
            omega
      | uint32 value => exact iff_of_false (hpending rfl) id
      | other => exact iff_of_false (hpending rfl) id
  | error data => exact iff_of_false (hpending rfl) id
  | data data =>
      cases data with
      | boolean value =>
          refine iff_of_false (fun h => ?_) id
          by_cases hzero : value = 0
          · subst hzero
            cases h.ok.mp rfl
          · exact hzero ((code_eq_iff value 0).mp (h.ok.mpr (if_neg hzero)))
      | uint32 value => exact iff_of_false (hpending rfl) id
      | other => exact iff_of_false (hpending rfl) id

theorem cim_ok_iff (reply : CimReply) :
    (cimServiceStarted reply = ocfOk ↔ reply.serviceState = .running) ↔
      reply.serviceState = .failed ∧ reply ≠ .noPath (.boolean 0) := by
  have hpending : (-1 : Int) ≠ ocfOk := by decide
  have hok : ∀ value : UInt8, (value.toNat : Int) = ocfOk ↔ value = 0 := (code_eq_iff · 0)
  cases reply with
  | noPath garbage =>
      cases garbage <;>
        simp [cimServiceStarted, serviceGetProperty, CimReply.serviceState, hok, hpending]
  | error data =>
      simp [cimServiceStarted, serviceGetProperty, CimReply.serviceState, hpending]
  | data data =>
      cases data with
      | boolean value =>
          simp only [cimServiceStarted, serviceGetProperty, hok, CimReply.serviceState]
          by_cases hzero : value = 0
          · simp [hzero]
          · simp [hzero]
      | uint32 value =>
          simp [cimServiceStarted, serviceGetProperty, CimReply.serviceState, hpending]
      | other => simp [cimServiceStarted, serviceGetProperty, CimReply.serviceState, hpending]

/-! ## Monitors -/

def monitorState (interval : Nat) (ec : Int) : RecoverState :=
  if ec = ocfOk then .running else if interval = 0 then .stopped else .failed

theorem monitorState_eq_iff (interval : Nat) (ec ec' : Int) :
    monitorState interval ec = monitorState interval ec' ↔ (ec = ocfOk ↔ ec' = ocfOk) := by
  unfold monitorState
  by_cases h : ec = ocfOk <;> by_cases h' : ec' = ocfOk <;> by_cases hzero : interval = 0 <;>
    simp [h, h', hzero]

def PeOperation.spec (op : PeOperation) : ResourceId × CString × Method × Nat :=
  (op.target, op.rclass, op.method, op.interval)

namespace Cape

variable {σ : Type} {c c' : Cape σ} {d : Deployable} {env : Env} {r : ResourceId} {o : Nat}
  {ec : Int}

structure Monitors (d : Deployable) (c : Cape σ) (r : ResourceId) (o : Nat) : Prop where
  rclass : (c.ops o).rclass = "lsb".toList
  method : (c.ops o).method = .monitor
  resource : d.resource? (c.ops o).hostname (c.ops o).rname = some r

theorem Monitors.of_spec (h : Monitors d c r o) (hspec : (c'.ops o).spec = (c.ops o).spec) :
    Monitors d c' r o := by
  simp only [PeOperation.spec, PeOperation.target, Prod.mk.injEq, ResourceId.mk.injEq] at hspec
  obtain ⟨⟨hhost, hname⟩, hclass, hmethod, -⟩ := hspec
  exact ⟨hclass.trans h.rclass, hmethod.trans h.method, by rw [hhost, hname, h.resource]⟩

theorem spec_timesExecutedAdd (c : Cape σ) (o x : Nat) :
    ((c.timesExecutedAdd o).ops x).spec = (c.ops x).spec := by
  by_cases hx : x = o
  · simp [timesExecutedAdd, modifyOp, hx, PeOperation.spec, PeOperation.target]
  · simp [timesExecutedAdd, modifyOp, hx]

theorem spec_peResourceUnref (c : Cape σ) (o x : Nat) :
    ((c.peResourceUnref o).ops x).spec = (c.ops x).spec := by
  by_cases hx : x = o
  · simp [hx, PeOperation.spec, PeOperation.target]
  · simp [hx]

theorem recover_of_release (h : c.resourceActionRelease (some r) o ec = .ok c') :
    (c'.resources r).recover = (c.resources r).recover := by
  rcases resourceActionRelease_ok h with ⟨-, rfl⟩ | ⟨r', hr', -, rfl⟩
  · rw [peResourceUnref_resources]
  · obtain rfl := Option.some.inj hr'
    simp [monitorTimerAdd]

theorem exists_opHistoryRecord (c : Cape σ) (env : Env) (r : ResourceId) (o : Nat) (ec : Int) :
    ∃ c', c.opHistoryRecord env (some r) o ec = .ok c' := by
  unfold opHistoryRecord
  split
  · exact ⟨_, rfl⟩
  · exact ⟨_, rfl⟩

theorem exists_resourceActionRelease (c : Cape σ) (r : ResourceId) (o : Nat) (ec : Int) :
    ∃ c', c.resourceActionRelease (some r) o ec = .ok c' := by
  unfold resourceActionRelease
  split
  · split
    · exact ⟨_, rfl⟩
    · exact ⟨_, rfl⟩
  · exact ⟨_, rfl⟩

structure Execution where
  op : Nat
  env : Env
  reply : CimReply
  status : Int
  same : reply.serviceState = lsbServiceState status

theorem foldlM_monitors (step : Cape σ → Execution → Except Fault (Cape σ))
    (hstep : ∀ {c : Cape σ} {x}, Monitors d c r x.op →
      ∃ c', step c x = .ok c' ∧ ∀ y, (c'.ops y).spec = (c.ops y).spec)
    {executions : List Execution} (hm : ∀ x ∈ executions, Monitors d c r x.op) :
    ∃ c', executions.foldlM step c = .ok c' ∧ ∀ y, (c'.ops y).spec = (c.ops y).spec := by
  induction executions generalizing c with
  | nil => exact ⟨c, rfl, fun _ => rfl⟩
  | cons x executions ih =>
      obtain ⟨mid, hmid, hspec⟩ := hstep (hm x (.head _))
      obtain ⟨c', hrest, hspec'⟩ := ih fun y hy => (hm y (.tail _ hy)).of_spec (hspec y.op)
      rw [List.foldlM_cons]
      exact ⟨c', bind_eq_ok.mpr ⟨mid, hmid, hrest⟩, fun y => (hspec' y).trans (hspec y)⟩

section

variable [Stopwatch σ]

/-- The job `perform_action`, with the function that was chosen for it. -/
def performAction (d : Deployable) (c : Cape σ) (env : Env) (o : Nat) (reply : CimReply) :
    Except Fault (Cape σ) := do
  let actionFunc ← cimActionFunc (c.ops o)
  let c ← c.resourceActionCompleted d env o (actionFunc reply)
  return c.peResourceUnref o

theorem resourceRecoverSet_state (c : Cape σ) (env : Env) (r : ResourceId)
    (state : RecoverState) :
    ((c.resourceRecoverSet env r state).resources r).recover.state = state := by
  have hcalls := foldl_rel (R := fun c c' : Cape σ => c'.resources = c.resources) (fun _ => rfl)
    (fun h h' => h'.trans h) (f := resourceCallback env r)
    (fun c call => by cases call <;> rfl)
    (recoverStateSet (c.resources r).recover env.now state).2
    (c.modifyResource r
      ({ · with recover := (recoverStateSet (c.resources r).recover env.now state).1 }))
  rw [resourceRecoverSet, hcalls]
  simp [modifyResource, recoverStateSet_state]

theorem spec_of_completed (h : c.resourceActionCompleted d env o ec = .ok c') (x : Nat) :
    (c'.ops x).spec = (c.ops x).spec := by
  obtain ⟨mid, hmid, hcases⟩ := resourceActionCompleted_ok h
  have hspec : (mid.ops x).spec = (c.ops x).spec := by
    have hconfirm : (c.execute o ec).ops = (c.timesExecutedAdd o).ops := by
      unfold execute confirmFirst
      split <;> rfl
    rw [hmid.ops, hconfirm, spec_timesExecutedAdd]
  rcases hcases with ⟨-, rfl⟩ | ⟨r, -, -, rfl⟩
  · rw [spec_peResourceUnref, hspec]
  · exact hspec

theorem completed_monitor (hm : Monitors d c r o) (env : Env) (ec : Int) :
    ∃ c', c.resourceActionCompleted d env o ec = .ok c' ∧
      (c'.resources r).recover.state = monitorState (c.ops o).interval ec := by
  obtain ⟨a, ha⟩ : ∃ a, d.assembly? (c.ops o).hostname = some a := by
    have hresource := hm.resource
    unfold Deployable.resource? at hresource
    split at hresource
    case h_1 => cases hresource
    case h_2 a ha => exact ⟨a, ha⟩
  obtain ⟨c₁, hrecord⟩ := exists_opHistoryRecord (c.timesExecutedAdd o) env r o ec
  have hset : (c₁.confirmFirst o ec).resourceStateSet env (some r) (c.ops o) ec =
      .ok ((c₁.confirmFirst o ec).resourceRecoverSet env r
        (monitorState (c.ops o).interval ec)) := by
    have hstate : resourceStateOf (c.ops o) ec = some (monitorState (c.ops o).interval ec) := by
      simp only [resourceStateOf, hm.method, monitorState, apply_ite some]
    simp only [resourceStateSet, hstate]
    rfl
  obtain ⟨c', hrelease⟩ := exists_resourceActionRelease
    (if (c.ops o).Unexpected ec then
      ((c₁.confirmFirst o ec).resourceRecoverSet env r
        (monitorState (c.ops o).interval ec)).scheduleProcessing
    else (c₁.confirmFirst o ec).resourceRecoverSet env r (monitorState (c.ops o).interval ec))
    r o ec
  refine ⟨c', ?_, ?_⟩
  · simp only [resourceActionCompleted, ha, hm.resource]
    exact bind_eq_ok.mpr ⟨c₁, hrecord, bind_eq_ok.mpr ⟨_, hset, hrelease⟩⟩
  · rw [recover_of_release hrelease]
    split <;> exact resourceRecoverSet_state _ env r _

def cimRun (d : Deployable) (c : Cape σ) (executions : List Execution) : Except Fault (Cape σ) :=
  executions.foldlM (fun c x => c.performAction d x.env x.op x.reply) c

def sshRun (d : Deployable) (c : Cape σ) (executions : List Execution) : Except Fault (Cape σ) :=
  executions.foldlM (fun c x => c.resourceActionCompletion d x.env x.op x.status) c

def Agree (d : Deployable) (c : Cape σ) (r : ResourceId) (executions : List Execution) : Prop :=
  ∃ cim ssh, c.cimRun d executions = .ok cim ∧ c.sshRun d executions = .ok ssh ∧
    (cim.resources r).recover.state = (ssh.resources r).recover.state

theorem completion_monitor (hm : Monitors d c r o) (env : Env) (reply : CimReply) (status : Int) :
    (∃ c', c.performAction d env o reply = .ok c' ∧ (∀ x, (c'.ops x).spec = (c.ops x).spec) ∧
      (c'.resources r).recover.state =
        monitorState (c.ops o).interval (cimServiceStarted reply)) ∧
    ∃ c', c.resourceActionCompletion d env o status = .ok c' ∧
      (∀ x, (c'.ops x).spec = (c.ops x).spec) ∧
      (c'.resources r).recover.state =
        monitorState (c.ops o).interval ((c.ops o).exitcode status) := by
  have hfunc : cimActionFunc (c.ops o) = .ok cimServiceStarted := by
    simp [cimActionFunc, hm.rclass, hm.method]
  have hdone : ∀ ec, ∃ c', (c.resourceActionCompleted d env o ec >>= fun c' =>
        pure (c'.peResourceUnref o)) = .ok c' ∧ (∀ x, (c'.ops x).spec = (c.ops x).spec) ∧
      (c'.resources r).recover.state = monitorState (c.ops o).interval ec := by
    intro ec
    obtain ⟨c', hok, hstate⟩ := completed_monitor hm env ec
    refine ⟨c'.peResourceUnref o, bind_eq_ok.mpr ⟨c', hok, rfl⟩, fun x => ?_, ?_⟩
    · rw [spec_peResourceUnref, spec_of_completed hok]
    · rw [peResourceUnref_resources, hstate]
  refine ⟨?_, hdone _⟩
  obtain ⟨c', hok, hrest⟩ := hdone (cimServiceStarted reply)
  exact ⟨c', bind_eq_ok.mpr ⟨_, hfunc, hok⟩, hrest⟩

theorem agree_iff {front : List Execution} {x : Execution}
    (hm : ∀ y ∈ front ++ [x], Monitors d c r y.op) :
    Agree d c r (front ++ [x]) ↔
      (cimServiceStarted x.reply = ocfOk ↔ x.reply.serviceState = .running) := by
  have hfront : ∀ y ∈ front, Monitors d c r y.op := fun y hy => hm y (List.mem_append_left _ hy)
  have hx := hm x (by simp)
  obtain ⟨cim, hcim, hcimSpec⟩ := foldlM_monitors
    (fun c x => c.performAction d x.env x.op x.reply)
    (fun {c x} hm => by
      obtain ⟨⟨c', hok, hspec, -⟩, -⟩ := completion_monitor hm x.env x.reply x.status
      exact ⟨c', hok, hspec⟩) hfront
  obtain ⟨ssh, hssh, hsshSpec⟩ := foldlM_monitors
    (fun c x => c.resourceActionCompletion d x.env x.op x.status)
    (fun {c x} hm => by
      obtain ⟨-, c', hok, hspec, -⟩ := completion_monitor hm x.env x.reply x.status
      exact ⟨c', hok, hspec⟩) hfront
  have hcimOp := hx.of_spec (hcimSpec x.op)
  have hsshOp := hx.of_spec (hsshSpec x.op)
  obtain ⟨⟨cim', hcim', -, hcimState⟩, -⟩ := completion_monitor hcimOp x.env x.reply x.status
  obtain ⟨-, ssh', hssh', -, hsshState⟩ := completion_monitor hsshOp x.env x.reply x.status
  have hcimRun : c.cimRun d (front ++ [x]) = .ok cim' := by
    rw [cimRun, List.foldlM_append]
    exact bind_eq_ok.mpr ⟨cim, hcim, bind_eq_ok.mpr ⟨cim', hcim', rfl⟩⟩
  have hsshRun : c.sshRun d (front ++ [x]) = .ok ssh' := by
    rw [sshRun, List.foldlM_append]
    exact bind_eq_ok.mpr ⟨ssh, hssh, bind_eq_ok.mpr ⟨ssh', hssh', rfl⟩⟩
  have hinterval : (cim.ops x.op).interval = (ssh.ops x.op).interval :=
    congrArg (fun spec => spec.2.2.2) ((hcimSpec x.op).trans (hsshSpec x.op).symm)
  have hreport := (ssh_reports hsshOp.rclass hsshOp.method x.status).ok
  rw [← x.same] at hreport
  rw [← hreport, ← monitorState_eq_iff (ssh.ops x.op).interval, ← hsshState, ← hinterval,
    ← hcimState]
  constructor
  · rintro ⟨_, _, hc, hs, heq⟩
    obtain rfl := Except.ok.inj (hcimRun.symm.trans hc)
    obtain rfl := Except.ok.inj (hsshRun.symm.trans hs)
    exact heq
  · intro heq
    exact ⟨cim', ssh', hcimRun, hsshRun, heq⟩

/--
The CIM transport reports the state of a service exactly if it could not ask for it and finds
an error code on the stack.  The states it leaves are those of the SSH transport exactly if
every query has failed, and none of them was taken for a success.
-/
theorem cim_agrees_iff {executions : List Execution}
    (hm : ∀ x ∈ executions, Monitors d c r x.op) :
    (∀ x ∈ executions, Reports x.reply.serviceState ((c.ops x.op).exitcode x.status)) ∧
      ((∀ x ∈ executions, ∃ actionFunc, cimActionFunc (c.ops x.op) = .ok actionFunc ∧
          Reports x.reply.serviceState (actionFunc x.reply)) ↔
        ∀ x ∈ executions, x.reply.StackError) ∧
      ((∀ front x rest, executions = front ++ x :: rest → Agree d c r (front ++ [x])) ↔
        ∀ x ∈ executions, x.reply.serviceState = .failed ∧
          x.reply ≠ .noPath (.boolean 0)) := by
  refine ⟨fun x hx => ?_, ?_, ?_⟩
  · rw [x.same]
    exact ssh_reports (hm x hx).rclass (hm x hx).method x.status
  · refine forall₂_congr fun x hx => ?_
    have hfunc : cimActionFunc (c.ops x.op) = .ok cimServiceStarted := by
      simp [cimActionFunc, (hm x hx).rclass, (hm x hx).method]
    rw [hfunc, ← cim_reports_iff]
    constructor
    · rintro ⟨_, heq, hreports⟩
      rwa [← Except.ok.inj heq] at hreports
    · exact fun hreports => ⟨_, rfl, hreports⟩
  · constructor
    · intro hagree x hx
      obtain ⟨front, rest, rfl⟩ := List.append_of_mem hx
      have hfront : ∀ y ∈ front ++ [x], Monitors d c r y.op := by
        intro y hy
        exact hm y (by simp at hy ⊢; tauto)
      exact (cim_ok_iff x.reply).mp ((agree_iff hfront).mp (hagree front x rest rfl))
    · rintro hfailed front x rest rfl
      have hfront : ∀ y ∈ front ++ [x], Monitors d c r y.op := by
        intro y hy
        exact hm y (by simp at hy ⊢; tauto)
      exact (agree_iff hfront).mpr ((cim_ok_iff x.reply).mpr (hfailed x (by simp)))

end

def barProbe : Cape Ring := World.execRscAction barCape 0 (World.angusOn World.bar .monitor 0 7)

def angusId : ResourceId := ⟨World.bar, "rsc_bar_angus".toList⟩

theorem barProbe_monitors : Monitors World.barDeployable barProbe angusId 0 := by
  constructor <;> decide +kernel

def unasked : Execution := ⟨0, World.workingEnv, .noPath (.boolean 5), 4, rfl⟩

theorem cim_agrees_unasked :
    (∃ actionFunc, cimActionFunc (barProbe.ops 0) = .ok actionFunc ∧
      Reports .failed (actionFunc (.noPath (.boolean 5)))) ∧
    Agree World.barDeployable barProbe angusId [unasked] := by
  have hm : ∀ x ∈ [unasked], Monitors World.barDeployable barProbe angusId x.op := by
    intro x hx
    rw [List.mem_singleton.mp hx]
    exact barProbe_monitors
  obtain ⟨-, hreports, hagree⟩ := cim_agrees_iff hm
  refine ⟨hreports.mpr (fun x hx => ?_) unasked (.head _),
    hagree.mpr (fun x hx => ?_) [] unasked [] rfl⟩
  · rw [List.mem_singleton.mp hx]
    exact ⟨by decide, by decide⟩
  · rw [List.mem_singleton.mp hx]
    exact ⟨rfl, by decide⟩

/--
A service that runs is an error under CIM, one that is stopped a success, and a query that
fails is `OCF_PENDING`.
-/
theorem cim_inverts_state :
    (∃ cim ssh,
      barProbe.cimRun World.barDeployable
        [⟨0, World.workingEnv, .data (.boolean 1), 0, rfl⟩] = .ok cim ∧
      barProbe.sshRun World.barDeployable
        [⟨0, World.workingEnv, .data (.boolean 1), 0, rfl⟩] = .ok ssh ∧
      (cim.resources angusId).recover.state = .stopped ∧
      (ssh.resources angusId).recover.state = .running) ∧
    cimActionFunc (barProbe.ops 0) = .ok cimServiceStarted ∧
      cimServiceStarted (.data (.boolean 1)) = ocfUnknownError ∧
      cimServiceStarted (.data (.boolean 0)) = ocfOk ∧
      cimServiceStarted (.error .other) = ocfPending := by
  refine ⟨⟨_, _, rfl, rfl, ?_⟩, ?_⟩
  · decide +kernel
  · exact ⟨rfl, rfl, rfl, rfl⟩

end Cape

end PacemakerCloud

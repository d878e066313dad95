import PacemakerCloud.Foundation.CString
import Mathlib.Logic.Function.Basic

/-!
# Starting and stopping the monitors of deployables

The way of a command.  The shell writes the configuration of a deployable and calls the agent
(`deployable.py`, `cpe.py`), which asks init for a job (`cpe_agent.cpp`, `cpe_impl.cpp`,
`libinit.c`).  A monitor that is run with the name of a deployable loads the file of that name
(`caped.c`, `cape.c`).  What init does with the jobs that it accepts is left open.
-/

namespace PacemakerCloud.CpeAgent

open Foundation

/-! ## `libinit.c` -/

structure BusCall where
  destination : CString
  path : CString
  interface : CString
  method : CString
  arguments : List CString
  wait : Option Bool
  deriving DecidableEq, Repr

inductive BusReply where
  /-- The message cannot be allocated, or an argument not be appended. -/
  | noMessage
  | noReply (outOfMemory : Bool)
  /-- The reply is not an object path. -/
  | badReply
  | job
  deriving DecidableEq, Repr

structure Bus where
  reply : BusCall → BusReply
  jobs : List BusCall

def Bus.send (bus : Bus) (call : BusCall) : BusReply × Bus :=
  (bus.reply call,
    if bus.reply call = .job then { bus with jobs := bus.jobs ++ [call] } else bus)

def servicePathSize : Nat := 512

def eNoMem : Int := 12

def eIo : Int := 5

def unitName (name inst : CString) : CString :=
  snprintf servicePathSize (name ++ '@' :: inst ++ ".service".toList)

def systemdCall (method name inst : CString) : BusCall where
  destination := "org.freedesktop.systemd1".toList
  path := "/org/freedesktop/systemd1".toList
  interface := "org.freedesktop.systemd1.Manager".toList
  method := method
  arguments := [unitName name inst, "replace".toList]
  wait := none

def systemdInitJob (bus : Bus) (method name inst : CString) : Int × Bus :=
  let (reply, bus) := bus.send (systemdCall method name inst)
  match reply with
  | .noMessage => (-eNoMem, bus)
  | .noReply _ | .badReply => (-eIo, bus)
  | .job => (0, bus)

def upstartCall (method service inst : CString) : BusCall where
  destination := "com.ubuntu.Upstart".toList
  path := snprintf servicePathSize ("/com/ubuntu/Upstart/jobs/".toList ++ service)
  interface := "com.ubuntu.Upstart0_6.Job".toList
  method := method
  arguments := [snprintf servicePathSize ("INSTANCE=".toList ++ inst)]
  wait := some true

def upstartInitJob (bus : Bus) (method service inst : CString) : Int × Bus :=
  -- only the reply to a start is looked at
  let (reply, bus) := bus.send (upstartCall method service inst)
  match reply with
  | .noMessage | .noReply true => (-eNoMem, bus)
  | .noReply false => (-1, bus)
  | .badReply => (if method = "Start".toList then -eIo else 0, bus)
  | .job => (0, bus)

/-- `init_use_systemd`, from what `/sbin/init` links to. -/
def initUseSystemd (link : Option CString) : Bool :=
  match link with
  | some link => strstr link "systemd".toList
  | none => false

structure System where
  initLink : Option CString
  bus : Bus

def initJob (s : System) (systemdMethod upstartMethod service inst : CString) : Int × Bus :=
  if initUseSystemd s.initLink then systemdInitJob s.bus systemdMethod service inst
  else upstartInitJob s.bus upstartMethod service inst

def initJobStart (s : System) : CString → CString → Int × Bus :=
  initJob s "StartUnit".toList "Start".toList

def initJobReload (s : System) : CString → CString → Int × Bus :=
  initJob s "ReloadUnit".toList "Reload".toList

def initJobStop (s : System) : CString → CString → Int × Bus :=
  initJob s "StopUnit".toList "Stop".toList

/-! ## The agent -/

def depResult (result : Int × Bus) : Nat × Bus :=
  (if result.1 = 0 then 0 else toUInt32 (-result.1), result.2)

def depStart (s : System) (uuid monitor : CString) : Nat × Bus :=
  depResult (initJobStart s monitor uuid)

def depReload (s : System) (uuid monitor : CString) : Nat × Bus :=
  depResult (initJobReload s monitor uuid)

def depStop (s : System) (uuid monitor : CString) : Nat × Bus :=
  depResult (initJobStop s monitor uuid)

inductive QmfResponse where
  | success (arguments : List (CString × Nat))
  | raised
  deriving DecidableEq, Repr

/-- The end of `event_dispatch`. -/
def respond (rc : Nat) (arguments : List (CString × Nat)) : QmfResponse :=
  if rc = 0 then .success arguments else .raised

def respondRc (result : Nat × Bus) : QmfResponse × Bus :=
  (respond result.1 [("rc".toList, result.1)], result.2)

/-- `event_dispatch` of a method call; a method it does not know succeeds. -/
def eventDispatch (s : System) (methodName uuid monitor : CString) : QmfResponse × Bus :=
  if methodName = "deployable_start".toList then respondRc (depStart s uuid monitor)
  else if methodName = "deployable_stop".toList then respondRc (depStop s uuid monitor)
  else if methodName = "deployable_reload".toList then respondRc (depReload s uuid monitor)
  else (respond 0 [], s.bus)

/-! ## The shell -/

/-- What a method of `cpe.py` returns: the first value, or nothing without one.  There is no
answer if the shell has found no agent, or if the answer gets lost. -/
def cpeResult : Option QmfResponse → Option Nat
  | none | some .raised => some 1
  | some (.success arguments) => arguments.head?.map Prod.snd

def capeSshd : CString := "pcloud-cape-sshd".toList

def configPath (name : CString) : CString := "/var/run/".toList ++ name ++ ".xml".toList

inductive Request where
  | start
  | stop
  | reload
  deriving DecidableEq, Repr

def Request.methodName : Request → CString
  | .start => "deployable_start".toList
  | .stop => "deployable_stop".toList
  | .reload => "deployable_reload".toList

/-- A command of `deployable.py`; a start writes the configuration first. -/
inductive Command (α : Type) where
  | start (name : CString) (config : α)
  | stop (name : CString)
  | reload (name : CString)
  deriving DecidableEq, Repr

/-- The files with configurations, the jobs that init has accepted, and the requests that the
shell has not complained about. -/
structure Host (α : Type) where
  files : CString → Option α
  jobs : List BusCall
  reported : List (Request × CString)

/-- A command, how the system bus would answer the agent if there is one, and whether the answer
of the agent arrives. -/
structure HostEvent (α : Type) where
  command : Command α
  agent : Option (BusCall → BusReply)
  answered : Bool

namespace Host

variable {α : Type}

def empty : Host α := ⟨fun _ => none, [], []⟩

def request (link : Option CString) (h : Host α) (agent : Option (BusCall → BusReply))
    (answered : Bool) (request : Request) (name : CString) : Host α :=
  let answer := agent.map fun reply =>
    eventDispatch ⟨link, ⟨reply, h.jobs⟩⟩ request.methodName name capeSshd
  { h with
    jobs := (answer.map (·.2.jobs)).getD h.jobs
    reported :=
      if cpeResult (if answered then answer.map (·.1) else none) = some 0 then
        h.reported ++ [(request, name)]
      else h.reported }

def step (link : Option CString) (h : Host α) (e : HostEvent α) : Host α :=
  match e.command with
  | .start name config =>
      { h with files := Function.update h.files (configPath name) (some config) }.request link
        e.agent e.answered .start name
  | .stop name => h.request link e.agent e.answered .stop name
  | .reload name => h.request link e.agent e.answered .reload name

end Host

namespace Command

variable {α : Type}

def name : Command α → CString
  | start name _ | stop name | reload name => name

def request : Command α → Request × CString
  | start name _ => (.start, name)
  | stop name => (.stop, name)
  | reload name => (.reload, name)

def written : Command α → Option α
  | start _ config => some config
  | stop _ | reload _ => none

end Command

def lastWritten {α : Type} (commands : List (Command α)) (name : CString) : Option α :=
  ((commands.filter (·.name = name)).filterMap Command.written).getLast?

/-! ## The monitor -/

/-- The deployable that `main` of `caped.c` loads, by its only argument.  `getopt` takes an argument
that begins with a dash for options, and then nothing is left. -/
def cloudApp (argument : CString) : Option CString :=
  match argument with
  | '-' :: _ :: _ => none
  | _ => some argument

def pathMax : Nat := 4096

def capeConfigPath (name : CString) : CString :=
  snprintf pathMax ("/var/run/".toList ++ name ++ ".xml".toList)

def Host.loaded {α : Type} (h : Host α) (argument : CString) : Option α :=
  (cloudApp argument).bind fun app => h.files (capeConfigPath app)

/-! ## Units and files -/

/-- The unit of the deployable is not cut, and its file lies in the directory itself. -/
def Fits (name : CString) : Prop := name.length ≤ 486 ∧ name.all (· ≠ '/') = true

instance (name : CString) : Decidable (Fits name) := inferInstanceAs (Decidable (_ ∧ _))

theorem unitName_eq {name : CString} (h : Fits name) :
    unitName capeSshd name = capeSshd ++ '@' :: name ++ ".service".toList := by
  refine snprintf_of_fits ?_
  have hlength : capeSshd.length = 16 ∧ ".service".toList.length = 8 := by decide +kernel
  have hname := h.1
  simp only [List.length_append, List.length_cons, hlength, servicePathSize]
  omega

theorem unitName_inj {name name' : CString} (h : Fits name) (h' : Fits name')
    (heq : unitName capeSshd name = unitName capeSshd name') : name = name' := by
  rw [unitName_eq h, unitName_eq h', List.append_left_inj, List.append_right_inj] at heq
  exact (List.cons.inj heq).2

theorem cloudApp_eq {name app : CString} (h : cloudApp name = some app) : app = name := by
  unfold cloudApp at h
  split at h
  · cases h
  · exact (Option.some_inj.mp h).symm

theorem capeConfigPath_eq {name : CString} (h : Fits name) :
    capeConfigPath name = configPath name := by
  have hlength : "/var/run/".toList.length = 9 ∧ ".xml".toList.length = 4 := by decide +kernel
  unfold capeConfigPath configPath
  have hname := h.1
  refine snprintf_of_fits ?_
  simp only [List.length_append, hlength, pathMax]
  omega

theorem configPath_inj {name name' : CString} (h : configPath name = configPath name') :
    name = name' := by
  unfold configPath at h
  exact List.append_cancel_left (List.append_cancel_right h)

/-! ## What the shell reports -/

def Request.unitMethod : Request → CString
  | .start => "StartUnit".toList
  | .stop => "StopUnit".toList
  | .reload => "ReloadUnit".toList

def Request.job (request : Request) (name : CString) : BusCall :=
  systemdCall request.unitMethod capeSshd name

def requestedJobs (requests : List (Request × CString)) (name : CString) : List BusCall :=
  (requests.filter (·.2 = name)).map fun x => x.1.job name

def Host.jobsOf {α : Type} (h : Host α) (name : CString) : List BusCall :=
  h.jobs.filter fun job => job.arguments.head? = some (unitName capeSshd name)

theorem depResult_systemd (bus : Bus) (method name inst : CString) :
    (depResult (systemdInitJob bus method name inst)).2 =
        (bus.send (systemdCall method name inst)).2 ∧
      ((depResult (systemdInitJob bus method name inst)).1 = 0 ↔
        bus.reply (systemdCall method name inst) = .job) := by
  cases hreply : bus.reply (systemdCall method name inst) <;>
    simp [systemdInitJob, depResult, Bus.send, hreply, eNoMem, eIo, toUInt32]

theorem cpeResult_respondRc (result : Nat × Bus) :
    cpeResult (some (respondRc result).1) = some 0 ↔ result.1 = 0 := by
  unfold respondRc respond
  split
  case isTrue hzero => simp [cpeResult, hzero]
  case isFalse hne => simp [cpeResult, hne]

theorem eventDispatch_methodName {s : System} (h : initUseSystemd s.initLink = true)
    (request : Request) (name : CString) :
    eventDispatch s request.methodName name capeSshd =
      respondRc (depResult (systemdInitJob s.bus request.unitMethod capeSshd name)) := by
  have hstop : "deployable_stop".toList ≠ "deployable_start".toList := by decide +kernel
  have hreload : "deployable_reload".toList ≠ "deployable_start".toList ∧
      "deployable_reload".toList ≠ "deployable_stop".toList := by decide +kernel
  cases request with
  | start =>
      have hdispatch : eventDispatch s Request.start.methodName name capeSshd =
          respondRc (depStart s name capeSshd) := if_pos rfl
      rw [hdispatch, depStart, initJobStart, initJob, if_pos h]
      rfl
  | stop =>
      have hdispatch : eventDispatch s Request.stop.methodName name capeSshd =
          respondRc (depStop s name capeSshd) := (if_neg hstop).trans (if_pos rfl)
      rw [hdispatch, depStop, initJobStop, initJob, if_pos h]
      rfl
  | reload =>
      have hdispatch : eventDispatch s Request.reload.methodName name capeSshd =
          respondRc (depReload s name capeSshd) :=
        (if_neg hreload.1).trans ((if_neg hreload.2).trans (if_pos rfl))
      rw [hdispatch, depReload, initJobReload, initJob, if_pos h]
      rfl

theorem eventDispatch_request {s : System} (h : initUseSystemd s.initLink = true)
    (request : Request) (name : CString) :
    (eventDispatch s request.methodName name capeSshd).2 = (s.bus.send (request.job name)).2 ∧
      (cpeResult (some (eventDispatch s request.methodName name capeSshd).1) = some 0 ↔
        s.bus.reply (request.job name) = .job) := by
  obtain ⟨hbus, hzero⟩ := depResult_systemd s.bus request.unitMethod capeSshd name
  rw [eventDispatch_methodName h, cpeResult_respondRc]
  exact ⟨hbus, hzero⟩

namespace Host

variable {α : Type} {link : Option CString} {host : Host α}

theorem request_eq (hlink : initUseSystemd link = true) (h : Host α)
    (agent : Option (BusCall → BusReply)) (answered : Bool) (request : Request)
    (name : CString) :
    h.request link agent answered request name =
      if agent.map (· (request.job name)) = some .job then
        { h with
          jobs := h.jobs ++ [request.job name]
          reported := if answered then h.reported ++ [(request, name)] else h.reported }
      else h := by
  have hlost : cpeResult none ≠ some 0 := by decide
  cases agent with
  | none => simp [Host.request, hlost]
  | some reply =>
      obtain ⟨hjobs, hreported⟩ :=
        eventDispatch_request (s := ⟨link, ⟨reply, h.jobs⟩⟩) hlink request name
      cases answered with
      | false =>
          simp only [Host.request, Option.map_some, hjobs, hlost, Option.getD_some, Bus.send,
            Option.some_inj, Bool.false_eq_true, if_false]
          split <;> rfl
      | true =>
          simp only [Host.request, Option.map_some, hjobs, hreported, Option.getD_some, Bus.send,
            Option.some_inj, if_true]
          split <;> rfl

theorem lastWritten_append (commands : List (Command α)) (command : Command α) (name : CString) :
    lastWritten (commands ++ [command]) name =
      if command.name = name then command.written.or (lastWritten commands name)
      else lastWritten commands name := by
  by_cases hname : command.name = name
  · cases hwritten : command.written <;> simp [lastWritten, hname, hwritten]
  · simp [lastWritten, hname]

structure Follows (h : Host α) (events : List (HostEvent α)) : Prop where
  requested : h.reported.Sublist (events.map (·.command.request))
  accepted : (h.reported.map fun x => x.1.job x.2).Sublist h.jobs
  asked : h.jobs.Sublist ((events.map (·.command.request)).map fun x => x.1.job x.2)
  answered : (∀ e ∈ events, e.answered = true) → h.jobs = h.reported.map fun x => x.1.job x.2
  files : ∀ name, h.files (configPath name) = lastWritten (events.map (·.command)) name

theorem Follows.request {events : List (HostEvent α)} {e : HostEvent α}
    {files : CString → Option α} (h : host.Follows events) (hlink : initUseSystemd link = true)
    (hfiles : ∀ name, files (configPath name) =
      lastWritten ((events ++ [e]).map (·.command)) name) :
    (Host.request link { host with files := files } e.agent e.answered e.command.request.1
      e.command.request.2).Follows (events ++ [e]) := by
  rw [request_eq hlink]
  split
  case isTrue =>
    refine ⟨?_, ?_, ?_, fun hall => ?_, hfiles⟩
    · rw [List.map_append]
      split
      · exact h.requested.append_right _
      · exact h.requested.trans (List.sublist_append_left _ _)
    · split
      · rw [List.map_append]
        exact h.accepted.append_right _
      · exact h.accepted.trans (List.sublist_append_left _ _)
    · rw [List.map_append, List.map_append]
      exact h.asked.append_right _
    · rw [if_pos (hall e (by simp)), List.map_append,
        h.answered fun x hx => hall x (List.mem_append_left _ hx)]
      rfl
  case isFalse =>
    rw [List.map_append] at hfiles
    refine ⟨?_, h.accepted, ?_, fun hall => ?_, ?_⟩
    · rw [List.map_append]
      exact h.requested.trans (List.sublist_append_left _ _)
    · rw [List.map_append, List.map_append]
      exact h.asked.trans (List.sublist_append_left _ _)
    · exact h.answered fun x hx => hall x (List.mem_append_left _ hx)
    · rwa [List.map_append]

theorem Follows.step {events : List (HostEvent α)} (h : host.Follows events)
    (hlink : initUseSystemd link = true) (e : HostEvent α) :
    (host.step link e).Follows (events ++ [e]) := by
  have hkeep : e.command.written = none → ∀ name, host.files (configPath name) =
      lastWritten ((events ++ [e]).map (·.command)) name := by
    intro hwritten name
    rw [List.map_append, List.map_singleton, lastWritten_append, h.files, hwritten, Option.none_or,
      ite_self]
  obtain ⟨command, agent, answered⟩ := e
  cases command with
  | start name config =>
      refine h.request (e := ⟨.start name config, agent, answered⟩) hlink fun other => ?_
      rw [List.map_append, List.map_singleton, lastWritten_append, ← h.files]
      by_cases heq : name = other
      · rw [heq, Function.update_self]
        exact (if_pos rfl).symm
      · have hpath : configPath other ≠ configPath name := fun h => heq (configPath_inj h).symm
        rw [Function.update_of_ne hpath]
        exact (if_neg heq).symm
  | stop name => exact h.request (e := ⟨.stop name, agent, answered⟩) hlink (hkeep rfl)
  | reload name => exact h.request (e := ⟨.reload name, agent, answered⟩) hlink (hkeep rfl)

theorem follows_foldl (hlink : initUseSystemd link = true) (events : List (HostEvent α)) :
    (events.foldl (Host.step link) Host.empty).Follows events := by
  induction events using List.reverseRecOn with
  | nil => exact ⟨.slnil, .slnil, .slnil, fun _ => rfl, fun _ => rfl⟩
  | append_singleton events e ih =>
      rw [List.foldl_append]
      exact ih.step hlink e

/-- Two deployables have two units. -/
theorem filter_jobs {requests : List (Request × CString)} {name : CString}
    (hfits : ∀ x ∈ requests, Fits x.2) (hname : Fits name) :
    (requests.map fun x => x.1.job x.2).filter
        (fun job => job.arguments.head? = some (unitName capeSshd name)) =
      requestedJobs requests name := by
  have hunit : ∀ x ∈ requests,
      ((x.1.job x.2).arguments.head? = some (unitName capeSshd name) ↔ x.2 = name) :=
    fun x hx => Option.some_inj.trans
      ⟨unitName_inj (hfits x hx) hname, congrArg (unitName capeSshd)⟩
  have hsame : requests.filter ((fun job => job.arguments.head? = some (unitName capeSshd name)) ∘
      fun x => x.1.job x.2) = requests.filter (·.2 = name) :=
    List.filter_congr fun x hx => decide_eq_decide.mpr (hunit x hx)
  rw [List.filter_map, hsame]
  refine List.map_congr_left fun x hx => ?_
  rw [of_decide_eq_true (List.mem_filter.mp hx).2]

end Host

def web : CString := "web".toList

def webTest : CString := "web-test".toList

def accepting : Option (BusCall → BusReply) := some fun _ => .job

/-- Both are started; one is reloaded, and the other stopped without an agent and started again
with a new configuration.  An answer gets lost, and then systemd does not reply. -/
def webEvents : List (HostEvent Nat) :=
  [⟨.start web 1, accepting, true⟩, ⟨.start webTest 2, accepting, true⟩,
    ⟨.reload webTest, accepting, true⟩, ⟨.stop web, none, true⟩, ⟨.start web 3, accepting, true⟩,
    ⟨.stop web, accepting, false⟩, ⟨.stop webTest, some fun _ => .noReply false, true⟩]

/-- A name that is taken for options is accepted like any other, and never loaded. -/
example :
    let h := Host.step (some "../lib/systemd/systemd".toList) Host.empty
      ⟨.start "-web".toList 1, accepting, true⟩
    h.jobs = [Request.start.job "-web".toList] ∧ h.loaded "-web".toList = none := by
  decide +kernel

end PacemakerCloud.CpeAgent

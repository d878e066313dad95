import PacemakerCloud.Qmf

/-!
# Matahari assemblies

`matahari.cpp` for one assembly.  The heartbeats of its host, and the connections of its three
objects, decide whether the assembly is running.  Times are in microseconds.
-/

namespace PacemakerCloud

open Foundation

inductive HeartbeatState where
  | init
  | notReceived
  | ok
  | seqBad
  deriving DecidableEq, Repr

/-- `GTimer`; a timer that is not active keeps the time at which it was stopped. -/
structure GTimer where
  begun : Nat
  ended : Option Nat
  deriving DecidableEq, Repr

namespace GTimer

def start (now : Nat) : GTimer := ⟨now, none⟩

def stop (timer : GTimer) (now : Nat) : GTimer := { timer with ended := some now }

def elapsed (timer : GTimer) (now : Nat) : Nat := timer.ended.getD now - timer.begun

end GTimer

/--
`Matahari` with the recovery record of its assembly.  `timers` are the armed timers that run
`heartbeat_check_tmo`, with their handles and the times when they are due.  `lastAccepted` is a
history variable: the time of the last heartbeat that was accepted.
-/
structure Matahari (σ : Type) where
  now : Nat
  hbState : HeartbeatState
  lastSequence : UInt32
  lastHeartbeat : GTimer
  connected : MhObject → Bool
  recover : Recover σ
  timers : List (Nat × Nat)
  timerCount : Nat
  healthcheckTimer : Option Nat
  lastAccepted : Option Nat

namespace Matahari

variable {σ : Type}

def healthcheckTimeout : Nat := 20 * usInSec

def checkPeriod : Nat := 4 * usInSec

/-- The constructor; `_last_sequence` is not initialised. -/
def create (recover : Recover σ) (now : Nat) (garbage : UInt32) : Matahari σ where
  now := now
  hbState := .init
  lastSequence := garbage
  lastHeartbeat := .start now
  connected _ := false
  recover := recover
  timers := []
  timerCount := 0
  healthcheckTimer := none
  lastAccepted := none

def timerAdd (m : Matahari σ) : Matahari σ :=
  { m with
    timers := m.timers ++ [(m.timerCount, m.now + checkPeriod)]
    timerCount := m.timerCount + 1
    healthcheckTimer := some m.timerCount }

def stateOnlineToOffline (m : Matahari σ) : Matahari σ :=
  { m with connected := fun _ => false, hbState := .init }

def transportDisconnect (m : Matahari σ) : Matahari σ :=
  -- only the timer whose handle was stored last is deleted
  { m with timers := m.timers.filter (m.healthcheckTimer ≠ some ·.1) }.stateOnlineToOffline

def heartbeatRecv (m : Matahari σ) (sequence : UInt32) : Matahari σ :=
  if m.hbState ≠ .ok then
    { m with
      lastSequence := sequence
      hbState := .ok
      lastHeartbeat := .start m.now
      lastAccepted := some m.now }
  else if m.lastSequence + 1 < sequence then { m with hbState := .seqBad }
  else if healthcheckTimeout < (m.lastHeartbeat.stop m.now).elapsed m.now then
    { m with
      lastSequence := sequence
      lastHeartbeat := m.lastHeartbeat.stop m.now
      hbState := .notReceived }
  else
    { m with
      lastSequence := sequence
      lastHeartbeat := .start m.now
      lastAccepted := some m.now }

def recoverCall (m : Matahari σ) : RecoverCall → Matahari σ
  | .restart => m.transportDisconnect
  | .stateChanging _ _ | .escalate => m

variable [Stopwatch σ]

def recoverSet (m : Matahari σ) (state : RecoverState) : Matahari σ :=
  (recoverStateSet m.recover m.now state).2.foldl recoverCall
    { m with recover := (recoverStateSet m.recover m.now state).1 }

def checkAge (m : Matahari σ) : Matahari σ :=
  if m.hbState = .ok ∧ healthcheckTimeout < m.lastHeartbeat.elapsed m.now then
    { m with hbState := .notReceived }
  else m

def checkState (m : Matahari σ) : Matahari σ :=
  if m.recover.state = .running then
    if m.checkAge.hbState ≠ .ok then m.checkAge.recoverSet .failed else m.checkAge
  else if m.hbState = .ok ∧ m.connected .rsc ∧ m.connected .serv ∧ m.connected .host then
    (m.recoverSet .running).timerAdd
  else m

def connectionEventHandler (m : Matahari σ) : Matahari σ := m.checkState

def heartbeatCheckTmo (m : Matahari σ) : Matahari σ :=
  if m.checkState.recover.state = .running then m.checkState.timerAdd else m.checkState

def hostEventHandler (m : Matahari σ) (schema : CString) (sequence : UInt32) : Matahari σ :=
  if schema = "heartbeat".toList then (m.heartbeatRecv sequence).checkState else m

/-- `instance_state_completion`, once the assembly has a transport. -/
def instanceStateCompletion (m : Matahari σ) (state : CString) : Matahari σ :=
  if state = "ACTIVE".toList then m else m.recoverSet .unknown

/-! ## Events -/

inductive Event where
  | heartbeat (sequence : UInt32)
  /-- An object finds its agent. -/
  | connect (object : MhObject)
  /-- The timer at a position of the list. -/
  | heartbeatCheckTmo (position : Nat)
  | instanceState (state : CString)
  /-- The agent of an object is lost. -/
  | lose (object : MhObject)
  | transportDisconnect
  deriving DecidableEq, Repr

/-- An object connects; it tells the handler if it was not connected. -/
def connect (m : Matahari σ) (object : MhObject) : Matahari σ :=
  if m.connected object then m
  else { m with connected := Function.update m.connected object true }.connectionEventHandler

def runTimer (m : Matahari σ) (position : Nat) : Matahari σ :=
  match m.timers[position]? with
  | some (_, due) =>
      if due ≤ m.now then { m with timers := m.timers.eraseIdx position }.heartbeatCheckTmo else m
  | none => m

def dispatch (m : Matahari σ) : Event → Matahari σ
  | .heartbeat sequence => m.hostEventHandler "heartbeat".toList sequence
  | .connect object => m.connect object
  | .heartbeatCheckTmo position => m.runTimer position
  | .instanceState state => m.instanceStateCompletion state
  | .lose object => { m with connected := Function.update m.connected object false }
  | .transportDisconnect => m.transportDisconnect

def wait (m : Matahari σ) (time : Nat) : Matahari σ := { m with now := m.now + time }

def step (m : Matahari σ) (e : Nat × Event) : Matahari σ := (m.wait e.1).dispatch e.2

def Reachable (m : Matahari σ) : Prop :=
  ∃ recover start garbage events time,
    m = (List.foldl step (create recover start garbage) events).wait time

end Matahari

end PacemakerCloud

import Mathlib.Tactic.Common

/-!
# The event mailbox

`StateMachine` of `util/StateMachine.h`: one pending event, which is the next
state and the data for its handler.  Clients raise events through a transition
table (`TRANSITIONS[currentState]`), handlers raise them directly.

`Call` lists the calls of `ScannerSM` that raise an external event, each with
its own table.
-/

namespace PiScan.Machine

inductive States
  | ST_LOAD
  | ST_SCAN
  | ST_HOLD
  | ST_RECEIVE
  | ST_MANUAL
  | ST_SAVEALL
  | ST_STOPPED
  deriving DecidableEq, Repr, Inhabited

def States.index : States → Nat
  | .ST_LOAD => 0
  | .ST_SCAN => 1
  | .ST_HOLD => 2
  | .ST_RECEIVE => 3
  | .ST_MANUAL => 4
  | .ST_SAVEALL => 5
  | .ST_STOPPED => 6

/-- What the `void*` of an `EventData` points to. -/
inductive EventData
  | manualEntryData (freq : Int) (modulation : String)
  | number (n : Int)
  deriving DecidableEq, Repr

structure StateMachine where
  currentState : States
  lastState : States
  evtSrcExternal : Bool
  eventGenerated : Bool
  pEventData : Option EventData
  run : Bool
  deriving DecidableEq, Repr

namespace StateMachine

def new : StateMachine :=
  { currentState := .ST_LOAD, lastState := .ST_LOAD, evtSrcExternal := false
    eventGenerated := false, pEventData := none, run := false }

/-- `StateMachine::InternalEvent`. -/
def internalEvent (newState : States) (pData : Option EventData) (m : StateMachine) :
    StateMachine :=
  { m with
    pEventData := pData
    eventGenerated := true
    lastState := m.currentState
    currentState := newState }

/-- The part of `StateMachine::ExternalEvent` under `_eventMutex`. -/
def externalEvent (newState : States) (pData : Option EventData) (m : StateMachine) :
    StateMachine :=
  { m.internalEvent newState pData with evtSrcExternal := true }

/-- `StateMachine::start`. -/
def start (m : StateMachine) : StateMachine :=
  { m with run := true }.internalEvent .ST_LOAD none

/-- `StateEngine` takes the event out before it runs the handler. -/
def takeEvent (m : StateMachine) : StateMachine :=
  { m with pEventData := none, eventGenerated := false }

/-- `StateEngine` after the handler. -/
def endHandler (m : StateMachine) : StateMachine := { m with evtSrcExternal := false }

/-- `currentState != lastState`. -/
def stateChanged (m : StateMachine) : Bool := m.currentState != m.lastState

variable (m : StateMachine)

@[simp] theorem currentState_takeEvent : m.takeEvent.currentState = m.currentState := rfl

@[simp] theorem evtSrcExternal_takeEvent : m.takeEvent.evtSrcExternal = m.evtSrcExternal := rfl

@[simp] theorem eventGenerated_takeEvent : m.takeEvent.eventGenerated = false := rfl

end StateMachine

/-! ## Calls -/

/-- The calls of `ScannerSM` that raise an event. -/
inductive Call
  | startScan
  | holdScan (index : List Int)
  | stopScanner
  | manualEntry (freq : Int) (modulation : String)
  deriving DecidableEq, Repr

/-- A table entry; `none` is `EVENT_IGNORED`. -/
abbrev Transition := Option States

namespace Call

/-- The table of `startScan`. -/
def startScanTransitions : List Transition :=
  [some .ST_SCAN, none, some .ST_SCAN, some .ST_SCAN, some .ST_SCAN, none, none]

/-- The table of `holdScan`. -/
def holdScanTransitions : List Transition :=
  [some .ST_HOLD, some .ST_HOLD, none, none, none, none, none]

/-- The table of `stopScanner`. -/
def stopScannerTransitions : List Transition :=
  [some .ST_SAVEALL, some .ST_SAVEALL, some .ST_SAVEALL, some .ST_SAVEALL, some .ST_SAVEALL,
    some .ST_SAVEALL, none]

/-- The table of `manualEntry`. -/
def manualEntryTransitions : List Transition :=
  [some .ST_MANUAL, some .ST_MANUAL, some .ST_MANUAL, some .ST_MANUAL, some .ST_MANUAL, none, none]

def transitions : Call → List Transition
  | startScan => startScanTransitions
  | holdScan _ => holdScanTransitions
  | stopScanner => stopScannerTransitions
  | manualEntry _ _ => manualEntryTransitions

/-- `TRANSITIONS[currentState]`. -/
def transition (call : Call) (currentState : States) : Transition :=
  (call.transitions[currentState.index]?).join

/-- The argument of `END_TRANSITION_MAP`. -/
def data : Call → Option EventData
  | manualEntry freq modulation => some (.manualEntryData freq modulation)
  | _ => none

/-- The state that a call asks for. -/
def target : Call → States
  | startScan => .ST_SCAN
  | holdScan _ => .ST_HOLD
  | stopScanner => .ST_SAVEALL
  | manualEntry _ _ => .ST_MANUAL

/-- A call raises its own event or none. -/
theorem transition_target {call : Call} {s next : States} (h : call.transition s = some next) :
    next = call.target := by
  cases call <;> cases s <;> cases h <;> rfl

/-- Stopping is possible from every state but the last. -/
theorem transition_stopScanner (s : States) :
    stopScanner.transition s = if s = .ST_STOPPED then none else some .ST_SAVEALL := by
  cases s <;> rfl

/-- **The tables alone make a stop final**: from `ST_SAVEALL` and `ST_STOPPED` no
call leads to a state that scans, holds, receives or takes a manual entry. -/
theorem transition_final {call : Call} {s next : States} (hs : s = .ST_SAVEALL ∨ s = .ST_STOPPED)
    (h : call.transition s = some next) : call = .stopScanner ∧ s = .ST_SAVEALL := by
  rcases hs with rfl | rfl
  · cases call <;> first | exact ⟨rfl, rfl⟩ | cases h
  · cases call <;> cases h

end Call

end PiScan.Machine

import PiScan.Machine.StateMachine
import PiScan.Scan.Database
import PiScan.Sigproc.Demodulator

/-!
# The scanner state machine

The handlers of `ScannerSM.cpp`.  Clients share with them the mailbox,
`_externalHold` and `_holdIndex`; everything else a handler touches is
`ThreadData`, which only the state thread changes.

A handler runs under `_eventMutex`, but the calls set the flag, store the index
and look up their table without that lock.  So each handler is cut into the
parts between two accesses to what is shared, in the order of the source:
`ST_Hold`, for instance, is `ST_Hold` (flag and index, under `_holdMutex`),
`holdEntry` (everything up to the squelch test), `holdDecision` (which reads the
flag again) and the event it raises.
-/

namespace PiScan.Machine

open Scan Sigproc TwosComplement

/-! ## Entries and the receiver -/

/-- `hasSignal` of the subclasses of `Entry`. -/
def hasSignal (e : Entry) (signal : Bool) (demod : Demodulator) :
    Except Fault (Bool × Demodulator) := do
  match e.type with
  | .dummy =>
    let demod ← demod.setTunerFrequency e.frequency
    return (false, demod)
  | .am =>
    let demod ← demod.setModem .AM
    let demod ← demod.setFrequency e.frequency
    demod.squelchThresholdMet signal
  | .fm | .pl _ | .dc _ =>
    let demod ← demod.setModem .NFM
    let demod ← demod.setFrequency e.frequency
    demod.squelchThresholdMet signal

def SQUELCH_TRIGGER_HITS : Nat := 25

/-- `ScannerContext::ScannerState`. -/
inductive ContextState
  | OTHER_STATE
  | SCAN
  | HOLD
  | RECEIVE
  deriving DecidableEq, Repr, Inhabited

/-- `ScannerContext` of `messages/context.h`. -/
structure ScannerContext where
  state : ContextState
  systemTag : String
  entryTag : String
  frequency : Int
  modulation : String
  entryIndex : String
  delayMS : Int
  lockout : Bool
  deriving DecidableEq, Repr, Inhabited

namespace ScannerContext

def new : ScannerContext :=
  { state := .OTHER_STATE, systemTag := "", entryTag := "", frequency := 0, modulation := ""
    entryIndex := "", delayMS := 0, lockout := false }

/-- `ScannerContext::clearFields`. -/
def clearFields (ctx : ScannerContext) : ScannerContext :=
  { ctx with systemTag := "", entryTag := "", frequency := 0, modulation := "", entryIndex := "" }

end ScannerContext

/-! ## The saved state -/

def SCAN_STATE_SCAN : Int := 0
def SCAN_STATE_HOLD : Int := 1
def SCAN_STATE_MANUAL : Int := 2

/-- `ScannerState` of `common/Configuration.h`. -/
structure ScannerState where
  scanState : Int
  manualFreq : Int
  manualModualtion : String
  holdIndex : List Int
  holdKey : String
  deriving DecidableEq, Repr, Inhabited

def ScannerState.new : ScannerState :=
  { scanState := SCAN_STATE_SCAN, manualFreq := 0, manualModualtion := "", holdIndex := []
    holdKey := "" }

/-! ## What only the state thread touches -/

/-- The members of `ScannerSM` that its handlers alone use, with the receiver,
the saved state, the systems file and the contexts that were sent. -/
structure ThreadData where
  systems : SystemList
  currentEntry : Option EntryPtr
  manualEntry : Option EntryPtr
  currentContext : ScannerContext
  manualMode : Bool
  timeoutStart : Int
  squelchHits : Nat
  demod : Demodulator
  state : ScannerState
  file : SystemsFile
  written : List SystemsFile
  sent : List ScannerContext

namespace ThreadData

def new (file : SystemsFile) (demod : Demodulator) : ThreadData :=
  { systems := .empty, currentEntry := none, manualEntry := none, currentContext := .new
    manualMode := false, timeoutStart := 0, squelchHits := 0, demod, state := .new, file
    written := [], sent := [] }

/-- `*_currentEntry`. -/
def entry (d : ThreadData) : Except Fault Entry :=
  match d.currentEntry with
  | none => .error .nullPointer
  | some p => .ok (d.systems.deref p)

/-- `_enableAudioOut`. -/
def enableAudioOut (en : Bool) (d : ThreadData) : Except Fault ThreadData := do
  let demod ← d.demod.squelchBreak en
  return { d with demod }

/-- `_currentEntry->hasSignal()`. -/
def entrySignal (signal : Bool) (d : ThreadData) : Except Fault (Bool × ThreadData) := do
  let e ← d.entry
  let (found, demod) ← hasSignal e signal d.demod
  return (found, { d with demod })

/-- `_currentEntry = _systems.getNextEntry()`. -/
def nextEntry (d : ThreadData) : Except Fault ThreadData := do
  let (p, systems) ← d.systems.getNextEntry 64
  return { d with systems, currentEntry := some p }

/-- `if(c) f();`. -/
def onlyIf (c : Bool) (f : ThreadData → Except Fault ThreadData) (d : ThreadData) :
    Except Fault ThreadData :=
  if c then f d else .ok d

/-- The tags of an entry, for `_broadcastContextUpdate`. -/
def entryTags (d : ThreadData) (e : Entry) : Except Fault ScannerContext :=
  if d.manualMode then
    .ok { d.currentContext with
      systemTag := "Manual", entryTag := "Manual entry", entryIndex := "MAN" }
  else
    match d.systems.systems[e.sysIndex]? with
    | none => .error .outOfRange
    | some s => .ok { d.currentContext with
        systemTag := s.tag
        entryTag := e.tag
        entryIndex := toString e.sysIndex ++ "-" ++ toString e.entryIndex }

/-- The context that `_broadcastContextUpdate` sends. -/
def newContext (d : ThreadData) : Except Fault ScannerContext :=
  if d.currentContext.state = .SCAN then .ok d.currentContext.clearFields
  else do
    let e ← d.entry
    let ctx ← d.entryTags e
    return { ctx with
      frequency := e.freq
      modulation := e.modulation
      delayMS := e.delayMS
      lockout := e.isLockedOut }

/-- `_broadcastContextUpdate`. -/
def broadcastContextUpdate (d : ThreadData) : Except Fault ThreadData := do
  let ctx ← d.newContext
  return { d with currentContext := ctx, sent := d.sent ++ [ctx] }

/-- The audio switch, the new context and, if `update`, its broadcast. -/
def enterState (audio : Bool) (state : ContextState) (update : Bool) (d : ThreadData) :
    Except Fault ThreadData := do
  let d ← d.enableAudioOut audio
  { d with currentContext := { d.currentContext with state } }.onlyIf update broadcastContextUpdate

/-! ### `ST_Load` -/

def load (d : ThreadData) : Except Fault ThreadData := do
  let systems ← d.systems.populateFromFile 64 d.file
  let systems ← systems.sortBins 64 d.demod.cubic.sampleRate
  return { d with systems }

/-! ### `ST_Scan` -/

/-- `if(currentState != lastState) _squelchHits = 0;`. -/
def resetHits (changed : Bool) (d : ThreadData) : ThreadData :=
  { d with squelchHits := if changed then 0 else d.squelchHits }

/-- Up to the store to `_externalHold`; the database is not empty. -/
def scanStart (d : ThreadData) : Except Fault ThreadData := do
  let d ← d.enableAudioOut false
  return { d with currentContext := { d.currentContext with state := .SCAN }, manualMode := false }

/-- The rest of `ST_Scan`, with the state it raises. -/
def scanEntry (changed signal : Bool) (d : ThreadData) : Except Fault (States × ThreadData) := do
  let d ← d.onlyIf changed broadcastContextUpdate
  let d ← d.onlyIf (d.squelchHits = 0 ∨ changed) nextEntry
  let (found, d) ← d.entrySignal signal
  if found then
    let d := { d with squelchHits := d.squelchHits + 1 }
    return (if SQUELCH_TRIGGER_HITS ≤ d.squelchHits then .ST_RECEIVE else .ST_SCAN, d)
  else return (.ST_SCAN, { d with squelchHits := 0 })

/-! ### `ST_Hold` -/

/-- `_currentEntry = _systems.getEntryByIndex(_holdIndex)`. -/
def indexEntry (index : List Int) (d : ThreadData) : Except Fault ThreadData := do
  let (p, systems) ← d.systems.getEntryByIndex 64 index
  return { d with systems, currentEntry := some p }

/-- `while(_currentEntry->isDummy())`.  A round over all bins that yields
nothing but dummies never ends. -/
def skipDummies : Nat → ThreadData → Except Fault ThreadData
  | 0, _ => .error .diverges
  | fuel + 1, d => do
    let e ← d.entry
    if e.isDummy then
      let (_, d) ← d.entrySignal false
      let d ← d.nextEntry
      skipDummies fuel d
    else .ok d

/-- `ST_Hold` after the index, up to the first decision. -/
def holdEntry (update signal : Bool) (d : ThreadData) : Except Fault (Bool × ThreadData) := do
  let d ← d.skipDummies (d.systems.rounds + 1)
  let d ← d.enterState false .HOLD update
  d.entrySignal signal

/-- The time since `timeoutStart`, as an `int` of milliseconds. -/
def elapsed (now : Int) (d : ThreadData) : Int := wrap 32 (now - d.timeoutStart)

/-- The `else if` chain of `ST_Hold`; `none` raises no event. -/
def holdDecision (signal externalHold evtSrcExternal : Bool) (now : Int) (d : ThreadData) :
    Except Fault (Option States) := do
  if signal then return some .ST_RECEIVE
  else if externalHold then return some .ST_HOLD
  else
    let e ← d.entry
    if e.isLockedOut then return some .ST_SCAN
    else if e.delayMS ≠ 0 then
      if d.elapsed now < e.delayMS then return some .ST_HOLD
      else if !evtSrcExternal then return some .ST_SCAN
      else return none
    else if !evtSrcExternal then return some .ST_SCAN
    else return none

/-! ### `ST_Receive` -/

/-- The rest of `ST_Receive`, with the state it raises. -/
def receiveEntry (signal : Bool) (now : Int) (d : ThreadData) :
    Except Fault (States × ThreadData) := do
  let (found, d) ← d.entrySignal signal
  if found then return (.ST_RECEIVE, d)
  else return (.ST_HOLD, { d with timeoutStart := now })

/-! ### `ST_Manual` -/

/-- The entry that `ST_Manual` makes. -/
def makeManualEntry (freq : Int) (modulation : String) : Entry :=
  if modulation = "FM" ∨ modulation = "NFM" then Entry.fmChannel 64 freq "" false 0
  else if modulation = "AM" then Entry.amChannel 64 freq "" false 0
  else Entry.fmChannel 64 freq "" false 0

def manual (freq : Int) (modulation : String) (d : ThreadData) : ThreadData :=
  let p := EntryPtr.owned (makeManualEntry freq modulation)
  { d with manualEntry := some p, currentEntry := some p, manualMode := true }

/-! ### `ST_SaveAll` -/

/-- The state that `ST_SaveAll` puts into `ScannerState`. -/
def savedState (externalHold : Bool) (d : ThreadData) : Except Fault ScannerState := do
  let state := { d.state with
    holdIndex := [], holdKey := "", manualFreq := 0, manualModualtion := "" }
  if d.manualMode then
    let e ← d.entry
    return { state with
      scanState := SCAN_STATE_MANUAL, manualFreq := e.freq, manualModualtion := e.modulation }
  else if externalHold then
    let e ← d.entry
    return { state with
      scanState := SCAN_STATE_HOLD
      holdIndex := [wrap 32 e.sysIndex, wrap 32 e.entryIndex]
      holdKey := e.key }
  else return { state with scanState := SCAN_STATE_SCAN }

def saveAll (externalHold : Bool) (d : ThreadData) : Except Fault ThreadData := do
  let state ← d.savedState externalHold
  let file := d.systems.writeToFile
  return { d with state, file, written := d.written ++ [file] }

end ThreadData

/-! ## The machine -/

structure ScannerSM extends StateMachine where
  externalHold : Bool
  holdIndex : List Int
  data : ThreadData

/-- Where the state thread stands: between two activations, or in a handler
before its next access to what it shares. -/
inductive Pc
  | idle
  | scan
  | hold (update : Bool)
  | holdDecision (signal : Bool)
  | holdEvent (next : Option States)
  | receive
  | manual
  | saveAll
  | ended
  | crashed (f : Fault)
  deriving DecidableEq, Repr

namespace ScannerSM

/-- The machine right after `start()`. -/
def start (data : ThreadData) : ScannerSM :=
  { StateMachine.new.start with externalHold := false, holdIndex := [], data }

/-- `InternalEvent` at the end of a handler. -/
def raise (next : States) (m : ScannerSM) : ScannerSM :=
  { m with toStateMachine := (m.internalEvent next none).endHandler }

/-- The end of a handler that raises no event. -/
def finish (m : ScannerSM) : ScannerSM := { m with toStateMachine := m.endHandler }

def ST_Load (m : ScannerSM) : Except Fault (Pc × ScannerSM) := do
  let data ← m.data.load
  return (.idle, { m with data }.finish)

def ST_Scan (m : ScannerSM) : Except Fault (Pc × ScannerSM) := do
  let m := { m with data := m.data.resetHits m.stateChanged }
  if m.data.systems.size = 0 then
    let m := { m with
      toStateMachine := (m.internalEvent .ST_MANUAL (some (.number 100000000))).endHandler }
    return (.idle, m)
  else
    let data ← m.data.scanStart
    return (.scan, { m with externalHold := false, data })

def ST_Hold (m : ScannerSM) : Except Fault (Pc × ScannerSM) := do
  if m.externalHold ∧ 0 < m.holdIndex.length then
    let data ← m.data.indexEntry m.holdIndex
    return (.hold true, { m with holdIndex := [], data })
  else return (.hold m.stateChanged, m)

/-- `if(_currentEntry->isLockedOut()) InternalEvent(ST_SCAN);`. -/
def raiseIfLocked (locked : Bool) (m : ScannerSM) : ScannerSM :=
  { m with
    toStateMachine := if locked then m.internalEvent .ST_SCAN none else m.toStateMachine }

/-- A locked entry raises `ST_SCAN`, and the handler goes on. -/
def ST_Receive (m : ScannerSM) : Except Fault (Pc × ScannerSM) := do
  let e ← m.data.entry
  let m := m.raiseIfLocked e.isLockedOut
  let data ← m.data.enterState true .RECEIVE m.stateChanged
  return (.receive, { m with data })

def ST_Manual (data : Option EventData) (m : ScannerSM) : Except Fault (Pc × ScannerSM) :=
  match data with
  | none => .error .nullPointer
  | some (.number _) => .error .badCast
  | some (.manualEntryData freq modulation) =>
    .ok (.manual, { m with externalHold := true, data := m.data.manual freq modulation })

def ST_SaveAll (m : ScannerSM) : Except Fault (Pc × ScannerSM) := do
  let data ← m.data.saveAll m.externalHold
  return (.saveAll, { m with data })

/-- `stop(false)`. -/
def ST_Stopped (m : ScannerSM) : Except Fault (Pc × ScannerSM) :=
  .ok (.ended, { m with run := false }.finish)

/-- `GetStateMap`: the handler of a state. -/
def stateMap (h : States) (data : Option EventData) (m : ScannerSM) :
    Except Fault (Pc × ScannerSM) :=
  match h with
  | .ST_LOAD => m.ST_Load
  | .ST_SCAN => m.ST_Scan
  | .ST_HOLD => m.ST_Hold
  | .ST_RECEIVE => m.ST_Receive
  | .ST_MANUAL => m.ST_Manual data
  | .ST_SAVEALL => m.ST_SaveAll
  | .ST_STOPPED => m.ST_Stopped

/-- `StateEngine`: the event is taken and its handler starts. -/
def stateEngine (m : ScannerSM) : Except Fault (Pc × ScannerSM) :=
  { m with toStateMachine := m.takeEvent }.stateMap m.currentState m.pEventData

/-- What a handler reads from outside: the squelch and the clock. -/
structure Reading where
  signal : Bool
  now : Int
  deriving DecidableEq, Repr

/-- The next part of the handler that stands at `pc`. -/
def resume (r : Reading) (pc : Pc) (m : ScannerSM) : Except Fault (Pc × ScannerSM) := do
  match pc with
  | .scan =>
    let (next, data) ← m.data.scanEntry m.stateChanged r.signal
    return (.idle, { m with data }.raise next)
  | .hold update =>
    let (found, data) ← m.data.holdEntry update r.signal
    return (.holdDecision found, { m with data })
  | .holdDecision found =>
    let next ← m.data.holdDecision found m.externalHold m.evtSrcExternal r.now
    return (.holdEvent next, m)
  | .holdEvent (some next) => return (.idle, m.raise next)
  | .holdEvent none => return (.idle, m.finish)
  | .receive =>
    let (next, data) ← m.data.receiveEntry r.signal r.now
    return (.idle, { m with data }.raise next)
  | .manual => return (.idle, m.raise .ST_HOLD)
  | .saveAll => return (.idle, m.raise .ST_STOPPED)
  | .idle | .ended | .crashed _ => return (pc, m)

end ScannerSM

end PiScan.Machine

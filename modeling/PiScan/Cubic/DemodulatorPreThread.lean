import PiScan.Cubic.SDRPostThread
import PiScan.Lib.TwosComplement

/-!
# The threads of a modem

`DemodulatorPreThread` mixes and resamples the blocks of a modem for `DemodulatorThread`.
Where the type, the bandwidth or a rate changes it sends a command to its
`DemodulatorWorkerThread`, which makes the modem and its kit and answers with both; they
reach `DemodulatorThread` with the blocks, and it deletes the ones they replace.
-/

namespace PiScan.Cubic.DemodulatorPreThread

open Runs TwosComplement SDRPostThread

/-! ## Modems and kits -/

/-- The modems that `OnInit` registers; the digital ones are an option of the build. -/
inductive DemodType
  | FM | NBFM | FMS | AM | LSB | USB | DSB | IQ
  deriving DecidableEq, Repr

def MIN_BANDWIDTH : Nat := 500

def DemodType.checkSampleRate (sampleRate audioSampleRate : Nat) : DemodType → Nat
  | .FMS =>
    if sampleRate < 100000 then 100000 else if sampleRate < 1500 then 1500 else sampleRate
  | .LSB | .USB =>
    if sampleRate < MIN_BANDWIDTH then MIN_BANDWIDTH
    else if sampleRate % 2 = 0 then sampleRate else sampleRate + 1
  | .IQ => audioSampleRate
  | .FM | .NBFM | .AM | .DSB => if sampleRate < MIN_BANDWIDTH then MIN_BANDWIDTH else sampleRate

structure Modem where
  name : DemodType
  deleted : Bool
  deriving DecidableEq, Repr

/-- `modem` is the modem that built the kit: no other knows how to use or dispose of it. -/
structure ModemKit where
  modem : Nat
  sampleRate : Nat
  audioSampleRate : Nat
  deleted : Bool
  deriving DecidableEq, Repr

/-- The modems and kits made so far; a pointer is the place of its object. -/
structure Heap where
  modems : List Modem
  kits : List ModemKit
  deriving DecidableEq, Repr

/-- What goes wrong where a pointer is followed. -/
inductive Fault
  | null
  | deleted
  | unmatched
  deriving DecidableEq, Repr

namespace Heap

def modem (h : Heap) : Option Nat → Except Fault Modem
  | none => .error .null
  | some m =>
    match h.modems[m]? with
    | none => .error .deleted
    | some modem => if modem.deleted then .error .deleted else .ok modem

def kit (h : Heap) : Option Nat → Except Fault ModemKit
  | none => .error .null
  | some k =>
    match h.kits[k]? with
    | none => .error .deleted
    | some kit => if kit.deleted then .error .deleted else .ok kit

/-- `Modem::makeModem`; an empty type is not registered, and the name of the null modem
is asked for. -/
def makeModem (h : Heap) : Option DemodType → Except Fault (Heap × Nat)
  | none => .error .null
  | some name => .ok ({ h with modems := h.modems ++ [⟨name, false⟩] }, h.modems.length)

/-- `Modem::buildKit`. -/
def buildKit (h : Heap) (m sampleRate audioSampleRate : Nat) : Heap × Nat :=
  ({ h with kits := h.kits ++ [⟨m, sampleRate, audioSampleRate, false⟩] }, h.kits.length)

/-- `cModem->disposeKit(kit)`. -/
def disposeKit (h : Heap) (cModem : Option Nat) (k : Nat) : Except Fault Heap := do
  let _ ← h.modem cModem
  let kit ← h.kit (some k)
  if cModem = some kit.modem then
    .ok { h with kits := h.kits.set k { kit with deleted := true } }
  else .error .unmatched

/-- `delete cModem`. -/
def deleteModem (h : Heap) : Option Nat → Except Fault Heap
  | none => .ok h
  | some m => do
    let modem ← h.modem (some m)
    .ok { h with modems := h.modems.set m { modem with deleted := true } }

/-- A call of the modem with the kit. -/
def callModem (h : Heap) (cModem cModemKit : Option Nat) : Except Fault Unit := do
  let _ ← h.modem cModem
  let kit ← h.kit cModemKit
  if cModem = some kit.modem then .ok () else .error .unmatched

end Heap

/-! ## Messages between the threads -/

inductive CommandKind
  | BUILD_FILTERS
  | MAKE_DEMOD
  deriving DecidableEq, Repr

/-- `DemodulatorWorkerThreadCommand`; nobody reads its frequency. -/
structure Command where
  cmd : CommandKind
  sampleRate : Nat
  bandwidth : Nat
  audioSampleRate : Nat
  demodType : Option DemodType
  deriving DecidableEq, Repr

/-- `DemodulatorWorkerThreadResult`.  The resampler is given by its ratio, from the
second rate to the first. -/
structure Result where
  sampleRate : Nat
  bandwidth : Nat
  modem : Option Nat
  modemKit : Option Nat
  modemName : Option DemodType
  iqResampler : Option (Nat × Nat)
  deriving DecidableEq, Repr

/-- `DemodulatorThreadPostIQData`: the block `inp`, mixed (down or up, at the frequency
that the shifter had) and resampled to `size` samples. -/
structure PostIQData (F : Type) where
  modem : Option Nat
  modemKit : Option Nat
  sampleRate : Nat
  inp : DemodulatorThreadIQData F
  mixed : Option (Bool × Option (Nat × Nat))
  resampler : Nat × Nat
  size : Nat

variable {F : Type}

/-! ## The worker -/

/-- The commands that a pass of the worker's loop has taken, of each kind the last. -/
structure Batch where
  filterCommand : Option Command
  demodCommand : Option Command
  deriving DecidableEq, Repr

inductive WorkStep
  | pop (batch : Batch)
  | empty (batch : Batch)
  | build (batch : Batch)
  | push (result : Result)
  deriving DecidableEq, Repr

structure Worker where
  cModem : Option Nat
  cModemKit : Option Nat
  cModemName : Option DemodType
  step : WorkStep
  deriving DecidableEq, Repr

def Batch.take (batch : Batch) (command : Command) : Batch :=
  match command.cmd with
  | .BUILD_FILTERS => { batch with filterCommand := some command }
  | .MAKE_DEMOD => { batch with demodCommand := some command }

/-- The command that decides on the kit, with `makeDemod || filterChanged`. -/
def Batch.leading (batch : Batch) : Option Command := batch.demodCommand <|> batch.filterCommand

/-- The modem for the batch: a new one, or that of before. -/
def Worker.makeDemod (w : Worker) (h : Heap) (batch : Batch) : Except Fault (Heap × Worker) :=
  match batch.demodCommand with
  | none => .ok (h, w)
  | some command => do
    let (h, m) ← h.makeModem command.demodType
    .ok (h, { w with cModem := some m, cModemName := command.demodType })

/-- The kit, with `result.bandwidth`. -/
def Worker.makeKit (w : Worker) (h : Heap) (batch : Batch) :
    Except Fault (Heap × Worker × Nat) :=
  let wanted := batch.demodCommand.filter fun c => c.bandwidth ≠ 0 ∧ c.audioSampleRate ≠ 0
  let wanted := wanted <|>
    batch.filterCommand.filter fun c => c.bandwidth ≠ 0 ∧ c.audioSampleRate ≠ 0
  match wanted, w.cModem with
  | some c, some m => do
    let modem ← h.modem (some m)
    let bandwidth := modem.name.checkSampleRate c.bandwidth c.audioSampleRate
    let (h, k) := h.buildKit m bandwidth c.audioSampleRate
    .ok (h, { w with cModemKit := some k }, bandwidth)
  | some _, none => .ok (h, { w with cModemKit := none }, 0)
  | none, _ =>
    .ok (h, if batch.demodCommand.isSome then { w with cModemKit := none } else w, 0)

/-- `clearRebuildKit`, and the resampler with the final `result.bandwidth`. -/
def Worker.makeResampler (w : Worker) (h : Heap) (command : Command) (sampleRate bandwidth : Nat) :
    Except Fault (Nat × Option (Nat × Nat)) :=
  match w.cModem with
  | none => .ok (bandwidth, none)
  | some m => do
    let modem ← h.modem (some m)
    if sampleRate ≠ 0 ∧ bandwidth ≠ 0 then
      let bandwidth := modem.name.checkSampleRate bandwidth command.audioSampleRate
      .ok (bandwidth, some (bandwidth, sampleRate))
    else .ok (bandwidth, none)

/-- The answer to a batch that `command` leads. -/
def Worker.build (w : Worker) (h : Heap) (batch : Batch) (command : Command) :
    Except Fault (Heap × Worker) := do
  let (h, w) ← w.makeDemod h batch
  let (h, w, bandwidth) ← w.makeKit h batch
  let (bandwidth, iqResampler) ← w.makeResampler h command command.sampleRate bandwidth
  let result : Result :=
    { sampleRate := command.sampleRate, bandwidth := bandwidth, modem := w.cModem
      modemKit := w.cModemKit, modemName := w.cModemName, iqResampler := iqResampler }
  .ok (h, { w with step := .push result })

/-! ## The demodulator thread -/

structure DemodulatorThread where
  cModem : Option Nat
  cModemKit : Option Nat
  deriving DecidableEq, Repr

namespace DemodulatorThread

def takeKit (d : DemodulatorThread) (h : Heap) (inp : PostIQData F) :
    Except Fault (Heap × DemodulatorThread) :=
  if inp.modemKit.isSome ∧ inp.modemKit ≠ d.cModemKit then do
    let h ← match d.cModemKit with
      | none => .ok h
      | some k => h.disposeKit d.cModem k
    .ok (h, { d with cModemKit := inp.modemKit })
  else .ok (h, d)

def takeModem (d : DemodulatorThread) (h : Heap) (inp : PostIQData F) :
    Except Fault (Heap × DemodulatorThread) :=
  if inp.modem.isSome ∧ inp.modem ≠ d.cModem then do
    let h ← h.deleteModem d.cModem
    .ok (h, { d with cModem := inp.modem })
  else .ok (h, d)

/-- A pass of the loop in `DemodulatorThread::run`, as far as it concerns the modem. -/
def demodulate (d : DemodulatorThread) (h : Heap) (inp : PostIQData F) :
    Except Fault (Heap × DemodulatorThread) :=
  if inp.size = 0 then .ok (h, d)
  else do
    let (h, d) ← d.takeKit h inp
    let (h, d) ← d.takeModem h inp
    if d.cModem.isSome ∧ d.cModemKit.isSome then
      let _ ← h.callModem d.cModem d.cModemKit
      .ok (h, d)
    else .ok (h, d)

end DemodulatorThread

/-! ## The thread and its callers -/

/-- The setters store a value and raise a flag, or the other way round. -/
inductive Call
  | setDemodType (demodType : DemodType)
  | setFrequency (freq : Int)
  | setSampleRate (sampleRate : Nat)
  | setBandwidth (bandwidth : Nat)
  | setAudioSampleRate (rate : Nat)
  deriving DecidableEq, Repr

/-- Where the thread is in its loop, with the block it has taken. -/
inductive PreStep (F : Type)
  | pop
  | testFrequency (inp : DemodulatorThreadIQData F)
  | copyFrequency (inp : DemodulatorThreadIQData F)
  | clearFrequency (inp : DemodulatorThreadIQData F)
  | rates (inp : DemodulatorThreadIQData F)
  | test (inp : DemodulatorThreadIQData F)
  | command (inp : DemodulatorThreadIQData F) (cmd : CommandKind)
  | push (inp : DemodulatorThreadIQData F) (command : Command)
  | shift (inp : DemodulatorThreadIQData F)
  | send (inp : DemodulatorThreadIQData F)
  | pushPost (inp : DemodulatorThreadIQData F) (resamp : PostIQData F)
  | drain (inp : DemodulatorThreadIQData F)

/-- Callers that have made the first store of a call are `pending`.  The shifter is given
by the shift and the rate that its frequency was set for.  `undrained` counts the blocks
taken since the thread last found no result; the code has no such counter. -/
structure State (F : Type) where
  newSampleRate : Nat
  newFrequency : Int
  newBandwidth : Nat
  newAudioSampleRate : Nat
  newDemodType : Option DemodType
  sampleRateChanged : Bool
  frequencyChanged : Bool
  bandwidthChanged : Bool
  audioSampleRateChanged : Bool
  demodTypeChanged : Bool
  pending : List Call
  currentSampleRate : Nat
  currentFrequency : Int
  currentBandwidth : Nat
  currentAudioSampleRate : Nat
  demodType : Option DemodType
  initialized : Bool
  cModem : Option Nat
  cModemKit : Option Nat
  iqResampler : Option (Nat × Nat)
  shiftFrequency : Int
  freqShifter : Option (Nat × Nat)
  step : PreStep F
  workerQueue : List Command
  workerResults : List Result
  iqOutputQueue : List (PostIQData F)
  worker : Worker
  demodulator : DemodulatorThread
  heap : Heap
  undrained : Nat

/-- A step of a caller, of the thread, of its worker or of the demodulator thread.  Other
code decides on the blocks, the sample rates of the audio thread and the number of
resampled samples. -/
inductive Label (F : Type)
  | call (c : Call)
  | finish (i : Nat)
  | block (inp : DemodulatorThreadIQData F)
  | rates (rate rate' rate'' : Nat)
  | resample (numWritten : Nat)
  | pre
  | work
  | demodulate

def WORKER_QUEUE_ITEMS : Nat := 2

def WORKER_RESULTS_ITEMS : Nat := 100

def IQ_OUTPUT_ITEMS : Nat := 100

namespace State

/-- The constructors, with the threads at the head of their loops. -/
def start : State F where
  newSampleRate := 0
  newFrequency := 0
  newBandwidth := 0
  newAudioSampleRate := 0
  newDemodType := none
  sampleRateChanged := false
  frequencyChanged := false
  bandwidthChanged := false
  audioSampleRateChanged := false
  demodTypeChanged := false
  pending := []
  currentSampleRate := 0
  currentFrequency := 0
  currentBandwidth := 0
  currentAudioSampleRate := 0
  demodType := none
  initialized := false
  cModem := none
  cModemKit := none
  iqResampler := none
  shiftFrequency := 0
  freqShifter := none
  step := .pop
  workerQueue := []
  workerResults := []
  iqOutputQueue := []
  worker := ⟨none, none, none, .pop ⟨none, none⟩⟩
  demodulator := ⟨none, none⟩
  heap := ⟨[], []⟩
  undrained := 0

def goto (s : State F) (step : PreStep F) : State F := { s with step := step }

/-- The first store of a call. -/
def begin (s : State F) (c : Call) : State F :=
  let s := { s with pending := s.pending ++ [c] }
  match c with
  | .setDemodType demodType => { s with newDemodType := some demodType }
  | .setFrequency _ => { s with frequencyChanged := true }
  | .setSampleRate _ => { s with sampleRateChanged := true }
  | .setBandwidth _ => { s with bandwidthChanged := true }
  | .setAudioSampleRate _ => { s with audioSampleRateChanged := true }

/-- The second store of the `i`th pending call. -/
def finish (s : State F) (i : Nat) (c : Call) : State F :=
  let s := { s with pending := s.pending.eraseIdx i }
  match c with
  | .setDemodType _ => { s with demodTypeChanged := true }
  | .setFrequency freq => { s with newFrequency := freq }
  | .setSampleRate sampleRate => { s with newSampleRate := sampleRate }
  | .setBandwidth bandwidth => { s with newBandwidth := bandwidth }
  | .setAudioSampleRate rate => { s with newAudioSampleRate := rate }

/-- The rate of the block differs from the one that the filters are for. -/
def takeSampleRate (s : State F) (inp : DemodulatorThreadIQData F) : State F :=
  if inp.sampleRate = s.currentSampleRate then s
  else
    { s with
      newSampleRate := inp.sampleRate
      sampleRateChanged := s.sampleRateChanged || inp.sampleRate != 0 }

/-- `parent->getAudioSampleRate()` answers `rate`, then `rate'` and `rate''`. -/
def takeAudioSampleRate (s : State F) (rate rate' rate'' : Nat) : State F :=
  if s.newAudioSampleRate = 0 then
    { s with
      newAudioSampleRate := rate
      audioSampleRateChanged := s.audioSampleRateChanged || rate != 0 }
  else if rate ≠ s.newAudioSampleRate ∧ rate' ≠ 0 then
    { s with newAudioSampleRate := rate'', audioSampleRateChanged := true }
  else s

def settled (s : State F) : Bool :=
  s.newSampleRate != 0 && s.newAudioSampleRate != 0 && s.newBandwidth != 0

/-- Whether a command is due, and which.  `shouldRebuildKit` is never set: only writing
a setting of a modem would do that. -/
def test (s : State F) (inp : DemodulatorThreadIQData F) : Except Fault (State F) :=
  if s.demodTypeChanged && s.settled then .ok (s.goto (.command inp .MAKE_DEMOD))
  else if s.cModemKit.isSome && s.cModem.isSome then
    if s.bandwidthChanged || s.sampleRateChanged || s.audioSampleRateChanged then
      if s.settled then .ok (s.goto (.command inp .BUILD_FILTERS)) else .ok (s.goto (.shift inp))
    else do
      let _ ← s.heap.modem s.cModem
      .ok (s.goto (.shift inp))
  else .ok (s.goto (.shift inp))

/-- The command is made of what the callers asked for last, and their flags are lowered. -/
def makeCommand (s : State F) (inp : DemodulatorThreadIQData F) (cmd : CommandKind) : State F :=
  let command : Command :=
    { cmd := cmd, sampleRate := s.newSampleRate, bandwidth := s.newBandwidth
      audioSampleRate := s.newAudioSampleRate
      demodType := match cmd with | .MAKE_DEMOD => s.newDemodType | .BUILD_FILTERS => none }
  let s := { s with sampleRateChanged := false, audioSampleRateChanged := false }
  match cmd with
  | .MAKE_DEMOD => { s with demodType := s.newDemodType, step := .push inp command }
  | .BUILD_FILTERS => { s with bandwidthChanged := false, step := .push inp command }

/-- The command is in the queue. -/
def pushed (s : State F) (inp : DemodulatorThreadIQData F) (command : Command) : State F :=
  let s := { s with workerQueue := s.workerQueue ++ [command], step := .shift inp }
  match command.cmd with
  | .MAKE_DEMOD =>
    { s with cModem := none, cModemKit := none, demodTypeChanged := false, initialized := false }
  | .BUILD_FILTERS => s

/-- `(int) ((double) (inp->sampleRate / 2) * 1.5)`. -/
def reach (sampleRate : Nat) : Nat := sampleRate / 2 * 3 / 2

/-- Shift the requested frequency into the centre, and skip the block where it is too far. -/
def shift (s : State F) (inp : DemodulatorThreadIQData F) : State F :=
  let s :=
    if s.currentFrequency - inp.frequency = s.shiftFrequency then s
    else
      let shiftFrequency := wrap 32 (s.currentFrequency - inp.frequency)
      if shiftFrequency.natAbs ≤ reach inp.sampleRate then
        { s with
          shiftFrequency := shiftFrequency
          freqShifter := some (shiftFrequency.natAbs, inp.sampleRate) }
      else { s with shiftFrequency := shiftFrequency }
  if s.cModem.isSome ∧ s.cModemKit.isSome ∧ reach inp.sampleRate < s.shiftFrequency.natAbs then
    s.goto .pop
  else s.goto (.send inp)

/-- `nco_crcf_mix_block_up` or `nco_crcf_mix_block_down`. -/
def mixed (s : State F) : Option (Bool × Option (Nat × Nat)) :=
  if s.shiftFrequency = 0 then none else some (decide (0 < s.shiftFrequency), s.freqShifter)

/-- Mix and resample the block. -/
def send (s : State F) (inp : DemodulatorThreadIQData F) (numWritten : Nat) :
    Except Fault (State F) :=
  if inp.data ≠ [] ∧ inp.sampleRate = s.currentSampleRate ∧ s.cModem.isSome ∧ s.cModemKit.isSome
  then
    match s.iqResampler with
    | none => .error .null
    | some resampler => do
      let _ ← s.heap.modem s.cModem
      .ok (s.goto (.pushPost inp
        { modem := s.cModem, modemKit := s.cModemKit, sampleRate := s.currentBandwidth
          inp := inp, mixed := s.mixed, resampler := resampler, size := numWritten }))
  else .ok (s.goto (.drain inp))

/-- One worker result. -/
def takeResult (s : State F) (inp : DemodulatorThreadIQData F) (result : Result) :
    Except Fault (State F) := do
  let currentAudioSampleRate ←
    if result.modemKit.isSome then (s.heap.kit result.modemKit).map (·.audioSampleRate)
    else .ok s.currentAudioSampleRate
  let cModem := result.modem <|> s.cModem
  .ok
    { s with
      iqResampler := result.iqResampler <|> s.iqResampler
      cModem := cModem
      cModemKit := result.modemKit <|> s.cModemKit
      currentAudioSampleRate := currentAudioSampleRate
      currentBandwidth := if result.bandwidth ≠ 0 then result.bandwidth else s.currentBandwidth
      currentSampleRate := if result.sampleRate ≠ 0 then result.sampleRate else s.currentSampleRate
      demodType := result.modemName <|> s.demodType
      demodTypeChanged := s.demodTypeChanged && result.modemName.isNone
      shiftFrequency := wrap 32 (inp.frequency - 1)
      initialized := cModem.isSome }

/-- The steps of the thread in which nobody else takes part. -/
def pre (s : State F) : Option (Except Fault (State F)) :=
  match s.step with
  | .testFrequency inp =>
    some (.ok (s.goto (if s.frequencyChanged then .copyFrequency inp else .rates inp)))
  | .copyFrequency inp =>
    some (.ok { s with currentFrequency := s.newFrequency, step := .clearFrequency inp })
  | .clearFrequency inp => some (.ok { s with frequencyChanged := false, step := .rates inp })
  | .test inp => some (s.test inp)
  | .command inp cmd => some (.ok (s.makeCommand inp cmd))
  | .push inp command =>
    if s.workerQueue.length < WORKER_QUEUE_ITEMS then some (.ok (s.pushed inp command)) else none
  | .shift inp => some (.ok (s.shift inp))
  | .pushPost inp resamp =>
    if s.iqOutputQueue.length < IQ_OUTPUT_ITEMS then
      some (.ok { s with iqOutputQueue := s.iqOutputQueue ++ [resamp], step := .drain inp })
    else none
  | .drain inp =>
    match s.workerResults with
    | [] => some (.ok { s with step := .pop, undrained := 0 })
    | result :: results => some ({ s with workerResults := results }.takeResult inp result)
  | .pop | .rates _ | .send _ => none

/-- A step of the worker. -/
def work (s : State F) : Option (Except Fault (State F)) :=
  match s.worker.step with
  | .pop batch =>
    match s.workerQueue with
    | [] => none
    | command :: commands =>
      some (.ok { s with
        workerQueue := commands, worker := { s.worker with step := .empty (batch.take command) } })
  | .empty batch =>
    some (.ok { s with
      worker := { s.worker with
        step := if s.workerQueue.isEmpty then .build batch else .pop batch } })
  | .build batch =>
    match batch.leading with
    | none => some (.ok { s with worker := { s.worker with step := .pop ⟨none, none⟩ } })
    | some command =>
      some ((s.worker.build s.heap batch command).map fun r =>
        { s with heap := r.1, worker := r.2 })
  | .push result =>
    if s.workerResults.length < WORKER_RESULTS_ITEMS then
      some (.ok { s with
        workerResults := s.workerResults ++ [result]
        worker := { s.worker with step := .pop ⟨none, none⟩ } })
    else none

def next (s : State F) : Label F → Option (Except Fault (State F))
  | .call c => some (.ok (s.begin c))
  | .finish i => (s.pending[i]?).map fun c => .ok (s.finish i c)
  | .block inp =>
    match s.step with
    | .pop => some (.ok { s with step := .testFrequency inp, undrained := s.undrained + 1 })
    | _ => none
  | .rates rate rate' rate'' =>
    match s.step with
    | .rates inp =>
      some (.ok (((s.takeSampleRate inp).takeAudioSampleRate rate rate' rate'').goto (.test inp)))
    | _ => none
  | .resample numWritten =>
    match s.step with
    | .send inp => some (s.send inp numWritten)
    | _ => none
  | .pre => s.pre
  | .work => s.work
  | .demodulate =>
    match s.iqOutputQueue with
    | [] => none
    | inp :: rest =>
      some ((s.demodulator.demodulate s.heap inp).map fun r =>
        { s with iqOutputQueue := rest, heap := r.1, demodulator := r.2 })

def Step (s : State F) (l : Label F) (t : State F) : Prop := s.next l = some (.ok t)

end State

end PiScan.Cubic.DemodulatorPreThread

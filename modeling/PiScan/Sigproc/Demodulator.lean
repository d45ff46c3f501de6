import PiScan.Scan.Entry

/-!
# The demodulator

`Demodulator` of `sigproc/Demodulator.h` over the parts of the vendored receiver
it drives: the tuner (`CubicSDR`) and the modem manager (`DemodulatorMgr`).

Modems are positions in the list `demods` of the manager.  Three values say
which modem is meant: `currentModem` of the demodulator, and `currentModem` and
`activeContextModem` of the manager.
-/

namespace PiScan.Sigproc

open TwosComplement

inductive Modulation
  | NFM
  | FM
  | AM
  deriving DecidableEq, Repr, Inhabited

/-! ## The tuner -/

/-- `CubicSDR`; `sdrThread` lists the frequencies handed to the SDR thread. -/
structure CubicSDR where
  frequency : Int
  sampleRate : Int
  sdrThread : List Int
  deriving DecidableEq, Repr, Inhabited

/-- `CubicSDR::setFrequency`. -/
def CubicSDR.setFrequency (freq : Int) (cubic : CubicSDR) : CubicSDR :=
  let freq := if freq < cubic.sampleRate.tdiv 2 then cubic.sampleRate.tdiv 2 else freq
  { cubic with frequency := freq, sdrThread := cubic.sdrThread ++ [freq] }

/-! ## The modems -/

structure DemodulatorInstance where
  active : Bool
  muted : Bool
  bandwidth : Int
  frequency : Int
  deriving DecidableEq, Repr, Inhabited

namespace DemodulatorInstance

def setActive (state : Bool) (demod : DemodulatorInstance) : DemodulatorInstance :=
  { demod with active := state }

def run (demod : DemodulatorInstance) : DemodulatorInstance := { demod with active := true }

def setMuted (muted : Bool) (demod : DemodulatorInstance) : DemodulatorInstance :=
  { demod with muted }

def setFrequency (freq : Int) (demod : DemodulatorInstance) : DemodulatorInstance :=
  { demod with
    frequency := if freq - demod.bandwidth.tdiv 2 ≤ 0 then demod.bandwidth.tdiv 2 else freq }

@[simp] theorem bandwidth_setFrequency (freq : Int) (demod : DemodulatorInstance) :
    (demod.setFrequency freq).bandwidth = demod.bandwidth := rfl

/-- A frequency above half the bandwidth is taken as it is. -/
theorem frequency_setFrequency {demod : DemodulatorInstance} {freq : Int}
    (h : demod.bandwidth.tdiv 2 < freq) : (demod.setFrequency freq).frequency = freq := by
  have hpos : ¬freq - demod.bandwidth.tdiv 2 ≤ 0 := by omega
  simp [setFrequency, hpos]

end DemodulatorInstance

structure DemodulatorMgr where
  demods : List DemodulatorInstance
  currentModem : Option Nat
  activeContextModem : Option Nat
  deriving DecidableEq, Repr, Inhabited

namespace DemodulatorMgr

def isActive (mgr : DemodulatorMgr) (demod : Nat) : Bool :=
  match mgr.demods[demod]? with
  | none => false
  | some inst => inst.active

/-- The `DemodulatorMgr::updateLastState` steps that change a modem pointer. -/
def updateLastState (mgr : DemodulatorMgr) : DemodulatorMgr :=
  let known := mgr.currentModem.any fun demod => demod < mgr.demods.length
  let mgr :=
    if known then mgr
    else
      match mgr.activeContextModem with
      | none => mgr
      | some active =>
        if mgr.isActive active then { mgr with currentModem := some active }
        else { mgr with currentModem := none, activeContextModem := none }
  if mgr.currentModem.any mgr.isActive then mgr else { mgr with currentModem := none }

/-- `DemodulatorMgr::setActiveDemodulator`. -/
def setActiveDemodulator (demod : Nat) (temporary : Bool) (mgr : DemodulatorMgr) :
    DemodulatorMgr :=
  let mgr :=
    if temporary then mgr
    else
      match mgr.activeContextModem with
      | some active => { mgr with currentModem := some active }.updateLastState.updateLastState
      | none => { mgr with currentModem := some demod }.updateLastState
  { mgr with activeContextModem := some demod }

/-- `DemodulatorMgr::getActiveContextModem`, which repairs a stale pointer. -/
def getActiveContextModem (mgr : DemodulatorMgr) : Option Nat × DemodulatorMgr :=
  let mgr :=
    match mgr.activeContextModem with
    | none => mgr
    | some active =>
      if mgr.isActive active then mgr else { mgr with activeContextModem := mgr.currentModem }
  (mgr.activeContextModem, mgr)

theorem updateLastState_active {mgr : DemodulatorMgr} {demod : Nat}
    (hc : mgr.currentModem = some demod) (ha : mgr.isActive demod = true) :
    mgr.updateLastState = mgr := by
  have hlt : demod < mgr.demods.length := by
    by_contra h
    simp [isActive, List.getElem?_eq_none (Nat.le_of_not_lt h)] at ha
  simp [updateLastState, hc, hlt, ha]

/-- With an active context modem, `setActiveDemodulator` makes it the current one. -/
theorem setActiveDemodulator_context {mgr : DemodulatorMgr} {active : Nat}
    (hc : mgr.activeContextModem = some active) (ha : mgr.isActive active = true) (demod : Nat) :
    mgr.setActiveDemodulator demod false =
      { mgr with currentModem := some active, activeContextModem := some demod } := by
  have hid : ({ mgr with currentModem := some active } : DemodulatorMgr).updateLastState =
      { mgr with currentModem := some active } := updateLastState_active rfl ha
  simp only [setActiveDemodulator, Bool.false_eq_true, ↓reduceIte]
  split
  · rename_i a ha'
    obtain rfl : active = a := Option.some.inj (hc.symm.trans ha')
    rw [hid, hid]
  · rename_i hnone
    rw [hc] at hnone
    cases hnone

def getCurrentModem (mgr : DemodulatorMgr) : Option Nat := mgr.currentModem

end DemodulatorMgr

/-! ## The demodulator -/

structure Demodulator where
  cubic : CubicSDR
  demodMgr : DemodulatorMgr
  demods : List (Modulation × Nat)
  currentModem : Modulation
  currentFreq : Int
  deriving DecidableEq, Repr, Inhabited

namespace Demodulator

def INIT_FREQUENCY : Int := 100000000

/-- A modem as `start` makes it. -/
def newDemod : DemodulatorInstance :=
  let created : DemodulatorInstance :=
    { active := false, muted := false, bandwidth := 12500, frequency := 0 }
  ((created.setMuted true).run).setFrequency INIT_FREQUENCY

/-- `Demodulator::start`, once the tuner is there. -/
def start (cubic : CubicSDR) : Demodulator :=
  let mgr : DemodulatorMgr :=
    { demods := [newDemod, newDemod], currentModem := none, activeContextModem := none }
  { cubic
    demodMgr := mgr.setActiveDemodulator 0 false
    demods := [(.NFM, 0), (.AM, 1)]
    currentModem := .NFM
    currentFreq := 0 }

/-- A change of the modem at position `demod`. -/
def onModem (demod : Nat) (f : DemodulatorInstance → DemodulatorInstance) (d : Demodulator) :
    Demodulator :=
  { d with demodMgr := { d.demodMgr with demods := d.demodMgr.demods.modify demod f } }

/-- A call through `getCurrentModem()`, which may be null. -/
def onCurrentModem (f : DemodulatorInstance → DemodulatorInstance) (d : Demodulator) :
    Except Scan.Fault Demodulator :=
  match d.demodMgr.getCurrentModem with
  | none => .error .nullPointer
  | some demod => .ok (d.onModem demod f)

/-- The test of `Demodulator::setFrequency` for a retune. -/
def outOfBand (freq : Int) (d : Demodulator) : Bool :=
  d.cubic.sampleRate.tdiv 2 ≤ |wrap 64 (d.cubic.frequency - freq)|

def retune (freq : Int) (d : Demodulator) : Demodulator :=
  if d.outOfBand freq then { d with cubic := d.cubic.setFrequency freq } else d

/-- `Demodulator::setFrequency`. -/
def setFrequency (freq : Int) (d : Demodulator) : Except Scan.Fault Demodulator :=
  match d.onCurrentModem (·.setFrequency freq) with
  | .error f => .error f
  | .ok d =>
    match (d.retune freq).onCurrentModem (·.setFrequency freq) with
    | .error f => .error f
    | .ok d => .ok { d with currentFreq := freq }

/-- `Demodulator::setTunerFrequency`. -/
def setTunerFrequency (freq : Int) (d : Demodulator) : Except Scan.Fault Demodulator :=
  { d with cubic := d.cubic.setFrequency freq }.onCurrentModem (·.setFrequency freq)

/-- `Demodulator::setModem`. -/
def setModem (mode : Modulation) (d : Demodulator) : Except Scan.Fault Demodulator :=
  if d.currentModem = mode then .ok d
  else
    match d.demods.lookup mode, d.demods.lookup d.currentModem with
    | some demod, some old =>
      let d := d.onModem demod (·.setActive true)
      let d := { d with demodMgr := d.demodMgr.setActiveDemodulator demod false }
      let d := d.onModem old (·.setActive false)
      .ok { d with currentModem := mode }
    | _, _ => .error .nullPointer

/-- `Demodulator::squelchBreak`, without the signal level timer. -/
def squelchBreak (mute : Bool) (d : Demodulator) : Except Scan.Fault Demodulator :=
  d.onCurrentModem (·.setMuted !mute)

/-- `Demodulator::squelchThresholdMet`; `met` is the comparison of the level that
is read from the active context modem. -/
def squelchThresholdMet (met : Bool) (d : Demodulator) : Except Scan.Fault (Bool × Demodulator) :=
  match d.demodMgr.getActiveContextModem with
  | (none, _) => .error .nullPointer
  | (some _, mgr) => .ok (met, { d with demodMgr := mgr })

theorem onCurrentModem_eq {d : Demodulator} {demod : Nat}
    (h : d.demodMgr.currentModem = some demod) (f : DemodulatorInstance → DemodulatorInstance) :
    d.onCurrentModem f = .ok (d.onModem demod f) := by
  simp only [onCurrentModem, DemodulatorMgr.getCurrentModem, h]

@[simp] theorem retune_demodMgr (freq : Int) (d : Demodulator) :
    (d.retune freq).demodMgr = d.demodMgr := by
  unfold retune
  split <;> rfl

theorem setFrequency_eq {d : Demodulator} {demod : Nat}
    (h : d.demodMgr.currentModem = some demod) (freq : Int) :
    d.setFrequency freq = .ok
      { ((d.onModem demod (·.setFrequency freq)).retune freq).onModem demod (·.setFrequency freq)
        with currentFreq := freq } := by
  have hnext : ((d.onModem demod (·.setFrequency freq)).retune freq).demodMgr.currentModem =
      some demod := by
    rw [retune_demodMgr]
    exact h
  simp only [setFrequency, onCurrentModem_eq h, onCurrentModem_eq hnext]

end Demodulator

end PiScan.Sigproc

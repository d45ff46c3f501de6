import PiScan.Machine.Hold

/-!
# What an `ST_Manual` event carries

The payload of an event is an untyped pointer, which `ST_Manual` takes for a
`ManualEntryData`.  A `manualEntry` call passes one; `ST_Scan` over an empty
database passes a number.

* `ManualReady.step`: only that `ST_Scan` raises an `ST_Manual` with other data;
* `manual_event_data`: so every `ST_Manual` has its data as long as no `ST_Scan`
  finds the database empty, and where one does, the `ST_Manual` that follows
  does not get to a hold;
* `empty_database`: a run in which one does.
-/

namespace PiScan.Machine

open Scan Sigproc Runs

namespace World

/-- A pending `ST_Manual` has the data of a manual entry. -/
def ManualReady (w : World) : Prop :=
  w.sm.eventGenerated = true → w.sm.currentState = .ST_MANUAL →
    ∃ freq modulation, w.sm.pEventData = some (.manualEntryData freq modulation)

/-- An `ST_Scan` finds a system in the database. -/
def ScanStocked (w : World) (l : Label) : Prop :=
  l = .activate .ST_SCAN → w.sm.data.systems.size ≠ 0

instance (w : World) (l : Label) : Decidable (w.ScanStocked l) :=
  inferInstanceAs (Decidable (_ → _))

variable {w w' : World} {l : Label}

/-- An event that is no `ST_Manual` needs no data. -/
theorem manualReady_of_ne (h : w.sm.eventGenerated = true → w.sm.currentState ≠ .ST_MANUAL) :
    w.ManualReady := fun hg hc => absurd hc (h hg)

theorem ManualReady.step (h : w.ManualReady) (hsane : w.control.Sane) (hs : Step w l w')
    (hok : w.ScanStocked l) : w'.ManualReady := by
  cases moves_of_step hs with
  | begin hc => exact h
  | storeFlag hc => exact h
  | storeIndex hc => exact h
  | lookup hc => exact h
  | ignore hc => exact h
  | @commit c call next hc hu =>
    intro _ hcur
    have hnext : next = call.target := hsane.target (show w.control.clients c = _ from hc)
    replace hcur : next = .ST_MANUAL := hcur
    -- the only call for `ST_Manual` is `manualEntry`
    cases call with
    | manualEntry freq modulation => exact ⟨freq, modulation, rfl⟩
    | startScan =>
      rw [hnext] at hcur
      cases hcur
    | holdScan index =>
      rw [hnext] at hcur
      cases hcur
    | stopScanner =>
      rw [hnext] at hcur
      cases hcur
  | scanEmpty hdue hempty => exact absurd hempty (hok rfl)
  | @receive e d hdue he hd =>
    refine manualReady_of_ne fun _ => ?_
    have hcur := hdue.2.2
    cases hlock : e.isLockedOut <;>
      simp [go, ScannerSM.raiseIfLocked, ScannerSM.take, StateMachine.internalEvent, hcur]
  | @scanEnd r next d hpc hd =>
    obtain ⟨-, -, -, -, -, hnext, -⟩ := ThreadData.scanEntry_scans hd
    refine manualReady_of_ne fun _ => ?_
    rcases hnext with rfl | rfl <;> exact (by rintro ⟨⟩)
  | @holdEvent r next hpc =>
    refine manualReady_of_ne fun _ => ?_
    rcases hsane.decided next hpc with rfl | rfl | rfl <;> exact (by rintro ⟨⟩)
  | @receiveEnd r next d hpc hd =>
    refine manualReady_of_ne fun _ => ?_
    rcases (ThreadData.receiveEntry_keeps hd).2 with rfl | rfl <;> exact (by rintro ⟨⟩)
  | manualEnd hpc => exact manualReady_of_ne fun _ => (by rintro ⟨⟩)
  | saveAllEnd hpc => exact manualReady_of_ne fun _ => (by rintro ⟨⟩)
  | holdEntry hpc hd => exact h
  | holdDecision hpc hd => exact h
  | holdQuiet hpc => exact h
  | crash hfault => exact h
  | load hdue hd => exact fun hg => absurd hg Bool.false_ne_true
  | scan hdue hsome hd => exact fun hg => absurd hg Bool.false_ne_true
  | holdIndex hdue hflag hindex hd => exact fun hg => absurd hg Bool.false_ne_true
  | hold hdue hno => exact fun hg => absurd hg Bool.false_ne_true
  | manual hdue hdata => exact fun hg => absurd hg Bool.false_ne_true
  | saveAll hdue hd => exact fun hg => absurd hg Bool.false_ne_true
  | stopped hdue => exact fun hg => absurd hg Bool.false_ne_true

/-- **Manual events carry a manual entry** in every run whose `ST_Scan`s find a
system; an `ST_Scan` over an empty database is followed by an `ST_Manual` with a
number for its data, at which the process ends instead of holding. -/
theorem manual_event_data (file : SystemsFile) (demod : Demodulator) (ls : List Label) (w : World) :
    (Run (Guarded Step ScanStocked) (start file demod) ls w → w.ManualReady) ∧
      ∀ w', Step w (.activate .ST_SCAN) w' → w.sm.data.systems.size = 0 →
        w'.Due .ST_MANUAL ∧ ¬w'.ManualReady ∧
          Step w' (.activate .ST_MANUAL) { w' with pc := .crashed .badCast } := by
  refine ⟨fun h => ?_, fun w' hs hempty => ?_⟩
  · have hboth : w.ManualReady ∧ w.control.Sane := by
      refine h.invariant (I := fun w => w.ManualReady ∧ w.control.Sane) ?_ ?_
      · rintro s l t ⟨hready, hsane⟩ ⟨hstep, hok⟩
        exact ⟨hready.step hsane hstep hok, hsane.step (control_step hstep)⟩
      · exact ⟨manualReady_of_ne fun _ => (by rintro ⟨⟩), sane_start file demod⟩
    exact hboth.1
  · cases moves_of_step hs with
    | scanEmpty hdue _ =>
      refine ⟨⟨rfl, rfl, rfl⟩, ?_, rfl⟩
      intro hready
      obtain ⟨freq, modulation, hdata⟩ := hready rfl rfl
      cases hdata
    | scan hdue hsome hd => exact absurd hempty hsome
    | crash hfault =>
      have hr := fault_of_activate hfault
      simp only [ScannerSM.stateMap, ScannerSM.ST_Scan] at hr
      split at hr
      · cases hr
      · next hsome => exact absurd hempty hsome

/-- A manual entry, over an empty database. -/
def manualStarted : List Label :=
  [.activate .ST_LOAD, .begin 0 (.manualEntry 145500000 "FM"), .lookup 0, .commit 0]

theorem manualReady_manualStarted :
    ((start .absent tunedDemod).after manualStarted).ManualReady :=
  (manual_event_data .absent tunedDemod manualStarted _).1 (guarded_run_after (by decide +kernel))

/-- A scan, over an empty database. -/
def emptyScan : List Label :=
  [.activate .ST_LOAD, .begin 0 .startScan, .lookup 0, .commit 0, .activate .ST_SCAN]

/-- **The fallback of an empty database** raises `ST_Manual` with a number, and the
handler does not come to an entry. -/
theorem empty_database :
    ∃ w, Run Step (start .absent tunedDemod) emptyScan w ∧ w.Due .ST_MANUAL ∧
      w.sm.pEventData = some (.number 100000000) ∧
      Step w (.activate .ST_MANUAL) { w with pc := .crashed .badCast } := by
  refine ⟨(start .absent tunedDemod).after emptyScan, run_after (by decide +kernel), ?_, ?_, ?_⟩
  · exact ⟨by decide +kernel, by decide +kernel, by decide +kernel⟩
  · decide +kernel
  · rfl

end World

end PiScan.Machine

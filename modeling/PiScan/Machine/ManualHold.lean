import PiScan.Machine.Audio
import PiScan.Machine.Resume

/-!
# From a manual entry to its hold

After a `manualEntry` call has committed its event the thread takes four steps:
it starts and ends `ST_Manual`, and `ST_Hold` takes an index, if one has been
stored, and skips dummies.

* `takenEntry`: the entry that this leads to, as a function of the list;
* `Stage.step`: the four steps, and that the thread then stays on the entry, as
  long as no client commits an event or stores an index;
* `Stage.goes_on`: unless the entry cannot be taken, the thread never stops.
-/

namespace PiScan.Scan.SystemList

/-- `while(_currentEntry->isDummy()) _currentEntry = _systems.getNextEntry();`. -/
def realEntry : Nat → EntryPtr → SystemList → Except Fault Entry
  | 0, _, _ => .error .diverges
  | fuel + 1, p, sl => do
    if (sl.deref p).isDummy then
      let (p, sl) ← sl.getNextEntry 64
      realEntry fuel p sl
    else return sl.deref p

/-- The entry of a hold at `index`. -/
def holdEntry (index : List Int) (sl : SystemList) : Except Fault Entry := do
  let (p, sl) ← sl.getEntryByIndex 64 index
  sl.realEntry (sl.rounds + 1) p

end PiScan.Scan.SystemList

namespace PiScan.Machine

open Scan Sigproc Runs

/-! ## The parts of the handlers -/

namespace ThreadData

variable {d d' : ThreadData} {e : Entry}

/-- The current entry is `e`, in manual mode. -/
structure HeldOn (e : Entry) (d : ThreadData) : Prop where
  ready : d.demod.Ready
  mode : d.manualMode = true
  real : e.isDummy = false
  current : ∃ p, d.currentEntry = some p ∧ d.systems.deref p = e

theorem HeldOn.entry (h : d.HeldOn e) : d.entry = .ok e := by
  obtain ⟨p, hp, he⟩ := h.current
  rw [entry_eq hp, he]

theorem HeldOn.keeps (h : d.HeldOn e) (hk : Keeps d d') (hr : d'.demod.Ready) : d'.HeldOn e := by
  obtain ⟨p, hp, he⟩ := h.current
  refine ⟨hr, hk.manualMode.trans h.mode, h.real, p, hk.currentEntry.trans hp, ?_⟩
  rw [hk.systems]
  exact he

theorem HeldOn.enterState (h : d.HeldOn e) (audio update : Bool) (state : ContextState) :
    ∃ d', d.enterState audio state update = .ok d' ∧ d'.HeldOn e := by
  obtain ⟨p, hp, -⟩ := h.current
  obtain ⟨d', hd, hr⟩ := enterState_ready h.ready hp (.inl h.mode) audio update state
  exact ⟨d', hd, h.keeps (enterState_keeps hd) hr⟩

theorem HeldOn.entrySignal (h : d.HeldOn e) (signal : Bool) :
    ∃ found d', d.entrySignal signal = .ok (found, d') ∧ d'.HeldOn e := by
  obtain ⟨p, hp, -⟩ := h.current
  obtain ⟨found, d', hd, hr, -⟩ := entrySignal_ready h.ready hp signal
  exact ⟨found, d', hd, h.keeps (entrySignal_keeps hd).1 hr⟩

theorem HeldOn.receiveEntry (h : d.HeldOn e) (signal : Bool) (now : Int) :
    ∃ next d', d.receiveEntry signal now = .ok (next, d') ∧ d'.HeldOn e ∧
      (next = .ST_RECEIVE ∨ next = .ST_HOLD) := by
  obtain ⟨found, d₁, hd, h₁⟩ := h.entrySignal signal
  simp only [ThreadData.receiveEntry, hd]
  cases found with
  | true => exact ⟨_, _, rfl, h₁, .inl rfl⟩
  | false => exact ⟨_, _, rfl, ⟨h₁.ready, h₁.mode, h₁.real, h₁.current⟩, .inr rfl⟩

/-- A hold for a client goes on. -/
theorem holdDecision_held (signal evtSrcExternal : Bool) (now : Int) (d : ThreadData) :
    ∃ next, d.holdDecision signal true evtSrcExternal now = .ok (some next) ∧
      (next = .ST_RECEIVE ∨ next = .ST_HOLD) := by
  cases signal with
  | true => exact ⟨_, rfl, .inl rfl⟩
  | false => exact ⟨_, rfl, .inr rfl⟩

/-- The loop over the dummies ends as `realEntry` does. -/
theorem skipDummies_realEntry (fuel : Nat) {p : EntryPtr} (hr : d.demod.Ready)
    (hmode : d.manualMode = true) (hp : d.currentEntry = some p) :
    (∀ f, d.systems.realEntry fuel p = .error f → d.skipDummies fuel = .error f) ∧
      ∀ e, d.systems.realEntry fuel p = .ok e →
        ∃ d', d.skipDummies fuel = .ok d' ∧ d'.HeldOn e := by
  induction fuel generalizing d p with
  | zero =>
    constructor
    · rintro f ⟨⟩
      rfl
    · rintro e ⟨⟩
  | succ fuel ih =>
    have hentry := entry_eq hp
    cases hdummy : (d.systems.deref p).isDummy with
    | false =>
      have hreal : d.systems.realEntry (fuel + 1) p = .ok (d.systems.deref p) := by
        simp [SystemList.realEntry, hdummy, pure, Except.pure]
      have hskip : d.skipDummies (fuel + 1) = .ok d := by
        simp [skipDummies, hentry, hdummy]
      rw [hreal, hskip]
      refine ⟨?_, ?_⟩
      · rintro f ⟨⟩
      · rintro e ⟨⟩
        exact ⟨d, rfl, hr, hmode, hdummy, p, hp, rfl⟩
    | true =>
      obtain ⟨found, d₁, h₁, hr₁, -⟩ := entrySignal_ready hr hp false
      have hk := (entrySignal_keeps h₁).1
      cases hnext : d.systems.getNextEntry 64 with
      | error f =>
        have hreal : d.systems.realEntry (fuel + 1) p = .error f := by
          simp [SystemList.realEntry, hdummy, hnext, Bind.bind, Except.bind]
        have hskip : d.skipDummies (fuel + 1) = .error f := by
          simp [skipDummies, hentry, hdummy, h₁, nextEntry, hk.systems, hnext, Bind.bind,
            Except.bind]
        rw [hreal, hskip]
        constructor
        · rintro f' ⟨⟩
          rfl
        · rintro e ⟨⟩
      | ok q =>
        obtain ⟨p', sl⟩ := q
        have hreal : d.systems.realEntry (fuel + 1) p = sl.realEntry fuel p' := by
          simp [SystemList.realEntry, hdummy, hnext, Bind.bind, Except.bind]
        have hskip : d.skipDummies (fuel + 1) =
            skipDummies fuel { d₁ with systems := sl, currentEntry := some p' } := by
          simp [skipDummies, hentry, hdummy, h₁, nextEntry, hk.systems, hnext, Bind.bind,
            Except.bind, pure, Except.pure]
        rw [hreal, hskip]
        have hmode₁ : d₁.manualMode = true := hk.manualMode.trans hmode
        exact ih (d := { d₁ with systems := sl, currentEntry := some p' }) hr₁ hmode₁ rfl

/-- `ST_Hold` ends on the entry of `realEntry`. -/
theorem holdEntry_realEntry {p : EntryPtr} (hr : d.demod.Ready) (hmode : d.manualMode = true)
    (hp : d.currentEntry = some p) (update signal : Bool) :
    (∀ f, d.systems.realEntry (d.systems.rounds + 1) p = .error f →
        d.holdEntry update signal = .error f) ∧
      ∀ e, d.systems.realEntry (d.systems.rounds + 1) p = .ok e →
        ∃ found d', d.holdEntry update signal = .ok (found, d') ∧ d'.HeldOn e := by
  obtain ⟨herror, hok⟩ := skipDummies_realEntry (d.systems.rounds + 1) hr hmode hp
  constructor
  · intro f hf
    rw [holdEntry, herror f hf]
    rfl
  · intro e he
    obtain ⟨d₁, h₁, hheld₁⟩ := hok e he
    obtain ⟨d₂, h₂, hheld₂⟩ := hheld₁.enterState false update .HOLD
    obtain ⟨found, d₃, h₃, hheld₃⟩ := hheld₂.entrySignal signal
    refine ⟨found, d₃, ?_, hheld₃⟩
    simp only [holdEntry, bind_eq_ok]
    exact ⟨d₁, h₁, d₂, h₂, h₃⟩

theorem HeldOn.holdEntry (h : d.HeldOn e) (update signal : Bool) :
    ∃ found d', d.holdEntry update signal = .ok (found, d') ∧ d'.HeldOn e := by
  obtain ⟨p, hp, he⟩ := h.current
  apply (holdEntry_realEntry h.ready h.mode hp update signal).2
  simp [SystemList.realEntry, he, h.real, pure, Except.pure]

end ThreadData

/-! ## The steps of the thread -/

/-- Neither an event nor the index of a hold reaches the machine. -/
def Label.Quiet : Label → Prop
  | .commit _ | .storeIndex _ => False
  | _ => True

/-- The number of steps of the thread. -/
def threadSteps (ls : List Label) : Nat := (ls.filter fun l => l.client.isNone).length

@[simp] theorem threadSteps_append (ls ls' : List Label) :
    threadSteps (ls ++ ls') = threadSteps ls + threadSteps ls' := by
  simp [threadSteps]

/-- The thread is in `ST_Hold` or `ST_Receive`, and will raise one of them. -/
def Pc.Holds : Pc → Prop
  | hold _ | holdDecision _ | receive => True
  | holdEvent next => next = some .ST_HOLD ∨ next = some .ST_RECEIVE
  | _ => False

namespace World

variable {w w' : World} {l : Label} {e : Entry} {freq : Int} {modulation : String}

/-- A step of a client that is no external event. -/
structure Aside (w w' : World) : Prop where
  pc : w'.pc = w.pc
  machine : w'.sm.toStateMachine = w.sm.toStateMachine
  data : w'.sm.data = w.sm.data
  index : w'.sm.holdIndex = w.sm.holdIndex
  flag : w.sm.externalHold = true → w'.sm.externalHold = true

theorem aside_of_quiet (hs : Step w l w') (hl : l.Quiet) (hclient : l.client.isSome = true) :
    Aside w w' ∧ l.activated = none := by
  cases moves_of_step hs with
  | begin hc => exact ⟨⟨rfl, rfl, rfl, rfl, id⟩, rfl⟩
  | storeFlag hc => exact ⟨⟨rfl, rfl, rfl, rfl, fun _ => rfl⟩, rfl⟩
  | lookup hc => exact ⟨⟨rfl, rfl, rfl, rfl, id⟩, rfl⟩
  | ignore hc => exact ⟨⟨rfl, rfl, rfl, rfl, id⟩, rfl⟩
  | storeIndex hc => cases hl
  | commit hc hu => cases hl
  | crash hfault => rcases hfault with ⟨a, rfl, -⟩ | ⟨r, rfl, -⟩ <;> cases hclient
  | _ => cases hclient

theorem Aside.due (h : Aside w w') (a : States) : w'.Due a ↔ w.Due a := by
  unfold Due
  rw [h.pc, h.machine]

theorem outcome_of_activate {a : States} (hs : Step w (.activate a) w') :
    w' = w.outcome w.sm.stateEngine := by
  have hp := perform_of_step hs
  simp only [perform, Option.ite_none_right_eq_some, Option.some.injEq] at hp
  exact hp.2.symm

theorem outcome_of_resume {r : ScannerSM.Reading} (hs : Step w (.resume r) w') :
    w.pc.InHandler ∧ w' = w.outcome (w.sm.resume r w.pc) := by
  have hp := perform_of_step hs
  simp only [perform, Option.ite_none_right_eq_some, Option.some.injEq] at hp
  exact ⟨hp.1, hp.2.symm⟩

theorem step_due {a : States} (h : w.Due a) :
    Step w (.activate a) (w.outcome w.sm.stateEngine) := by
  simp [Step, step, perform, h.1, h.2.1, h.2.2]

theorem step_inside (h : w.pc.InHandler) (r : ScannerSM.Reading) :
    Step w (.resume r) (w.outcome (w.sm.resume r w.pc)) := by
  unfold Step step
  split
  · rename_i f hpc
    rw [hpc] at h
    cases h
  · simp [perform, h]

/-- The handler that is due is the one that starts. -/
theorem Due.activate {a b : States} (h : w.Due a) (hs : Step w (.activate b) w') :
    b = a ∧ w' = w.outcome (ScannerSM.stateMap a w.sm.pEventData w.sm.take) := by
  obtain rfl : w.sm.currentState = b := (due_of_step hs).2.2
  obtain rfl : w.sm.currentState = a := h.2.2
  exact ⟨rfl, outcome_of_activate hs⟩

/-! ## Holding on an entry -/

/-- The thread stays on the entry `e`, which is held for a client. -/
structure StaysOn (e : Entry) (w : World) : Prop where
  flag : w.sm.externalHold = true
  index : w.sm.holdIndex = []
  data : w.sm.data.HeldOn e
  point : w.pc.Holds ∨ w.Due .ST_HOLD ∨ w.Due .ST_RECEIVE

theorem StaysOn.aside (h : w.StaysOn e) (ha : Aside w w') : w'.StaysOn e := by
  refine ⟨ha.flag h.flag, ha.index.trans h.index, ?_, ?_⟩
  · rw [ha.data]
    exact h.data
  · rw [ha.pc, ha.due, ha.due]
    exact h.point

theorem StaysOn.starts {a : States} (h : w.StaysOn e) (hs : Step w (.activate a) w') :
    w'.StaysOn e ∧ (a = .ST_HOLD ∨ a = .ST_RECEIVE) := by
  have hidle : w.pc = .idle := (due_of_step hs).1
  rcases h.point with hpoint | hdue | hdue
  · rw [hidle] at hpoint
    cases hpoint
  · obtain ⟨rfl, rfl⟩ := hdue.activate hs
    have hhold : ScannerSM.stateMap .ST_HOLD w.sm.pEventData w.sm.take =
        .ok (.hold w.sm.stateChanged, w.sm.take) := by
      have hno : ¬(w.sm.take.externalHold = true ∧ 0 < w.sm.take.holdIndex.length) := by
        simp [ScannerSM.take, h.index]
      simp only [ScannerSM.stateMap, ScannerSM.ST_Hold, if_neg hno]
      rfl
    rw [hhold]
    exact ⟨⟨h.flag, h.index, h.data, .inl trivial⟩, .inl rfl⟩
  · obtain ⟨rfl, rfl⟩ := hdue.activate hs
    obtain ⟨d, hd, hheld⟩ := h.data.enterState true
      (w.sm.take.raiseIfLocked e.isLockedOut).stateChanged .RECEIVE
    have hreceive : ScannerSM.stateMap .ST_RECEIVE w.sm.pEventData w.sm.take =
        .ok (.receive, { w.sm.take.raiseIfLocked e.isLockedOut with data := d }) := by
      simp only [ScannerSM.stateMap, ScannerSM.ST_Receive, bind_eq_ok, pure_eq_ok]
      exact ⟨e, h.data.entry, d, hd, rfl⟩
    rw [hreceive]
    exact ⟨⟨h.flag, h.index, hheld, .inl trivial⟩, .inr rfl⟩

/-- A handler that ends with `ST_HOLD` or `ST_RECEIVE`. -/
theorem staysOn_raised (sm : ScannerSM) {next : States} (hflag : sm.externalHold = true)
    (hindex : sm.holdIndex = []) (hdata : sm.data.HeldOn e)
    (hnext : next = .ST_RECEIVE ∨ next = .ST_HOLD) : (w.go .idle (sm.raise next)).StaysOn e := by
  refine ⟨hflag, hindex, hdata, .inr ?_⟩
  rcases hnext with rfl | rfl
  · exact .inr ⟨rfl, rfl, rfl⟩
  · exact .inl ⟨rfl, rfl, rfl⟩

theorem StaysOn.goes {r : ScannerSM.Reading} (h : w.StaysOn e) (hs : Step w (.resume r) w') :
    w'.StaysOn e := by
  obtain ⟨hin, rfl⟩ := outcome_of_resume hs
  have hpoint : w.pc.Holds := by
    rcases h.point with hpoint | hdue | hdue
    · exact hpoint
    · rw [hdue.1] at hin
      cases hin
    · rw [hdue.1] at hin
      cases hin
  cases hpc : w.pc with
  | hold update =>
    obtain ⟨found, d, hd, hheld⟩ := h.data.holdEntry update r.signal
    simp only [ScannerSM.resume, hd]
    exact ⟨h.flag, h.index, hheld, .inl trivial⟩
  | holdDecision found =>
    obtain ⟨next, hd, hnext⟩ := ThreadData.holdDecision_held found w.sm.evtSrcExternal r.now
      w.sm.data
    simp only [ScannerSM.resume, h.flag, hd]
    refine ⟨h.flag, h.index, h.data, .inl ?_⟩
    exact hnext.symm.imp (congrArg some) (congrArg some)
  | holdEvent next =>
    rw [hpc] at hpoint
    rcases hpoint with rfl | rfl
    · exact staysOn_raised (w := w) w.sm h.flag h.index h.data (.inr rfl)
    · exact staysOn_raised (w := w) w.sm h.flag h.index h.data (.inl rfl)
  | receive =>
    obtain ⟨next, d, hd, hheld, hnext⟩ := h.data.receiveEntry r.signal r.now
    simp only [ScannerSM.resume, hd]
    exact staysOn_raised (w := w) { w.sm with data := d } h.flag h.index hheld hnext
  | _ =>
    rw [hpc] at hpoint
    cases hpoint

/-- The thread can take a step. -/
theorem StaysOn.goes_on (h : w.StaysOn e) : ∃ l w', l.client = none ∧ Step w l w' := by
  rcases h.point with hpoint | hdue | hdue
  · have hin : w.pc.InHandler := by
      revert hpoint
      cases w.pc <;> simp [Pc.Holds, Pc.InHandler]
    exact ⟨_, _, rfl, step_inside hin ⟨false, 0⟩⟩
  · exact ⟨_, _, rfl, step_due hdue⟩
  · exact ⟨_, _, rfl, step_due hdue⟩

/-! ## The way there -/

/-- The entry that the hold after a manual entry takes, if `index` has been stored. -/
def takenEntry (freq : Int) (modulation : String) (index : List Int) (systems : SystemList) :
    Except Fault Entry :=
  if index = [] then .ok (ThreadData.makeManualEntry freq modulation)
  else systems.holdEntry index

/-- Where the thread is `n` steps after the event, and the handlers it has started; `o` is
the entry it takes.  The data were `d` and the stored index was `index`. -/
inductive Stage (o : Except Fault Entry) (d : ThreadData) (index : List Int) (freq : Int)
    (modulation : String) : Nat → List States → World → Prop
  | pending {w : World} (hdue : w.Due .ST_MANUAL)
      (hevent : w.sm.pEventData = some (.manualEntryData freq modulation))
      (hindex : w.sm.holdIndex = index) (hdata : w.sm.data = d) :
      Stage o d index freq modulation 0 [] w
  | manual {w : World} (hpc : w.pc = .manual) (hflag : w.sm.externalHold = true)
      (hindex : w.sm.holdIndex = index) (hdata : w.sm.data = d.manual freq modulation) :
      Stage o d index freq modulation 1 [.ST_MANUAL] w
  | raised {w : World} (hdue : w.Due .ST_HOLD) (hflag : w.sm.externalHold = true)
      (hindex : w.sm.holdIndex = index) (hdata : w.sm.data = d.manual freq modulation) :
      Stage o d index freq modulation 2 [.ST_MANUAL] w
  | hold {w : World} {update : Bool} {p : EntryPtr} (hpc : w.pc = .hold update)
      (hflag : w.sm.externalHold = true) (hindex : w.sm.holdIndex = [])
      (hready : w.sm.data.demod.Ready) (hmode : w.sm.data.manualMode = true)
      (hp : w.sm.data.currentEntry = some p)
      (ho : w.sm.data.systems.realEntry (w.sm.data.systems.rounds + 1) p = o) :
      Stage o d index freq modulation 3 [.ST_MANUAL, .ST_HOLD] w
  | stays {w : World} {e : Entry} {n : Nat} {rest : List States} (hn : 4 ≤ n) (ho : o = .ok e)
      (hrest : ∀ a ∈ rest, a = .ST_HOLD ∨ a = .ST_RECEIVE) (hw : w.StaysOn e) :
      Stage o d index freq modulation n (.ST_MANUAL :: .ST_HOLD :: rest) w
  | crashed {w : World} {f : Fault} {n : Nat} {acts : List States} (ho : o = .error f)
      (hpc : w.pc = .crashed f) : Stage o d index freq modulation n acts w

variable {o : Except Fault Entry} {d : ThreadData} {index : List Int} {n : Nat}
  {acts : List States}

theorem Stage.aside (h : Stage o d index freq modulation n acts w) (ha : Aside w w') :
    Stage o d index freq modulation n acts w' := by
  cases h with
  | pending hdue hevent hindex hdata =>
    refine .pending ((ha.due _).mpr hdue) ?_ (ha.index.trans hindex) (ha.data.trans hdata)
    rw [ha.machine]
    exact hevent
  | manual hpc hflag hindex hdata =>
    exact .manual (ha.pc.trans hpc) (ha.flag hflag) (ha.index.trans hindex) (ha.data.trans hdata)
  | raised hdue hflag hindex hdata =>
    exact .raised ((ha.due _).mpr hdue) (ha.flag hflag) (ha.index.trans hindex)
      (ha.data.trans hdata)
  | hold hpc hflag hindex hready hmode hp ho =>
    rw [← ha.data] at hready hmode hp ho
    exact .hold (ha.pc.trans hpc) (ha.flag hflag) (ha.index.trans hindex) hready hmode hp ho
  | stays hn ho hrest hw => exact .stays hn ho hrest (hw.aside ha)
  | crashed ho hpc => exact .crashed ho (ha.pc.trans hpc)

/-- `ST_Hold` takes the index, if there is one. -/
theorem stage_hold (hready : d.demod.Ready) (ho : takenEntry freq modulation index d.systems = o)
    (hflag : w.sm.externalHold = true) (hindex : w.sm.holdIndex = index)
    (hdata : w.sm.data = d.manual freq modulation) :
    Stage o d index freq modulation 3 [.ST_MANUAL, .ST_HOLD]
      (w.outcome (ScannerSM.stateMap .ST_HOLD w.sm.pEventData w.sm.take)) := by
  have hsystems : w.sm.data.systems = d.systems := by
    rw [hdata]
    rfl
  have hr : w.sm.data.demod.Ready := by
    rw [hdata]
    exact hready
  have hmode : w.sm.data.manualMode = true := by
    rw [hdata]
    rfl
  by_cases hnone : index = []
  · have hno : ¬(w.sm.take.externalHold = true ∧ 0 < w.sm.take.holdIndex.length) := by
      simp [ScannerSM.take, hindex, hnone]
    have hhold : ScannerSM.stateMap .ST_HOLD w.sm.pEventData w.sm.take =
        .ok (.hold w.sm.stateChanged, w.sm.take) := by
      simp only [ScannerSM.stateMap, ScannerSM.ST_Hold, if_neg hno]
      rfl
    have hcur : w.sm.data.currentEntry =
        some (.owned (ThreadData.makeManualEntry freq modulation)) := by
      rw [hdata]
      rfl
    rw [hhold]
    refine .hold rfl hflag (hindex.trans hnone) hr hmode hcur ?_
    have hreal := ThreadData.isDummy_makeManualEntry freq modulation
    rw [← ho, takenEntry, if_pos hnone]
    simp [SystemList.realEntry, SystemList.deref, hreal, pure, Except.pure]
  · rw [takenEntry, if_neg hnone, SystemList.holdEntry] at ho
    have hsome : w.sm.take.externalHold = true ∧ 0 < w.sm.take.holdIndex.length := by
      refine ⟨hflag, ?_⟩
      rw [show w.sm.take.holdIndex = index from hindex]
      exact List.length_pos_iff.mpr hnone
    cases hget : d.systems.getEntryByIndex 64 index with
    | error f =>
      have hhold : ScannerSM.stateMap .ST_HOLD w.sm.pEventData w.sm.take = .error f := by
        simp only [ScannerSM.stateMap, ScannerSM.ST_Hold, if_pos hsome, ThreadData.indexEntry]
        simp [ScannerSM.take, hsystems, hindex, hget, Bind.bind, Except.bind]
      rw [hhold]
      rw [hget] at ho
      exact .crashed ho.symm rfl
    | ok q =>
      obtain ⟨p, sl⟩ := q
      have hget' : w.sm.take.data.systems.getEntryByIndex 64 w.sm.take.holdIndex = .ok (p, sl) := by
        simp [ScannerSM.take, hsystems, hindex, hget]
      have hne : w.sm.take.holdIndex ≠ [] := by
        rw [show w.sm.take.holdIndex = index from hindex]
        exact hnone
      rw [ScannerSM.stateMap, ST_Hold_index (m := w.sm.take) hflag hne hget']
      rw [hget] at ho
      exact .hold rfl hflag rfl hr hmode rfl ho

theorem Stage.activate {a : States} (hready : d.demod.Ready)
    (ho : takenEntry freq modulation index d.systems = o)
    (h : Stage o d index freq modulation n acts w) (hs : Step w (.activate a) w') :
    Stage o d index freq modulation (n + 1) (acts ++ [a]) w' := by
  have hidle : w.pc = .idle := (due_of_step hs).1
  cases h with
  | pending hdue hevent hindex hdata =>
    obtain ⟨rfl, rfl⟩ := hdue.activate hs
    rw [hevent, ← hdata]
    exact .manual rfl rfl hindex rfl
  | manual hpc => cases hidle.symm.trans hpc
  | raised hdue hflag hindex hdata =>
    obtain ⟨rfl, rfl⟩ := hdue.activate hs
    exact stage_hold hready ho hflag hindex hdata
  | hold hpc => cases hidle.symm.trans hpc
  | @stays _ e n rest hn ho hrest hw =>
    obtain ⟨hw', ha⟩ := hw.starts hs
    show Stage o d index freq modulation _ (.ST_MANUAL :: .ST_HOLD :: (rest ++ [a])) _
    refine .stays (by omega) ho ?_ hw'
    intro b hb
    rcases List.mem_append.mp hb with hb | hb
    · exact hrest b hb
    · rw [List.mem_singleton.mp hb]
      exact ha
  | crashed ho hpc => cases hidle.symm.trans hpc

theorem Stage.resume {r : ScannerSM.Reading} (h : Stage o d index freq modulation n acts w)
    (hs : Step w (.resume r) w') : Stage o d index freq modulation (n + 1) acts w' := by
  have hin := (outcome_of_resume hs).1
  cases h with
  | pending hdue =>
    rw [hdue.1] at hin
    cases hin
  | manual hpc hflag hindex hdata =>
    obtain ⟨-, rfl⟩ := outcome_of_resume hs
    rw [hpc]
    exact .raised ⟨rfl, rfl, rfl⟩ hflag hindex hdata
  | raised hdue =>
    rw [hdue.1] at hin
    cases hin
  | @hold _ update p hpc hflag hindex hready hmode hp ho =>
    obtain ⟨-, rfl⟩ := outcome_of_resume hs
    obtain ⟨herror, hok⟩ := ThreadData.holdEntry_realEntry hready hmode hp update r.signal
    cases o with
    | error f =>
      rw [hpc]
      simp only [ScannerSM.resume, herror f ho]
      exact .crashed rfl rfl
    | ok e =>
      obtain ⟨found, d', hd, hheld⟩ := hok e ho
      rw [hpc]
      simp only [ScannerSM.resume, hd]
      have hnone : ∀ a ∈ ([] : List States), a = .ST_HOLD ∨ a = .ST_RECEIVE := by simp
      exact .stays le_rfl rfl hnone ⟨hflag, hindex, hheld, .inl trivial⟩
  | stays hn ho hrest hw => exact .stays (by omega) ho hrest (hw.goes hs)
  | crashed ho hpc => exact absurd hs (not_step_crashed hpc)

/-- **One quiet step.** -/
theorem Stage.step (hready : d.demod.Ready) (ho : takenEntry freq modulation index d.systems = o)
    (h : Stage o d index freq modulation n acts w) (hs : Step w l w') (hl : l.Quiet) :
    Stage o d index freq modulation (n + threadSteps [l]) (acts ++ activations [l]) w' := by
  cases hclient : l.client with
  | some c =>
    obtain ⟨ha, hact⟩ := aside_of_quiet hs hl (by rw [hclient]; rfl)
    simpa [threadSteps, hclient, hact] using h.aside ha
  | none =>
    cases l with
    | activate a => simpa [threadSteps, Label.client, Label.activated] using h.activate hready ho hs
    | resume r => simpa [threadSteps, Label.client, Label.activated] using h.resume hs
    | _ => cases hclient

/-- Where it has not crashed, the thread can take a step. -/
theorem Stage.goes_on (h : Stage o d index freq modulation n acts w) :
    (∃ f, o = .error f ∧ w.pc = .crashed f) ∨ ∃ l w', l.client = none ∧ Step w l w' := by
  cases h with
  | pending hdue => exact .inr ⟨_, _, rfl, step_due hdue⟩
  | manual hpc => exact .inr ⟨_, _, rfl, step_inside (by rw [hpc]; trivial) ⟨false, 0⟩⟩
  | raised hdue => exact .inr ⟨_, _, rfl, step_due hdue⟩
  | hold hpc => exact .inr ⟨_, _, rfl, step_inside (by rw [hpc]; trivial) ⟨false, 0⟩⟩
  | stays hn ho hrest hw => exact .inr hw.goes_on
  | crashed ho hpc => exact .inl ⟨_, ho, hpc⟩

/-- **Every quiet run.** -/
theorem Stage.run {ls : List Label} (hready : d.demod.Ready)
    (ho : takenEntry freq modulation index d.systems = o)
    (h : Stage o d index freq modulation 0 [] w) (hr : Run Step w ls w')
    (hls : ∀ l ∈ ls, l.Quiet) :
    Stage o d index freq modulation (threadSteps ls) (activations ls) w' := by
  have hstart : Stage o d index freq modulation (threadSteps []) (activations []) w := h
  have hall := hr.history
    (I := fun pre w => Stage o d index freq modulation (threadSteps pre) (activations pre) w)
    (P := Label.Quiet) ?_ hls hstart
  · simpa using hall
  · intro pre s l t hl hstage hs
    rw [threadSteps_append, activations_append]
    exact hstage.step hready ho hs hl

/-- A quiet run of `k` steps of the thread, if it does not crash before. -/
theorem Stage.exists_run (hready : d.demod.Ready)
    (ho : takenEntry freq modulation index d.systems = o)
    (h : Stage o d index freq modulation 0 [] w) (k : Nat) :
    ∃ ls w', Run Step w ls w' ∧ (∀ l ∈ ls, l.Quiet) ∧
      ((∃ f, o = .error f ∧ w'.pc = .crashed f) ∨ threadSteps ls = k) := by
  induction k with
  | zero => exact ⟨[], w, .nil w, by simp, .inr rfl⟩
  | succ k ih =>
    obtain ⟨ls, w₁, hrun, hls, hend⟩ := ih
    rcases hend with hcrash | hk
    · exact ⟨ls, w₁, hrun, hls, .inl hcrash⟩
    · rcases (h.run hready ho hrun hls).goes_on with hcrash | ⟨l, w₂, hclient, hs⟩
      · exact ⟨ls, w₁, hrun, hls, .inl hcrash⟩
      · refine ⟨ls ++ [l], w₂, hrun.snoc hs, ?_, .inr ?_⟩
        · intro l' hl'
          rcases List.mem_append.mp hl' with hl' | hl'
          · exact hls l' hl'
          · rw [List.mem_singleton.mp hl']
            cases l <;> trivial
        · rw [threadSteps_append, hk]
          simp [threadSteps, hclient]

end World

end PiScan.Machine

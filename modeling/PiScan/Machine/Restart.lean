import PiScan.Machine.ManualMode
import PiScan.Machine.Receiver
import PiScan.Machine.SavedState

/-!
# The next start

`restart` is the next start of the program over the saved files: `ST_Load`,
`startScanner` and the handlers up to the one in which the scanner stays.

* `taken_run`: a thread that has scanned, held or received has an entry to save;
* `restart_scan`, `restart_manual`, `restart_hold`: the starts for the three states
  that are saved;
* `load_savedState`: what they find of the saved state.
-/

namespace PiScan.Machine

open Scan Sigproc Runs TwosComplement PropertyTree

namespace World

variable {w w' : World} {l : Label}

/-! ## There is an entry to save -/

/-- The thread has an entry whenever it has scanned, held or received last, outside the
handlers that are about to take one. -/
def Taken (pre : List Label) (w : World) : Prop :=
  ∀ a, (activations pre).getLast? = some a → a = .ST_SCAN ∨ a = .ST_HOLD ∨ a = .ST_RECEIVE →
    w.sm.data.systems.size ≠ 0 → w.pc ≠ .scan → (∀ update, w.pc ≠ .hold update) →
    (∀ f, w.pc ≠ .crashed f) → w.sm.data.currentEntry.isSome = true

/-- A step that starts no handler, from a point at which there is an entry. -/
theorem Taken.go_on {pre : List Label} {pc : Pc} (h : w.Taken pre) (hl : l.activated = none)
    (hpc : w.pc = pc) (hst : pc.steady = true) (hhold : ∀ update, pc ≠ .hold update)
    (hsize : w'.sm.data.systems.size = w.sm.data.systems.size)
    (hcur : w'.sm.data.currentEntry = w.sm.data.currentEntry) : w'.Taken (pre ++ [l]) := by
  subst hpc
  intro a ha hkind hne _ _ _
  rw [getLast?_activations_of_none hl] at ha
  rw [hcur]
  exact h a ha hkind (hsize ▸ hne) (Pc.steady_ne hst).1 hhold (Pc.steady_ne hst).2

/-- A step of a client. -/
theorem Taken.client {pre : List Label} (h : w.Taken pre) (hs : w.ByClient l w') :
    w'.Taken (pre ++ [l]) := by
  intro a ha
  rw [getLast?_activations_of_none hs.activated] at ha
  rw [hs.pc, hs.data]
  exact h a ha

/-- A handler that does not count. -/
theorem taken_other {pre : List Label} {a : States}
    (ha : ¬(a = .ST_SCAN ∨ a = .ST_HOLD ∨ a = .ST_RECEIVE)) : w'.Taken (pre ++ [.activate a]) := by
  intro b hb hkind
  rw [activations_append, activations_singleton] at hb
  simp only [Label.activated, Option.toList_some, List.getLast?_concat, Option.some.injEq] at hb
  exact absurd (hb ▸ hkind) ha

/-- A handler that starts. -/
theorem Taken.starts {pre : List Label} {a : States} (hs : Moves w (.activate a) w') :
    w'.Taken (pre ++ [.activate a]) := by
  cases hs with
  | load hdue hd => exact taken_other (by decide)
  | scanEmpty hdue hempty => exact fun _ _ _ hne => absurd hempty hne
  | scan hdue hsome hd => exact fun _ _ _ _ hpc => absurd rfl hpc
  | holdIndex hdue hflag hindex hd => exact fun _ _ _ _ _ hpc => absurd rfl (hpc true)
  | hold hdue hno => exact fun _ _ _ _ _ hpc => absurd rfl (hpc _)
  | receive hdue he hd =>
    intro _ _ _ _ _ _ _
    exact (ThreadData.enterState_keeps hd).currentEntry ▸ ThreadData.isSome_of_entry he
  | manual hdue hdata => exact taken_other (by decide)
  | saveAll hdue hd => exact taken_other (by decide)
  | stopped hdue => exact taken_other (by decide)
  | @crash l f hfault => exact fun _ _ _ _ _ _ hcr => absurd rfl (hcr f)

/-- A handler that goes on. -/
theorem Taken.goes_on {pre : List Label} {r : ScannerSM.Reading} (h : w.Taken pre)
    (hs : Moves w (.resume r) w') : w'.Taken (pre ++ [.resume r]) := by
  cases hs with
  | scanEnd hpc hd =>
    obtain ⟨d₁, hits, rfl, -, hsome, -⟩ := ThreadData.scanEntry_scans hd
    exact fun _ _ _ _ _ _ _ => hsome
  | holdEntry hpc hd =>
    obtain ⟨hscans, e, he, -⟩ := ThreadData.holdEntry_scans hd
    exact fun _ _ _ _ _ _ _ => ThreadData.isSome_of_entry he
  | holdDecision hpc hd => exact h.go_on rfl hpc rfl (by rintro _ ⟨⟩) rfl rfl
  | holdEvent hpc => exact h.go_on rfl hpc rfl (by rintro _ ⟨⟩) rfl rfl
  | holdQuiet hpc => exact h.go_on rfl hpc rfl (by rintro _ ⟨⟩) rfl rfl
  | receiveEnd hpc hd =>
    have hk := (ThreadData.receiveEntry_keeps hd).1
    exact h.go_on rfl hpc rfl (by rintro _ ⟨⟩) (congrArg SystemList.size hk.systems) hk.currentEntry
  | manualEnd hpc => exact h.go_on rfl hpc rfl (by rintro _ ⟨⟩) rfl rfl
  | saveAllEnd hpc => exact h.go_on rfl hpc rfl (by rintro _ ⟨⟩) rfl rfl
  | @crash l f hfault => exact fun _ _ _ _ _ _ hcr => absurd rfl (hcr f)

theorem Taken.step {pre : List Label} (h : w.Taken pre) (hs : Step w l w') :
    w'.Taken (pre ++ [l]) := by
  rcases step_cases hs with hclient | ⟨a, rfl, hm⟩ | ⟨r, rfl, hm⟩
  · exact h.client hclient
  · exact Taken.starts hm
  · exact h.goes_on hm

theorem taken_start (file : SystemsFile) (demod : Demodulator) : (start file demod).Taken [] := by
  intro a ha
  simp at ha

theorem taken_run {file : SystemsFile} {demod : Demodulator} {ls : List Label}
    (h : Run Step (start file demod) ls w) : w.Taken ls := by
  have hboth := h.history (I := fun pre w => w.Taken pre) (P := fun _ => True)
    (fun _ _ _ _ _ hi hs => hi.step hs) (fun _ _ => trivial) (taken_start file demod)
  simpa using hboth

end World

/-! ## The next start -/

/-- `ScannerSM::startScanner`: the call that the main thread makes, and the list,
whose cursor `getEntryByIndex` may move. -/
def ScannerState.startScanner (state : ScannerState) (systems : SystemList) :
    Except Fault (Call × SystemList) :=
  if state.scanState = SCAN_STATE_HOLD then do
    let (entry, systems) ← systems.getEntryByIndex 64 state.holdIndex
    if (systems.deref entry).key = state.holdKey then return (.holdScan state.holdIndex, systems)
    else return (.startScan, systems)
  else if state.scanState = SCAN_STATE_MANUAL then
    .ok (.manualEntry state.manualFreq state.manualModualtion, systems)
  else .ok (.startScan, systems)

/-- A saved state, loaded again: a frequency that is no `int` is the default one. -/
def ScannerState.found (state : ScannerState) : ScannerState :=
  { state with manualFreq := if Fits 32 state.manualFreq then state.manualFreq else 100000000 }

/-- The steps of the client `c` in a call that is not ignored. -/
def Call.steps (c : Nat) : Call → List Label
  | .holdScan index =>
    [.begin c (.holdScan index), .storeFlag c, .storeIndex c, .lookup c, .commit c]
  | call => [.begin c call, .lookup c, .commit c]

/-- The handlers that follow a call, up to the one in which the scanner stays. -/
def Call.handlers : Call → List Label
  | .manualEntry _ _ => [.activate .ST_MANUAL, .resume ⟨false, 0⟩, .activate .ST_HOLD]
  | call => [.activate call.target]

namespace World

/-- The machine after `ST_Load`, with the cursor of the list where `startScanner` left it. -/
def ready (cubic : CubicSDR) (file : SystemsFile) (state : ScannerState) (systems : SystemList) :
    World :=
  { sm := ScannerSM.finish
      { (ScannerSM.start { ThreadData.new file (.start cubic) with state }).take with
        data := { ThreadData.new file (.start cubic) with state, systems } }
    pc := .idle
    clients := fun _ => .ready }

/-- A start over the files `file` and `state`: the scanner is about to scan or to hold. -/
def restart (cubic : CubicSDR) (file : SystemsFile) (state : ScannerState) : Option World := do
  let w ← step (.activate .ST_LOAD) (init { ThreadData.new file (.start cubic) with state })
  let (call, systems) ← (state.startScanner w.sm.data.systems).toOption
  exec (fun _ _ => True) (call.steps 0 ++ call.handlers)
    { w with sm := { w.sm with data := { w.sm.data with systems } } }

theorem ST_Load_ok {m : ScannerSM} {d : ThreadData} (h : m.data.load = .ok d) :
    m.ST_Load = .ok (.idle, ScannerSM.finish { m with data := d }) := by
  rw [ScannerSM.ST_Load, h]
  rfl

theorem ST_Scan_ready {m : ScannerSM} (hne : m.data.systems.size ≠ 0) (h : m.data.demod.Ready) :
    ∃ m', m.ST_Scan = .ok (.scan, m') ∧ m'.data.manualMode = false := by
  obtain ⟨d, hd, -⟩ :=
    ThreadData.enableAudioOut_ready (d := m.data.resetHits m.stateChanged) h false
  have hstart : ∃ d', (m.data.resetHits m.stateChanged).scanStart = .ok d' ∧
      d'.manualMode = false := by
    rw [ThreadData.scanStart, hd]
    exact ⟨_, rfl, rfl⟩
  obtain ⟨d', hd', hmode⟩ := hstart
  have hsize : (m.data.resetHits m.stateChanged).systems.size ≠ 0 := hne
  rw [ScannerSM.ST_Scan]
  simp only [if_neg hsize, hd']
  exact ⟨_, rfl, hmode⟩

theorem ST_Hold_index {m : ScannerSM} {p : EntryPtr} {systems : SystemList}
    (hflag : m.externalHold = true) (hindex : m.holdIndex ≠ [])
    (h : m.data.systems.getEntryByIndex 64 m.holdIndex = .ok (p, systems)) :
    m.ST_Hold = .ok (.hold true,
      { m with holdIndex := [], data := { m.data with systems, currentEntry := some p } }) := by
  have hsome : m.externalHold = true ∧ 0 < m.holdIndex.length :=
    ⟨hflag, List.length_pos_iff.mpr hindex⟩
  rw [ScannerSM.ST_Hold, if_pos hsome, ThreadData.indexEntry, h]
  rfl

theorem step_activate {w : World} {a : States} {pc : Pc} {m : ScannerSM} (hdue : w.Due a)
    (h : w.sm.stateEngine = .ok (pc, m)) : step (.activate a) w = some (w.go pc m) := by
  simp [step, perform, hdue.1, hdue.2.1, hdue.2.2, h, outcome, go]

theorem exec_append {ls ls' : List Label} {w w' : World}
    (h : exec (fun _ _ => True) ls w = some w') :
    exec (fun _ _ => True) (ls ++ ls') w = exec (fun _ _ => True) ls' w' := by
  induction ls generalizing w with
  | nil =>
    obtain rfl := Option.some.inj h
    rfl
  | cons l ls ih =>
    simp only [List.cons_append, exec, if_true] at h ⊢
    obtain ⟨w₁, hs, hr⟩ := Option.bind_eq_some_iff.mp h
    rw [hs]
    exact ih hr

theorem exec_activate {w : World} {a : States} {pc : Pc} {m : ScannerSM} (hdue : w.Due a)
    (h : w.sm.stateEngine = .ok (pc, m)) :
    exec (fun _ _ => True) [.activate a] w = some (w.go pc m) := by
  simp [exec, step_activate hdue h]

section Handlers

variable (cubic : CubicSDR) (file : SystemsFile) (state : ScannerState) {systems : SystemList}

theorem exec_startScan (hne : systems.size ≠ 0) :
    ∃ w', exec (fun _ _ => True) (Call.startScan.steps 0 ++ Call.startScan.handlers)
        (ready cubic file state systems) = some w' ∧
      w'.pc = .scan ∧ w'.sm.data.manualMode = false := by
  let w := (ready cubic file state systems).after (Call.startScan.steps 0)
  obtain ⟨m, hm, hmode⟩ := ST_Scan_ready (m := w.sm.take) hne (Demodulator.ready_start cubic)
  have hfirst : exec (fun _ _ => True) (Call.startScan.steps 0)
      (ready cubic file state systems) = some w := rfl
  have hlast : exec (fun _ _ => True) Call.startScan.handlers w = some (w.go .scan m) :=
    exec_activate ⟨rfl, rfl, rfl⟩ hm
  exact ⟨w.go .scan m, (exec_append hfirst).trans hlast, rfl, hmode⟩

theorem exec_manualEntry (freq : Int) (modulation : String) :
    ∃ w', exec (fun _ _ => True)
        ((Call.manualEntry freq modulation).steps 0 ++ (Call.manualEntry freq modulation).handlers)
        (ready cubic file state systems) = some w' ∧
      w'.pc = .hold true ∧ w'.sm.externalHold = true ∧
      w'.sm.data = (ready cubic file state systems).sm.data.manual freq modulation :=
  ⟨_, rfl, rfl, rfl, rfl⟩

theorem exec_holdScan {index : List Int} {p : EntryPtr} {systems' : SystemList}
    (hindex : index ≠ []) (h : systems.getEntryByIndex 64 index = .ok (p, systems')) :
    ∃ w', exec (fun _ _ => True) ((Call.holdScan index).steps 0 ++ (Call.holdScan index).handlers)
        (ready cubic file state systems) = some w' ∧
      w'.pc = .hold true ∧ w'.sm.externalHold = true ∧
      w'.sm.data =
        { (ready cubic file state systems).sm.data with
          systems := systems', currentEntry := some p } := by
  let w := (ready cubic file state systems).after ((Call.holdScan index).steps 0)
  have hm := ST_Hold_index (m := w.sm.take) rfl hindex h
  have hfirst : exec (fun _ _ => True) ((Call.holdScan index).steps 0)
      (ready cubic file state systems) = some w := rfl
  have hlast : exec (fun _ _ => True) (Call.holdScan index).handlers w =
      some (w.go (.hold true) _) := exec_activate ⟨rfl, rfl, rfl⟩ hm
  exact ⟨_, (exec_append hfirst).trans hlast, rfl, rfl, rfl⟩

/-- Whatever becomes of a hold, it is no scan. -/
theorem exec_holdScan_ne {index : List Int} {w' : World}
    (h : exec (fun _ _ => True) ((Call.holdScan index).steps 0 ++ (Call.holdScan index).handlers)
      (ready cubic file state systems) = some w') :
    w'.pc ≠ .scan ∧ w'.sm.data.manualMode = false := by
  let w := (ready cubic file state systems).after ((Call.holdScan index).steps 0)
  have hfirst : exec (fun _ _ => True) ((Call.holdScan index).steps 0)
      (ready cubic file state systems) = some w := rfl
  rw [exec_append hfirst] at h
  have hlast : exec (fun _ _ => True) [.activate .ST_HOLD] w = some w' := h
  have hengine : w.outcome w.sm.take.ST_Hold = w' := Option.some.inj hlast
  rw [← hengine]
  cases hm : w.sm.take.ST_Hold with
  | error f => exact ⟨by rintro ⟨⟩, rfl⟩
  | ok r =>
    rw [ScannerSM.ST_Hold] at hm
    split at hm
    · simp only [ThreadData.indexEntry, bind_eq_ok, pure_eq_ok, Prod.exists] at hm
      obtain ⟨_, ⟨p, sl, -, rfl⟩, rfl⟩ := hm
      exact ⟨by rintro ⟨⟩, rfl⟩
    · simp only [pure_eq_ok] at hm
      rw [← hm]
      exact ⟨by rintro ⟨⟩, rfl⟩

end Handlers

/-- `base` are the systems of `file`, loaded and sorted. -/
def Reloaded (cubic : CubicSDR) (file : SystemsFile) (base : SystemList) : Prop :=
  ∃ fresh, SystemList.empty.populateFromFile 64 file = .ok fresh ∧
    fresh.sortBins 64 cubic.sampleRate = .ok base

theorem restart_eq {cubic : CubicSDR} {file : SystemsFile} {base : SystemList}
    (h : Reloaded cubic file base) (state : ScannerState) :
    restart cubic file state = (state.startScanner base).toOption.bind fun r =>
      exec (fun _ _ => True) (r.1.steps 0 ++ r.1.handlers) (ready cubic file state r.2) := by
  obtain ⟨fresh, hload, hsort⟩ := h
  have hdata : ({ ThreadData.new file (.start cubic) with state } : ThreadData).load =
      .ok { ThreadData.new file (.start cubic) with state, systems := base } := by
    simp only [ThreadData.load, bind_eq_ok, pure_eq_ok]
    exact ⟨fresh, hload, base, hsort, rfl⟩
  have hstep : step (.activate .ST_LOAD) (init { ThreadData.new file (.start cubic) with state }) =
      some (ready cubic file state base) := by
    have hm := ST_Load_ok
      (m := (ScannerSM.start { ThreadData.new file (.start cubic) with state }).take) hdata
    exact step_activate ⟨rfl, rfl, rfl⟩ hm
  rw [restart, hstep]
  rfl

/-! ## The three starts -/

section Starts

variable {cubic : CubicSDR} {file : SystemsFile} {base : SystemList} {state : ScannerState}

theorem restart_scan (h : Reloaded cubic file base) (hne : base.size ≠ 0)
    (hs : state.scanState = SCAN_STATE_SCAN) :
    ∃ w', restart cubic file state = some w' ∧ w'.pc = .scan ∧ w'.sm.data.manualMode = false := by
  have hcall : state.startScanner base = .ok (.startScan, base) := by
    rw [ScannerState.startScanner, hs]
    rfl
  rw [restart_eq h, hcall]
  exact exec_startScan cubic file state hne

theorem restart_manual (h : Reloaded cubic file base) (hs : state.scanState = SCAN_STATE_MANUAL) :
    ∃ w', restart cubic file state = some w' ∧ w'.pc = .hold true ∧ w'.sm.externalHold = true ∧
      w'.sm.data = (ready cubic file state base).sm.data.manual state.manualFreq
        state.manualModualtion := by
  have hcall : state.startScanner base =
      .ok (.manualEntry state.manualFreq state.manualModualtion, base) := by
    rw [ScannerState.startScanner, hs]
    rfl
  rw [restart_eq h, hcall]
  exact exec_manualEntry cubic file state state.manualFreq state.manualModualtion

/-- A hold whose key is that of the entry at its index. -/
theorem restart_hold (h : Reloaded cubic file base) (hs : state.scanState = SCAN_STATE_HOLD)
    {p : EntryPtr} (hindex : state.holdIndex ≠ [])
    (hp : base.getEntryByIndex 64 state.holdIndex = .ok (p, base))
    (hkey : (base.deref p).key = state.holdKey) :
    ∃ w', restart cubic file state = some w' ∧ w'.pc = .hold true ∧ w'.sm.externalHold = true ∧
      w'.sm.data = { (ready cubic file state base).sm.data with currentEntry := some p } := by
  have hcall : state.startScanner base = .ok (.holdScan state.holdIndex, base) := by
    rw [ScannerState.startScanner, hs, hp]
    simp [Bind.bind, Except.bind, hkey, pure, Except.pure]
  rw [restart_eq h, hcall]
  exact exec_holdScan cubic file state hindex hp

/-- A hold with another key. -/
theorem restart_hold_scan (h : Reloaded cubic file base) (hne : base.size ≠ 0)
    (hs : state.scanState = SCAN_STATE_HOLD) {p : EntryPtr} {systems : SystemList}
    (hp : base.getEntryByIndex 64 state.holdIndex = .ok (p, systems))
    (hsys : systems.systems = base.systems) (hkey : (systems.deref p).key ≠ state.holdKey) :
    ∃ w', restart cubic file state = some w' ∧ w'.pc = .scan ∧ w'.sm.data.manualMode = false := by
  have hcall : state.startScanner base = .ok (.startScan, systems) := by
    rw [ScannerState.startScanner, hs, hp]
    simp [Bind.bind, Except.bind, hkey, pure, Except.pure]
  rw [restart_eq h, hcall]
  exact exec_startScan cubic file state (by rwa [SystemList.size, hsys])

/-- A hold whose key is that of the entry found is no scan. -/
theorem restart_hold_ne (h : Reloaded cubic file base) (hs : state.scanState = SCAN_STATE_HOLD)
    {p : EntryPtr} {systems : SystemList}
    (hp : base.getEntryByIndex 64 state.holdIndex = .ok (p, systems))
    (hkey : (systems.deref p).key = state.holdKey) {w' : World}
    (hw : restart cubic file state = some w') : w'.pc ≠ .scan ∧ w'.sm.data.manualMode = false := by
  have hcall : state.startScanner base = .ok (.holdScan state.holdIndex, systems) := by
    rw [ScannerState.startScanner, hs, hp]
    simp [Bind.bind, Except.bind, hkey, pure, Except.pure]
  rw [restart_eq h, hcall] at hw
  exact exec_holdScan_ne cubic file state hw

/-- A hold never comes back as a manual entry. -/
theorem restart_hold_mode (h : Reloaded cubic file base) (hne : base.size ≠ 0)
    (hs : state.scanState = SCAN_STATE_HOLD) {w' : World}
    (hw : restart cubic file state = some w') : w'.sm.data.manualMode = false := by
  cases hp : base.getEntryByIndex 64 state.holdIndex with
  | error f =>
    have hcall : state.startScanner base = .error f := by
      rw [ScannerState.startScanner, hs, hp]
      rfl
    rw [restart_eq h, hcall] at hw
    cases hw
  | ok r =>
    obtain ⟨p, systems⟩ := r
    by_cases hkey : (systems.deref p).key = state.holdKey
    · exact (restart_hold_ne h hs hp hkey hw).2
    · have hsame := (SystemList.getEntryByIndex_offers hp).1
      obtain ⟨w₁, hw₁, -, hmode⟩ := restart_hold_scan h hne hs hp hsame.systems hkey
      obtain rfl := Option.some.inj (hw.symm.trans hw₁)
      exact hmode

end Starts

/-! ## What was saved -/

theorem savedState_cases {d : ThreadData} {externalHold : Bool} {state : ScannerState}
    (h : d.savedState externalHold = .ok state) :
    (d.manualMode = true ∧ ∃ e, d.entry = .ok e ∧
      state = { d.state with
        scanState := SCAN_STATE_MANUAL, manualFreq := e.freq, manualModualtion := e.modulation
        holdIndex := [], holdKey := "" }) ∨
    (d.manualMode = false ∧ externalHold = true ∧ ∃ e, d.entry = .ok e ∧
      state = { d.state with
        scanState := SCAN_STATE_HOLD, holdIndex := [wrap 32 e.sysIndex, wrap 32 e.entryIndex]
        holdKey := e.key, manualFreq := 0, manualModualtion := "" }) ∨
    (d.manualMode = false ∧ externalHold = false ∧
      state = { d.state with
        scanState := SCAN_STATE_SCAN, holdIndex := [], holdKey := "", manualFreq := 0
        manualModualtion := "" }) := by
  unfold ThreadData.savedState at h
  cases hm : d.manualMode with
  | true =>
    simp only [hm, ↓reduceIte, bind_eq_ok, pure_eq_ok] at h
    obtain ⟨e, he, rfl⟩ := h
    exact .inl ⟨rfl, e, he, rfl⟩
  | false =>
    cases externalHold with
    | true =>
      simp only [hm, Bool.false_eq_true, ↓reduceIte, bind_eq_ok, pure_eq_ok] at h
      obtain ⟨e, he, rfl⟩ := h
      exact .inr (.inl ⟨rfl, rfl, e, he, rfl⟩)
    | false =>
      simp only [hm, Bool.false_eq_true, ↓reduceIte, pure_eq_ok] at h
      exact .inr (.inr ⟨rfl, rfl, h.symm⟩)

/-- **What the next start finds of it**: all but a frequency that is no `int`. -/
theorem load_savedState {d : ThreadData} {externalHold : Bool} {state : ScannerState}
    (h : d.savedState externalHold = .ok state) (pTree : Tree) :
    ScannerState.load (state.save pTree) .new = state.found := by
  have hfits : Fits 32 state.scanState ∧ ∀ i ∈ state.holdIndex, Fits 32 i := by
    have hmanual : Fits 32 SCAN_STATE_MANUAL := by decide
    have hhold : Fits 32 SCAN_STATE_HOLD := by decide
    have hscan : Fits 32 SCAN_STATE_SCAN := by decide
    rcases savedState_cases h with ⟨-, e, -, rfl⟩ | ⟨-, -, e, -, rfl⟩ | ⟨-, -, rfl⟩
    · exact ⟨hmanual, fun i hi => absurd hi (List.not_mem_nil)⟩
    · refine ⟨hhold, fun i hi => ?_⟩
      simp only [List.mem_cons, List.not_mem_nil, or_false] at hi
      rcases hi with hi | hi
      · rw [hi]
        exact wrap_fits (by decide) _
      · rw [hi]
        exact wrap_fits (by decide) _
    · exact ⟨hscan, fun i hi => absurd hi (List.not_mem_nil)⟩
  rw [ScannerState.load_save hfits.1 hfits.2]
  rfl

end World

end PiScan.Machine

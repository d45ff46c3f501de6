import PiScan.Machine.Restart
import PiScan.Scan.Rewind

/-!
# A saved hold that is stale

`startScanner` looks up the saved index with `getEntryByIndex`, which for an index of
no entry calls `getNextEntry`.

* `perform_withState`: the handlers do not read the saved state, they only write it;
* `likeScan_iff`: rejecting a stale hold leaves the scan untouched just where the index
  is that of an entry, or the call of `getNextEntry` leads the cursor around.
-/

namespace PiScan.Machine

open Scan Sigproc Runs

/-! ## The saved state is not read -/

/-- `f` takes what `a` has put into its argument to what `b` puts into its result. -/
def Commutes {ι ε α β : Type} (a : ι → α → α) (b : ι → β → β) (f : α → Except ε β) : Prop :=
  ∀ s x, f (a s x) = (f x).map (b s)

theorem Commutes.bind {ι ε α β γ : Type} {a : ι → α → α} {b : ι → β → β} {c : ι → γ → γ}
    {f : α → Except ε β} {g : β → Except ε γ} (hf : Commutes a b f) (hg : Commutes b c g) :
    Commutes a c fun x => f x >>= g := by
  intro s x
  show f (a s x) >>= g = (f x >>= g).map (c s)
  rw [hf s x]
  cases f x with
  | error e => rfl
  | ok y => exact hg s y

namespace ThreadData

/-- The same with another saved state. -/
def withState (s : ScannerState) (d : ThreadData) : ThreadData := { d with state := s }

/-- `f` does not depend on the saved state, and leaves it alone. -/
abbrev Ignores (f : ThreadData → Except Fault ThreadData) : Prop := Commutes withState withState f

/-- The same for a function with a result. -/
abbrev IgnoresIn {α : Type} (f : ThreadData → Except Fault (α × ThreadData)) : Prop :=
  Commutes withState (fun s => Prod.map id (withState s)) f

theorem ignores_enableAudioOut (en : Bool) : Ignores (enableAudioOut en) := by
  intro s d
  show (d.demod.squelchBreak en >>= fun demod => _) = _
  unfold enableAudioOut
  cases d.demod.squelchBreak en <;> rfl

theorem ignoresIn_entrySignal (signal : Bool) : IgnoresIn (entrySignal signal) := by
  intro s d
  show (d.entry >>= fun e => hasSignal e signal d.demod >>= fun r => _) = _
  unfold entrySignal
  cases d.entry with
  | error f => rfl
  | ok e =>
    show (hasSignal e signal d.demod >>= fun r => _) =
      Except.map _ (hasSignal e signal d.demod >>= fun r => _)
    cases hasSignal e signal d.demod <;> rfl

theorem ignores_nextEntry : Ignores nextEntry := by
  intro s d
  show (d.systems.getNextEntry 64 >>= fun r => _) = _
  unfold nextEntry
  cases d.systems.getNextEntry 64 <;> rfl

theorem ignores_indexEntry (index : List Int) : Ignores (indexEntry index) := by
  intro s d
  show (d.systems.getEntryByIndex 64 index >>= fun r => _) = _
  unfold indexEntry
  cases d.systems.getEntryByIndex 64 index <;> rfl

theorem ignores_broadcastContextUpdate : Ignores broadcastContextUpdate := by
  intro s d
  show (d.newContext >>= fun ctx => _) = _
  unfold broadcastContextUpdate
  cases d.newContext <;> rfl

theorem Ignores.onlyIf {f : ThreadData → Except Fault ThreadData} (h : Ignores f)
    (c : ThreadData → Bool) (hc : ∀ s d, c (withState s d) = c d) :
    Ignores fun d => d.onlyIf (c d) f := by
  intro s d
  show (withState s d).onlyIf (c (withState s d)) f = Except.map _ (d.onlyIf (c d) f)
  rw [hc]
  cases c d with
  | true => exact h s d
  | false => rfl

theorem ignores_load : Ignores load := by
  intro s d
  show (d.systems.populateFromFile 64 d.file >>= fun sl =>
    sl.sortBins 64 d.demod.cubic.sampleRate >>= fun sl' => _) = _
  unfold load
  cases d.systems.populateFromFile 64 d.file with
  | error f => rfl
  | ok sl =>
    show (sl.sortBins 64 d.demod.cubic.sampleRate >>= fun sl' => _) =
      Except.map _ (sl.sortBins 64 d.demod.cubic.sampleRate >>= fun sl' => _)
    cases sl.sortBins 64 d.demod.cubic.sampleRate <;> rfl

theorem ignores_enterState (audio update : Bool) (X : ContextState) :
    Ignores (enterState audio X update) := by
  refine (ignores_enableAudioOut audio).bind fun s d => ?_
  exact ignores_broadcastContextUpdate.onlyIf (fun _ => update) (fun _ _ => rfl) s
    { d with currentContext := { d.currentContext with state := X } }

theorem ignores_scanStart : Ignores scanStart :=
  (ignores_enableAudioOut false).bind fun _ _ => rfl

theorem ignoresIn_scanEntry (changed signal : Bool) : IgnoresIn (scanEntry changed signal) := by
  have hbroadcast : Ignores (onlyIf changed broadcastContextUpdate) :=
    ignores_broadcastContextUpdate.onlyIf (fun _ => changed) fun _ _ => rfl
  have hnext : Ignores fun d => d.onlyIf (d.squelchHits = 0 ∨ changed) nextEntry :=
    ignores_nextEntry.onlyIf (fun d => d.squelchHits = 0 ∨ changed) fun _ _ => rfl
  refine hbroadcast.bind (hnext.bind ((ignoresIn_entrySignal signal).bind ?_))
  rintro s ⟨found, d⟩
  cases found <;> rfl

theorem ignores_skipDummies (fuel : Nat) : Ignores (skipDummies fuel) := by
  induction fuel with
  | zero => exact fun _ _ => rfl
  | succ fuel ih =>
    let skip := fun d : ThreadData =>
      d.entrySignal false >>= fun r => nextEntry r.2 >>= skipDummies fuel
    have hskip : Ignores skip :=
      (ignoresIn_entrySignal false).bind fun s r => ignores_nextEntry.bind ih s r.2
    have hloop : ∀ d, skipDummies (fuel + 1) d =
        d.entry >>= fun e => if e.isDummy then skip d else .ok d := fun _ => rfl
    intro s d
    rw [hloop, hloop]
    show d.entry >>= (fun e => if e.isDummy then skip (withState s d) else .ok (withState s d)) = _
    cases d.entry with
    | error f => rfl
    | ok e =>
      cases hdummy : e.isDummy with
      | true => simpa [Bind.bind, Except.bind, hdummy] using hskip s d
      | false => simp [Bind.bind, Except.bind, hdummy, Except.map]

theorem ignoresIn_holdEntry (update signal : Bool) : IgnoresIn (holdEntry update signal) := by
  have hskip : Ignores fun d => d.skipDummies (d.systems.rounds + 1) :=
    fun s d => ignores_skipDummies _ s d
  exact hskip.bind ((ignores_enterState false update .HOLD).bind (ignoresIn_entrySignal signal))

theorem ignoresIn_receiveEntry (signal : Bool) (now : Int) :
    IgnoresIn (receiveEntry signal now) := by
  refine (ignoresIn_entrySignal signal).bind ?_
  rintro s ⟨found, d⟩
  cases found <;> rfl

end ThreadData

namespace ScannerSM

/-- The same with another saved state. -/
def withState (s : ScannerState) (m : ScannerSM) : ScannerSM :=
  { m with data := m.data.withState s }

/-- A part of a handler does not depend on the saved state. -/
abbrev Ignores (f : ScannerSM → Except Fault (Pc × ScannerSM)) : Prop :=
  Commutes withState (fun s => Prod.map id (withState s)) f

/-- What a handler does with its data and nothing else. -/
theorem ignores_data {f : ThreadData → Except Fault ThreadData} (hf : ThreadData.Ignores f)
    {k : ScannerSM → ThreadData → Pc × ScannerSM}
    (hk : ∀ s m d, k (withState s m) (d.withState s) = Prod.map id (withState s) (k m d)) :
    Ignores fun m => f m.data >>= fun d => pure (k m d) := by
  intro s m
  show f (m.data.withState s) >>= (fun d => pure (k (withState s m) d)) =
    Except.map _ (f m.data >>= fun d => pure (k m d))
  rw [hf s m.data]
  cases f m.data with
  | error e => rfl
  | ok d => exact congrArg Except.ok (hk s m d)

/-- The same for a function with a result. -/
theorem ignores_dataIn {α : Type} {f : ThreadData → Except Fault (α × ThreadData)}
    (hf : ThreadData.IgnoresIn f) {k : ScannerSM → α × ThreadData → Pc × ScannerSM}
    (hk : ∀ s m r, k (withState s m) (Prod.map id (ThreadData.withState s) r) =
      Prod.map id (withState s) (k m r)) :
    Ignores fun m => f m.data >>= fun r => pure (k m r) := by
  intro s m
  show f (m.data.withState s) >>= (fun r => pure (k (withState s m) r)) =
    Except.map _ (f m.data >>= fun r => pure (k m r))
  rw [hf s m.data]
  cases f m.data with
  | error e => rfl
  | ok r => exact congrArg Except.ok (hk s m r)

theorem ignores_resume (r : Reading) (pc : Pc) : Ignores (resume r pc) := by
  cases pc with
  | scan =>
    intro s m
    exact ignores_dataIn (ThreadData.ignoresIn_scanEntry m.stateChanged r.signal)
      (k := fun m r => (.idle, ScannerSM.raise r.1 { m with data := r.2 })) (fun _ _ _ => rfl) s m
  | hold update =>
    exact ignores_dataIn (ThreadData.ignoresIn_holdEntry update r.signal)
      (k := fun m r => (.holdDecision r.1, { m with data := r.2 })) fun _ _ _ => rfl
  | holdDecision found =>
    intro s m
    show (m.data.holdDecision found m.externalHold m.evtSrcExternal r.now >>= fun next => _) =
      Except.map _ (m.data.holdDecision found m.externalHold m.evtSrcExternal r.now >>=
        fun next => _)
    cases m.data.holdDecision found m.externalHold m.evtSrcExternal r.now <;> rfl
  | holdEvent next =>
    intro s m
    cases next <;> rfl
  | receive =>
    exact ignores_dataIn (ThreadData.ignoresIn_receiveEntry r.signal r.now)
      (k := fun m r => (.idle, ScannerSM.raise r.1 { m with data := r.2 })) fun _ _ _ => rfl
  | manual => exact fun _ _ => rfl
  | saveAll => exact fun _ _ => rfl
  | idle => exact fun _ _ => rfl
  | ended => exact fun _ _ => rfl
  | crashed f => exact fun _ _ => rfl

theorem ignores_ST_Scan : Ignores ST_Scan := by
  intro s m
  let scan := fun m : ScannerSM =>
    (m.data.resetHits m.stateChanged).scanStart >>= fun data =>
      (pure (Pc.scan, { m with externalHold := false, data }) : Except Fault (Pc × ScannerSM))
  have hscan : scan (withState s m) = (scan m).map (Prod.map id (withState s)) := by
    show ((m.data.resetHits m.stateChanged).withState s).scanStart >>= _ = _
    rw [ThreadData.ignores_scanStart]
    show _ = ((m.data.resetHits m.stateChanged).scanStart >>= _).map _
    cases (m.data.resetHits m.stateChanged).scanStart <;> rfl
  by_cases hempty : m.data.systems.size = 0
  · have hboth : ∀ m : ScannerSM, m.data.systems.size = 0 → m.ST_Scan = .ok (.idle, { m with
        toStateMachine := (m.internalEvent .ST_MANUAL (some (.number 100000000))).endHandler
        data := m.data.resetHits m.stateChanged }) := fun m hm => if_pos hm
    rw [hboth m hempty, hboth (withState s m) hempty]
    rfl
  · have hboth : ∀ m : ScannerSM, ¬m.data.systems.size = 0 → m.ST_Scan = scan m :=
      fun m hm => if_neg hm
    rw [hboth m hempty, hboth (withState s m) hempty, hscan]

theorem ignores_ST_Hold : Ignores ST_Hold := by
  intro s m
  by_cases hindex : m.externalHold = true ∧ 0 < m.holdIndex.length
  · have hboth : ∀ m : ScannerSM, m.externalHold = true ∧ 0 < m.holdIndex.length →
        m.ST_Hold = m.data.indexEntry m.holdIndex >>= fun data =>
          pure (.hold true, { m with holdIndex := [], data }) := fun m hm => if_pos hm
    rw [hboth m hindex, hboth (withState s m) hindex]
    exact ignores_data (ThreadData.ignores_indexEntry m.holdIndex)
      (k := fun m d => (.hold true, { m with holdIndex := [], data := d })) (fun _ _ _ => rfl) s m
  · have hboth : ∀ m : ScannerSM, ¬(m.externalHold = true ∧ 0 < m.holdIndex.length) →
        m.ST_Hold = .ok (.hold m.stateChanged, m) := fun m hm => if_neg hm
    rw [hboth m hindex, hboth (withState s m) hindex]
    rfl

theorem ignores_ST_Receive : Ignores ST_Receive := by
  intro s m
  show m.data.entry >>= (fun e => _) = Except.map _ (m.data.entry >>= fun e => _)
  cases m.data.entry with
  | error f => rfl
  | ok e =>
    exact ignores_data
      (ThreadData.ignores_enterState true (m.raiseIfLocked e.isLockedOut).stateChanged .RECEIVE)
      (k := fun m d => (.receive, { m with data := d })) (fun _ _ _ => rfl)
      s (m.raiseIfLocked e.isLockedOut)

/-- Any handler may replace the saved state, and does not depend on it. -/
theorem stateMap_withState (h : States) (data : Option EventData) (s : ScannerState)
    (m : ScannerSM) : ∃ s', stateMap h data (withState s m) =
      (stateMap h data m).map (Prod.map id (withState s')) := by
  cases h with
  | ST_LOAD =>
    exact ⟨s, ignores_data ThreadData.ignores_load
      (k := fun m d => (.idle, ScannerSM.finish { m with data := d })) (fun _ _ _ => rfl) s m⟩
  | ST_SCAN => exact ⟨s, ignores_ST_Scan s m⟩
  | ST_HOLD => exact ⟨s, ignores_ST_Hold s m⟩
  | ST_RECEIVE => exact ⟨s, ignores_ST_Receive s m⟩
  | ST_MANUAL =>
    refine ⟨s, ?_⟩
    rcases data with _ | ⟨freq, modulation⟩ | n <;> rfl
  | ST_SAVEALL =>
    show ∃ s', (m.data.saveAll m.externalHold >>= fun d => _) =
      Except.map (Prod.map id (withState s')) (m.data.saveAll m.externalHold >>= fun d => _)
    cases m.data.saveAll m.externalHold with
    | error f => exact ⟨s, rfl⟩
    | ok d => exact ⟨d.state, rfl⟩
  | ST_STOPPED => exact ⟨s, rfl⟩

end ScannerSM

/-- The saved hold is stale: its index is missing, out of range, or that of an entry with
another key. -/
def ScannerState.Stale (base : SystemList) (state : ScannerState) : Prop :=
  state.scanState = SCAN_STATE_HOLD ∧
    ∀ p, base.named state.holdIndex = some p → (base.deref p).key ≠ state.holdKey

/-- The look-up of the stale index leaves the cursor where it is: it finds an entry, or the
only one that is not locked out, after which the cursor is back at its start. -/
def ScannerState.Spared (base : SystemList) (state : ScannerState) : Prop :=
  (base.named state.holdIndex).isSome = true ∨
    ∃ p, base.OnlyLast p ∧ (base.deref p).key ≠ state.holdKey

namespace World

variable {w w' : World} {s : ScannerState} {l : Label} {ls : List Label}

/-- The same with another saved state. -/
def withState (s : ScannerState) (w : World) : World := { w with sm := w.sm.withState s }

theorem outcome_withState {s' : ScannerState} {x y : Except Fault (Pc × ScannerSM)}
    (h : x = y.map (Prod.map id (ScannerSM.withState s'))) :
    ∃ s'', some ((w.withState s).outcome x) = (some (w.outcome y)).map (withState s'') := by
  rw [h]
  cases y with
  | error f => exact ⟨s, rfl⟩
  | ok r => exact ⟨s', rfl⟩

/-- A step may replace the saved state, and does not depend on it. -/
theorem perform_withState (l : Label) (s : ScannerState) (w : World) :
    ∃ s', perform l (w.withState s) = (perform l w).map (withState s') := by
  have hclients : (w.withState s).clients = w.clients := rfl
  cases l with
  | begin c call =>
    refine ⟨s, ?_⟩
    simp only [perform, hclients]
    split <;> rfl
  | storeFlag c =>
    refine ⟨s, ?_⟩
    simp only [perform, hclients]
    cases w.clients c with
    | begun call => cases call <;> rfl
    | _ => rfl
  | storeIndex c =>
    refine ⟨s, ?_⟩
    simp only [perform, hclients]
    cases w.clients c <;> rfl
  | lookup c =>
    refine ⟨s, ?_⟩
    simp only [perform, hclients]
    cases (w.clients c).toLookup <;> rfl
  | ignore c =>
    refine ⟨s, ?_⟩
    simp only [perform, hclients]
    cases w.clients c with
    | looked call next => cases next <;> rfl
    | _ => rfl
  | commit c =>
    refine ⟨s, ?_⟩
    simp only [perform, hclients]
    cases w.clients c with
    | looked call next =>
      cases next with
      | none => rfl
      | some next =>
        show (if w.pc.Unlocked then _ else _) = Option.map _ (if w.pc.Unlocked then _ else _)
        split <;> rfl
    | _ => rfl
  | activate a =>
    by_cases hdue : w.Due a
    · obtain ⟨s', hs'⟩ := ScannerSM.stateMap_withState w.sm.currentState w.sm.pEventData s w.sm.take
      obtain ⟨s'', hs''⟩ := outcome_withState (w := w) (s := s) hs'
      refine ⟨s'', ?_⟩
      have hboth : ∀ v : World, v.Due a →
          perform (.activate a) v = some (v.outcome v.sm.stateEngine) := fun v hv => if_pos hv
      rw [hboth w hdue, hboth (w.withState s) hdue]
      exact hs''
    · refine ⟨s, ?_⟩
      have hboth : ∀ v : World, ¬v.Due a → perform (.activate a) v = none := fun v hv => if_neg hv
      rw [hboth w hdue, hboth (w.withState s) hdue]
      rfl
  | resume r =>
    by_cases hin : w.pc.InHandler
    · obtain ⟨s'', hs''⟩ :=
        outcome_withState (w := w) (s := s) (ScannerSM.ignores_resume r w.pc s w.sm)
      refine ⟨s'', ?_⟩
      have hboth : ∀ v : World, v.pc.InHandler →
          perform (.resume r) v = some (v.outcome (v.sm.resume r v.pc)) := fun v hv => if_pos hv
      rw [hboth w hin, hboth (w.withState s) hin]
      exact hs''
    · refine ⟨s, ?_⟩
      have hboth : ∀ v : World, ¬v.pc.InHandler → perform (.resume r) v = none :=
        fun v hv => if_neg hv
      rw [hboth w hin, hboth (w.withState s) hin]
      rfl

theorem step_withState (l : Label) (s : ScannerState) (w : World) :
    ∃ s', step l (w.withState s) = (step l w).map (withState s') := by
  by_cases hcrash : ∃ f, w.pc = .crashed f
  · obtain ⟨f, hf⟩ := hcrash
    refine ⟨s, ?_⟩
    have hboth : ∀ v : World, v.pc = .crashed f → step l v = none := fun v hv => by
      rw [step, hv]
    rw [hboth w hf, hboth (w.withState s) hf]
    rfl
  · have hboth : ∀ v : World, v.pc = w.pc → step l v = perform l v := fun v hv => by
      unfold step
      split
      · next f hf => exact absurd ⟨f, hv.symm.trans hf⟩ hcrash
      · rfl
    rw [hboth w rfl, hboth (w.withState s) rfl]
    exact perform_withState l s w

/-! ## The entries scanned -/

/-- The entries that the steps of `ST_Scan` among `ls` are on, in order. -/
def scanned (w : World) : List Label → List (Option EntryPtr)
  | [] => []
  | l :: ls =>
    match step l w with
    | none => []
    | some w' =>
      (if w.pc = .scan ∧ l.client = none then [w'.sm.data.currentEntry] else []) ++ scanned w' ls

theorem scanned_withState (s : ScannerState) (w : World) (ls : List Label) :
    (w.withState s).scanned ls = w.scanned ls := by
  induction ls generalizing w s with
  | nil => rfl
  | cons l ls ih =>
    obtain ⟨s', hs'⟩ := step_withState l s w
    simp only [scanned, hs']
    cases step l w with
    | none => rfl
    | some w' =>
      simp only [Option.map_some, ih]
      rfl

/-! ## Rejecting a stale hold -/

/-- The first scan after a start with `state` is that of a start in scan state: the call is
`startScan`, the cursor is where `ST_Load` has left it, and so are the entries in every run. -/
def LikeScan (cubic : CubicSDR) (file : SystemsFile) (base : SystemList) (state : ScannerState) :
    Prop :=
  ∃ systems, state.startScanner base = .ok (.startScan, systems) ∧
    (systems.binNum = base.binNum ∧ systems.entryNum = base.entryNum ∧
      systems.retune = base.retune) ∧
    ∀ ls, (ready cubic file state systems).scanned (Call.startScan.steps 0 ++ ls) =
      (ready cubic file { state with scanState := SCAN_STATE_SCAN } base).scanned
        (Call.startScan.steps 0 ++ ls)

/-- The database that `ST_Load` leaves. -/
theorem Reloaded.binned {cubic : CubicSDR} {file : SystemsFile} {base : SystemList}
    (h : Reloaded cubic file base) (hne : base.size ≠ 0) :
    SystemList.Binned 64 cubic.sampleRate base ∧ base.allEntries ≠ [] := by
  obtain ⟨fresh, hload, hsort⟩ := h
  have hfresh := populateFromFile_fresh SystemList.fresh_empty hload
  rcases SystemList.sortBins_cases hfresh hsort with ⟨hnone, rfl⟩ | ⟨hsome, hbinned, hsys⟩
  · exact absurd (by rw [SystemList.size, hnone]; rfl) hne
  · exact ⟨hbinned, by rwa [SystemList.allEntries_congr hsys]⟩

theorem startScanner_eq_startScan {state : ScannerState} {base systems : SystemList}
    (hs : state.scanState = SCAN_STATE_HOLD) :
    state.startScanner base = .ok (.startScan, systems) ↔
      ∃ p, base.getEntryByIndex 64 state.holdIndex = .ok (p, systems) ∧
        (systems.deref p).key ≠ state.holdKey := by
  rw [ScannerState.startScanner, if_pos hs]
  simp only [bind_eq_ok, Prod.exists]
  constructor
  · rintro ⟨p, sl, hp, h⟩
    split at h
    · cases h
    · next hkey =>
      cases h
      exact ⟨p, hp, hkey⟩
  · rintro ⟨p, hp, hkey⟩
    exact ⟨p, systems, hp, if_neg hkey⟩

/-- **A stale hold** leaves the scan untouched just where the look-up of its index does. -/
theorem likeScan_iff {cubic : CubicSDR} {file : SystemsFile} {base : SystemList}
    {state : ScannerState} (h : Reloaded cubic file base) (hne : base.size ≠ 0)
    (hstale : state.Stale base) : LikeScan cubic file base state ↔ state.Spared base := by
  obtain ⟨hbinned, hentries⟩ := h.binned hne
  constructor
  · rintro ⟨systems, hcall, ⟨hbin, hentry, hretune⟩, -⟩
    obtain ⟨p, hp, hkey⟩ := (startScanner_eq_startScan hstale.1).mp hcall
    have hsame := (SystemList.getEntryByIndex_offers hp).1
    obtain rfl : systems = base := by
      obtain ⟨hsys, hbins⟩ := hsame
      cases systems
      cases base
      simp_all
    cases hnamed : systems.named state.holdIndex with
    | some q => exact .inl (by rw [hnamed]; rfl)
    | none =>
      rw [SystemList.getEntryByIndex_none hbinned.addressed hnamed] at hp
      exact .inr ⟨p, (SystemList.getNextEntry_start_iff hbinned hentries).mp hp, hkey⟩
  · intro hspared
    have hfound : ∃ p, base.getEntryByIndex 64 state.holdIndex = .ok (p, base) ∧
        (base.deref p).key ≠ state.holdKey := by
      cases hnamed : base.named state.holdIndex with
      | some q =>
        exact ⟨q, SystemList.getEntryByIndex_some hbinned.addressed hnamed, hstale.2 q hnamed⟩
      | none =>
        rcases hspared with hsome | ⟨p, hlast, hkey⟩
        · rw [hnamed] at hsome
          cases hsome
        · rw [SystemList.getEntryByIndex_none hbinned.addressed hnamed]
          exact ⟨p, (SystemList.getNextEntry_start_iff hbinned hentries).mpr hlast, hkey⟩
    refine ⟨base, (startScanner_eq_startScan hstale.1).mpr hfound, ⟨rfl, rfl, rfl⟩, fun ls => ?_⟩
    exact (scanned_withState { state with scanState := SCAN_STATE_SCAN }
      (ready cubic file state base) _).symm

/-- The database of `oneChannelFile`, sorted. -/
def oneChannelBins : SystemList :=
  { oneChannel 446006250 with bins := [{ entries := [.channel 0 0], lockedEntries := 0 }] }

theorem reloaded_oneChannel : Reloaded tunedDemod.cubic oneChannelFile oneChannelBins :=
  ⟨oneChannel 446006250, by decide +kernel, rfl⟩

/-- A saved hold on the index, with the key of another channel. -/
def staleHold (index : List Int) : ScannerState :=
  { ScannerState.new with
    scanState := SCAN_STATE_HOLD, holdIndex := index, holdKey := "F156800000FM" }

theorem likeScan_oneChannel :
    LikeScan tunedDemod.cubic oneChannelFile oneChannelBins (staleHold [0, 0]) :=
  (likeScan_iff reloaded_oneChannel (by decide) ⟨rfl, by rintro p ⟨⟩; decide⟩).mpr
    (.inl (by decide))

/-- Without an index, the dummy of the first bin is gone before the scan starts. -/
theorem not_likeScan_oneChannel :
    ∃ cubic file base state, Reloaded cubic file base ∧ base.size ≠ 0 ∧ state.Stale base ∧
      ¬LikeScan cubic file base state := by
  refine ⟨_, _, _, staleHold [], reloaded_oneChannel, by decide, ⟨rfl, by rintro p ⟨⟩⟩, ?_⟩
  rintro ⟨systems, hcall, ⟨-, -, hretune⟩, -⟩
  have hmoved : ((staleHold []).startScanner oneChannelBins).toOption.map
      (fun r => r.2.retune) = some false := by decide
  rw [hcall] at hmoved
  exact absurd ((Option.some.inj hmoved).symm.trans hretune) (by decide)

end World

end PiScan.Machine

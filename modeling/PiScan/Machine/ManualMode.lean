import PiScan.Machine.Context
import PiScan.Machine.Hold

/-!
# Does the manual mode mean the manual entry?

`ST_Manual` sets `_manualMode` with its entry and `ST_Scan` clears it with the
next one, but an `ST_Hold` that takes an index changes the entry alone.

* `InMode.step`: mode and entry stay together if no `ST_Hold` takes an index in
  manual mode;
* `manual_mode`: so after every `ST_Hold` and `ST_Receive` of such a run the mode,
  the context that was sent and the saved state are those of the entry, and an
  `ST_Hold` that does take an index leaves them apart;
* `manual_mode_stale`: a run in which it does.
-/

namespace PiScan.Machine

open Scan Sigproc Runs

namespace ThreadData

variable {d d' : ThreadData}

instance (d : ThreadData) : Decidable d.OnManual :=
  decidable_of_iff (d.manualEntry.isSome = true ∧ d.currentEntry = d.manualEntry) (by
    constructor
    · rintro ⟨hsome, heq⟩
      obtain ⟨p, hp⟩ := Option.isSome_iff_exists.mp hsome
      exact ⟨p, hp, heq.trans hp⟩
    · rintro ⟨p, hm, hc⟩
      exact ⟨by rw [hm]; rfl, hc.trans hm.symm⟩)

theorem onManual_congr (hc : d'.currentEntry = d.currentEntry)
    (hm : d'.manualEntry = d.manualEntry) : d'.OnManual ↔ d.OnManual := by
  unfold OnManual
  rw [hc, hm]

/-- An entry that a handler has taken from the list is not the manual one. -/
theorem Scans.not_onManual (hs : Scans d d') (h : d.Inventory) {p : EntryPtr}
    (hp : d'.currentEntry = some p) (hoff : d.systems.Offers p) : ¬d'.OnManual :=
  (hs.inventory h).not_onManual hp ((h.stocked.offers hoff).same hs.entries)

/-- No handler but `ST_Manual` comes to the manual entry. -/
theorem Scans.onManual (hs : Scans d d') (h : d.Inventory) (hon : d'.OnManual) : d.OnManual := by
  rcases hs.currentEntry with hsame | ⟨p, hp, hoff⟩
  · exact (onManual_congr hsame hs.manualEntry).mp hon
  · exact absurd hon (hs.not_onManual h hp hoff)

theorem indexEntry_not_onManual {index : List Int} (hd : d.indexEntry index = .ok d')
    (h : d.Inventory) : ¬d'.OnManual := by
  have hscans := (indexEntry_scans hd).1
  simp only [indexEntry, bind_eq_ok, pure_eq_ok, Prod.exists] at hd
  obtain ⟨p, sl, hsl, rfl⟩ := hd
  exact hscans.not_onManual h rfl (SystemList.getEntryByIndex_offers hsl).2

/-- The manual entry is no dummy. -/
theorem Inventory.real_of_onManual (h : d.Inventory) (hon : d.OnManual) :
    ∀ e, d.entry = .ok e → e.isDummy = false := by
  obtain ⟨p, hm, hc⟩ := hon
  obtain ⟨freq, modulation, rfl⟩ := h.manual p hm
  intro e he
  simp only [entry, hc] at he
  obtain rfl := Except.ok.inj he
  exact isDummy_makeManualEntry freq modulation

/-- A hold on the manual entry stays on it. -/
theorem holdEntry_current {update signal found : Bool}
    (h : d.holdEntry update signal = .ok (found, d'))
    (hreal : ∀ e, d.entry = .ok e → e.isDummy = false) : d'.currentEntry = d.currentEntry := by
  simp only [holdEntry, bind_eq_ok] at h
  obtain ⟨d₁, h₁, d₂, h₂, h₃⟩ := h
  rw [skipDummies_real h₁ hreal] at h₂
  exact (entrySignal_keeps h₃).1.currentEntry.trans (enterState_keeps h₂).currentEntry

/-- Which entry an `ST_Scan` ends on. -/
theorem scanEntry_current {changed signal : Bool} {next : States}
    (h : d.scanEntry changed signal = .ok (next, d')) :
    (d.squelchHits = 0 ∨ changed = true → ∃ p, d'.currentEntry = some p ∧ d.systems.Offers p) ∧
      (¬(d.squelchHits = 0 ∨ changed = true) → d'.currentEntry = d.currentEntry) := by
  simp only [scanEntry, bind_eq_ok, Prod.exists] at h
  obtain ⟨d₁, h₁, d₂, h₂, found, d₃, h₃, h₄⟩ := h
  have hk₁ := onlyIf_keeps broadcastContextUpdate_keeps h₁
  have hk₃ := (entrySignal_keeps h₃).1
  have hcur : d'.currentEntry = d₂.currentEntry := by
    refine Eq.trans ?_ hk₃.currentEntry
    split at h₄
    · obtain ⟨-, rfl⟩ := Prod.mk.inj (Except.ok.inj h₄)
      rfl
    · obtain ⟨-, rfl⟩ := Prod.mk.inj (Except.ok.inj h₄)
      rfl
  have htest : decide (d₁.squelchHits = 0 ∨ changed = true) =
      decide (d.squelchHits = 0 ∨ changed = true) := by rw [hk₁.squelchHits]
  rw [onlyIf, htest] at h₂
  constructor
  · intro hnext
    rw [if_pos (by simpa using hnext)] at h₂
    simp only [nextEntry, bind_eq_ok, pure_eq_ok, Prod.exists] at h₂
    obtain ⟨p, sl, hsl, rfl⟩ := h₂
    exact ⟨p, hcur, hk₁.systems ▸ (SystemList.getNextEntry_offers hsl).2.1⟩
  · intro hnext
    rw [if_neg (by simpa using hnext)] at h₂
    obtain rfl := Except.ok.inj h₂
    exact hcur.trans hk₁.currentEntry

end ThreadData

namespace World

variable {w w' : World} {l : Label}

/-- In manual mode, `ST_Hold` finds no index to take. -/
def IndexFree (w : World) (l : Label) : Prop :=
  l = .activate .ST_HOLD → w.sm.data.manualMode = true →
    ¬(w.sm.externalHold = true ∧ 0 < w.sm.holdIndex.length)

instance (w : World) (l : Label) : Decidable (w.IndexFree l) :=
  inferInstanceAs (Decidable (_ → _))

/-- The manual mode is on just when the current entry is the manual one; inside
`ST_Scan` it is off, and the entry follows. -/
structure InMode (w : World) : Prop where
  mode : w.pc ≠ .scan → (∀ f, w.pc ≠ .crashed f) →
    (w.sm.data.manualMode = true ↔ w.sm.data.OnManual)
  pending : w.sm.eventGenerated = true → w.sm.currentState = .ST_SCAN →
    w.sm.stateChanged = false → w.sm.data.squelchHits ≠ 0 → ¬w.sm.data.OnManual
  scan : w.pc = .scan → w.sm.data.manualMode = false ∧
    (w.sm.stateChanged = false → w.sm.data.squelchHits ≠ 0 → ¬w.sm.data.OnManual)

theorem InMode.mode_at (h : w.InMode) {pc : Pc} (hpc : w.pc = pc) (hst : pc.steady = true) :
    w.sm.data.manualMode = true ↔ w.sm.data.OnManual := by
  subst hpc
  exact h.mode (Pc.steady_ne hst).1 (Pc.steady_ne hst).2

/-- A step of a client.  A commit that leads to `ST_SCAN` changes the state. -/
theorem InMode.client (h : w.InMode) (hcalm : w.Calm) (hs : w.ByClient l w') : w'.InMode := by
  have hm : w'.sm.toStateMachine = w.sm.toStateMachine ∨ w.pc ≠ .scan ∧
      (w'.sm.currentState = .ST_SCAN → w'.sm.stateChanged = true) := by
    refine hs.machine.imp_right ?_
    rintro ⟨hu, c, call, next, hc, hm⟩
    refine ⟨by rcases hu with hu | hu <;> rw [hu] <;> rintro ⟨⟩, fun hcur => ?_⟩
    rw [hm] at hcur ⊢
    obtain rfl : next = .ST_SCAN := hcur
    have hne := Call.transition_ne (hcalm.looked c call _ hc).symm rfl
    simpa [StateMachine.stateChanged, StateMachine.externalEvent, StateMachine.internalEvent]
      using hne
  refine ⟨?_, ?_, ?_⟩
  · rw [hs.pc, hs.data]
    exact h.mode
  · rw [hs.data]
    rcases hm with hm | ⟨-, hchanged⟩
    · rw [hm]
      exact h.pending
    · exact fun _ hcur hno => absurd ((hchanged hcur).symm.trans hno) (by rintro ⟨⟩)
  · rw [hs.pc, hs.data]
    rcases hm with hm | ⟨hne, -⟩
    · rw [hm]
      exact h.scan
    · exact fun hscan => absurd hscan hne

/-- Outside `ST_Scan`, with no `ST_Scan` pending. -/
theorem inMode_of {pc : Pc} {sm : ScannerSM} (hst : pc.steady = true)
    (hmode : sm.data.manualMode = true ↔ sm.data.OnManual)
    (hpending : sm.eventGenerated = true → sm.currentState = .ST_SCAN →
      sm.stateChanged = false → sm.data.squelchHits ≠ 0 → ¬sm.data.OnManual) :
    (w.go pc sm).InMode :=
  ⟨fun _ _ => hmode, hpending, fun h => absurd h (Pc.steady_ne hst).1⟩

/-- A handler that starts. -/
theorem InMode.starts {a : States} (h : w.InMode) (hinv : w.Inventory)
    (hs : Moves w (.activate a) w') (hok : w.IndexFree (.activate a)) : w'.InMode := by
  cases hs with
  | load hdue hd =>
    have hmode := h.mode_at hdue.1 rfl
    simp only [ThreadData.load, bind_eq_ok, pure_eq_ok] at hd
    obtain ⟨sl, -, sl', -, rfl⟩ := hd
    exact inMode_of (by rfl) hmode (by rintro ⟨⟩)
  | scanEmpty hdue hempty =>
    exact inMode_of (by rfl) (h.mode_at hdue.1 rfl) fun _ => by rintro ⟨⟩
  | scan hdue hsome hd =>
    simp only [ThreadData.scanStart, ThreadData.enableAudioOut, bind_eq_ok, pure_eq_ok] at hd
    obtain ⟨d₁, ⟨demod, -, rfl⟩, rfl⟩ := hd
    refine ⟨fun hno _ => absurd rfl hno, by rintro ⟨⟩, fun _ => ⟨rfl, fun hno hhits => ?_⟩⟩
    refine h.pending hdue.2.1 hdue.2.2 hno fun hz => hhits ?_
    simp [go, ThreadData.resetHits, hz]
  | @holdIndex d hdue hflag hindex hd =>
    have hoff : w.sm.data.manualMode = false := by
      by_contra hm
      exact hok rfl (eq_true_of_ne_false hm) ⟨hflag, hindex⟩
    have hscans := (ThreadData.indexEntry_scans hd).1
    have hno := ThreadData.indexEntry_not_onManual hd hinv.data
    refine inMode_of (by rfl) ?_ (by rintro ⟨⟩)
    simp [hscans.manualMode, hoff, hno]
  | hold hdue hno => exact inMode_of (by rfl) (h.mode_at hdue.1 rfl) (by rintro ⟨⟩)
  | @receive e d hdue he hd =>
    have hk := ThreadData.enterState_keeps hd
    refine inMode_of (by rfl) ?_ fun hg hcur hno => ?_
    · rw [hk.manualMode, ThreadData.onManual_congr hk.currentEntry hk.manualEntry]
      exact h.mode_at hdue.1 rfl
    · have hrec := hdue.2.2
      revert hg hcur hno
      cases e.isLockedOut <;>
        simp [ScannerSM.raiseIfLocked, ScannerSM.take, StateMachine.stateChanged,
          StateMachine.internalEvent, hrec]
  | manual hdue hdata =>
    exact inMode_of (by rfl) ⟨fun _ => ⟨_, rfl, rfl⟩, fun _ => rfl⟩ (by rintro ⟨⟩)
  | saveAll hdue hd =>
    obtain ⟨state, -, rfl⟩ := ThreadData.saveAll_spec hd
    exact inMode_of (by rfl) (h.mode_at hdue.1 rfl) (by rintro ⟨⟩)
  | stopped hdue => exact inMode_of (by rfl) (h.mode_at hdue.1 rfl) (by rintro ⟨⟩)
  | crash hfault =>
    exact ⟨fun _ hcr => absurd rfl (hcr _), h.pending, by rintro ⟨⟩⟩

/-- A handler that goes on. -/
theorem InMode.goes_on {pre : List Label} {r : ScannerSM.Reading} (h : w.InMode)
    (hinv : w.Inventory) (hctx : w.InContext pre) (hs : Moves w (.resume r) w') : w'.InMode := by
  cases hs with
  | @scanEnd r next d hpc hd =>
    obtain ⟨hoff, hquiet⟩ := h.scan hpc
    have hno : ¬d.OnManual := by
      obtain ⟨d₁, hits, hd₁, hscans, -⟩ := ThreadData.scanEntry_scans hd
      have hon : d.OnManual ↔ d₁.OnManual := by
        rw [hd₁]
        exact ThreadData.onManual_congr rfl rfl
      obtain ⟨htaken, hsame⟩ := ThreadData.scanEntry_current hd
      by_cases hnext : w.sm.data.squelchHits = 0 ∨ w.sm.stateChanged = true
      · obtain ⟨p, hp, hoff⟩ := htaken hnext
        rw [hd₁] at hp
        rw [hon]
        exact hscans.not_onManual hinv.data hp hoff
      · obtain ⟨hhits, hch⟩ := not_or.mp hnext
        rw [hon, ThreadData.onManual_congr ?_ hscans.manualEntry]
        · exact hquiet (eq_false_of_ne_true hch) hhits
        · rw [← hsame hnext, hd₁]
    have hmode : d.manualMode = false := by
      obtain ⟨d₁, hits, rfl, hscans, -⟩ := ThreadData.scanEntry_scans hd
      exact hscans.manualMode.trans hoff
    refine inMode_of (by rfl) ?_ fun _ _ _ _ => hno
    simp [ScannerSM.raise, hmode, hno]
  | @holdEntry r update found d hpc hd =>
    have hmode := h.mode_at hpc rfl
    have hscans := (ThreadData.holdEntry_scans hd).1
    refine inMode_of (by rfl) ?_ fun _ hcur => ?_
    · simp only [hscans.manualMode, hmode]
      by_cases hon : w.sm.data.OnManual
      · have hsame := ThreadData.holdEntry_current hd (hinv.data.real_of_onManual hon)
        exact (ThreadData.onManual_congr hsame hscans.manualEntry).symm
      · exact ⟨fun h => absurd h hon, hscans.onManual hinv.data⟩
    · have hin : w.sm.currentState = .ST_HOLD :=
        (hctx.inside .ST_HOLD (by rw [hpc]; rfl)).resolve_right (by rintro ⟨⟨⟩, -⟩)
      exact absurd (hin.symm.trans hcur) (by rintro ⟨⟩)
  | holdDecision hpc hd =>
    exact inMode_of (by rfl) (h.mode_at hpc rfl) h.pending
  | @holdEvent r next hpc =>
    refine inMode_of (by rfl) (h.mode_at hpc rfl) fun _ hcur hno => ?_
    have hin : w.sm.currentState = .ST_HOLD :=
      (hctx.inside .ST_HOLD (by rw [hpc]; rfl)).resolve_right (by rintro ⟨⟨⟩, -⟩)
    exact absurd (hcur.symm.trans ((stateChanged_raise hno).trans hin)) (by rintro ⟨⟩)
  | holdQuiet hpc => exact inMode_of (by rfl) (h.mode_at hpc rfl) h.pending
  | @receiveEnd r next d hpc hd =>
    obtain ⟨hk, hnext⟩ := ThreadData.receiveEntry_keeps hd
    refine inMode_of (by rfl) ?_ fun _ hcur => ?_
    · change d.manualMode = true ↔ d.OnManual
      rw [hk.manualMode, ThreadData.onManual_congr hk.currentEntry hk.manualEntry]
      exact h.mode_at hpc rfl
    · rcases hnext with rfl | rfl <;> exact absurd hcur (by rintro ⟨⟩)
  | manualEnd hpc =>
    exact inMode_of (by rfl) (h.mode_at hpc rfl) fun _ hcur => absurd hcur (by rintro ⟨⟩)
  | saveAllEnd hpc =>
    exact inMode_of (by rfl) (h.mode_at hpc rfl) fun _ hcur => absurd hcur (by rintro ⟨⟩)
  | crash hfault =>
    exact ⟨fun _ hcr => absurd rfl (hcr _), h.pending, by rintro ⟨⟩⟩

theorem InMode.step {pre : List Label} (h : w.InMode) (hinv : w.Inventory) (hcalm : w.Calm)
    (hctx : w.InContext pre) (hs : Step w l w') (hok : w.IndexFree l) : w'.InMode := by
  rcases step_cases hs with hclient | ⟨a, rfl, hm⟩ | ⟨r, rfl, hm⟩
  · exact h.client hcalm hclient
  · exact h.starts hinv hm hok
  · exact h.goes_on hinv hctx hm

theorem inMode_start (file : SystemsFile) (demod : Demodulator) : (start file demod).InMode := by
  refine ⟨fun _ _ => ⟨by rintro ⟨⟩, ?_⟩, by rintro _ ⟨⟩, by rintro ⟨⟩⟩
  rintro ⟨p, hp, -⟩
  cases hp

theorem inMode_run {file : SystemsFile} {demod : Demodulator} {ls : List Label}
    (h : Run (Guarded Step fun w l => w.Atomic l ∧ w.IndexFree l) (start file demod) ls w) :
    w.InMode ∧ w.InContext ls ∧ w.Inventory ∧ w.control.Sane := by
  have hall := h.history
    (I := fun pre w => (w.InMode ∧ w.InContext pre ∧ w.Inventory ∧ w.control.Sane) ∧ w.Calm)
    (P := fun _ => True) ?_ (fun _ _ => trivial)
    ⟨⟨inMode_start file demod, inContext_start file demod, inventory_start file demod,
      sane_start file demod⟩, calm_start file demod⟩
  · simpa using hall.1
  · rintro pre s l t - ⟨⟨hmode, hctx, hinv, hsane⟩, hcalm⟩ ⟨hs, hatomic, hok⟩
    exact ⟨⟨hmode.step hinv hcalm hctx hs hok, hctx.step hcalm hs, hinv.step hsane hs,
      hsane.step (control_step hs)⟩, hcalm.step hs hatomic⟩

end World

/-! ## What clients see and what is saved -/

namespace ThreadData

variable {d d' : ThreadData}

/-- The index of an entry is not the one of the manual entry. -/
theorem entryIndex_ne (i k : Nat) : toString i ++ "-" ++ toString k ≠ "MAN" := by
  intro h
  have hlist := congrArg String.toList h
  simp only [String.toList_append] at hlist
  have hmem : '-' ∈ "MAN".toList := by
    rw [← hlist]
    simp
  exact absurd hmem (by decide)

/-- The labels of the current entry `e`: the manual ones where it is the manual entry, and
else those of its place in the list. -/
def LabelsOf (d : ThreadData) (e : Entry) (ctx : ScannerContext) : Prop :=
  (d.OnManual → ctx.systemTag = "Manual" ∧ ctx.entryTag = "Manual entry" ∧
      ctx.entryIndex = "MAN") ∧
    (¬d.OnManual → ∃ s, d.systems.systems[e.sysIndex]? = some s ∧ ctx.systemTag = s.tag ∧
      ctx.entryTag = e.tag ∧
      ctx.entryIndex = toString e.sysIndex ++ "-" ++ toString e.entryIndex)

/-- The labels go by the mode. -/
theorem TagsOf.labelsOf {e : Entry} {ctx : ScannerContext} (h : d.TagsOf e ctx)
    (hmode : d.manualMode = true ↔ d.OnManual) : d.LabelsOf e ctx := by
  unfold TagsOf at h
  constructor
  · intro hon
    rwa [if_pos (hmode.mpr hon)] at h
  · intro hoff
    rwa [if_neg fun hm => hoff (hmode.mp hm)] at h

/-- The last context shows the frequency of the current entry, and its labels are
the manual ones just when that is the manual entry. -/
def Labelled (d : ThreadData) : Prop :=
  ∃ ctx e, d.sent.getLast? = some ctx ∧ d.entry = .ok e ∧ ctx.frequency = e.freq ∧
    (ctx.systemTag = "Manual" ∧ ctx.entryTag = "Manual entry" ∧ ctx.entryIndex = "MAN" ↔ d.OnManual)

theorem Shown.labelled {X : ContextState} (h : d.Shown X) (hX : X ≠ .SCAN)
    (hmode : d.manualMode = true ↔ d.OnManual) : d.Labelled := by
  obtain ⟨e, he⟩ := h.tells hX
  refine ⟨d.currentContext, e, h.sent, he.entry, he.frequency, ?_⟩
  have htags := he.tags
  unfold TagsOf at htags
  rw [← hmode]
  cases hm : d.manualMode with
  | true =>
    rw [if_pos hm] at htags
    exact ⟨fun _ => rfl, fun _ => htags⟩
  | false =>
    rw [if_neg (by simp [hm])] at htags
    obtain ⟨s, -, -, -, hindex⟩ := htags
    refine ⟨fun hman => ?_, fun h => by cases h⟩
    exact absurd (hindex.symm.trans hman.2.2) (entryIndex_ne _ _)

/-- A manual state is saved in manual mode only, with the frequency of the entry. -/
theorem saveAll_manual {externalHold : Bool} (h : d.saveAll externalHold = .ok d')
    (hstate : d'.state.scanState = SCAN_STATE_MANUAL) :
    d.manualMode = true ∧ ∃ e, d.entry = .ok e ∧ d'.state.manualFreq = e.freq ∧
      d'.state.manualModualtion = e.modulation := by
  obtain ⟨state, hs, rfl⟩ := saveAll_spec h
  unfold savedState at hs
  split at hs
  · next hm =>
    simp only [bind_eq_ok, pure_eq_ok] at hs
    obtain ⟨e, he, rfl⟩ := hs
    exact ⟨hm, e, he, rfl, rfl⟩
  · split at hs
    · simp only [bind_eq_ok, pure_eq_ok] at hs
      obtain ⟨e, he, rfl⟩ := hs
      cases hstate
    · simp only [pure_eq_ok] at hs
      subst hs
      cases hstate

end ThreadData

namespace World

variable {w w' : World} {l : Label}

/-- Mode, labels and saved state are those of the entry: the first two after an
`ST_Hold` or an `ST_Receive`, the last after any handler. -/
structure ManualInStep (ls : List Label) (w : World) : Prop where
  mode : w.pc = .idle → ∀ a, (activations ls).getLast? = some a → a = .ST_HOLD ∨ a = .ST_RECEIVE →
    (w.sm.data.manualMode = true ↔ w.sm.data.OnManual)
  labels : w.pc = .idle → ∀ a, (activations ls).getLast? = some a →
    a = .ST_HOLD ∨ a = .ST_RECEIVE → w.sm.data.Labelled
  saved : ∀ w', Step w (.activate .ST_SAVEALL) w' → w'.pc = .saveAll →
    w'.sm.data.state.scanState = SCAN_STATE_MANUAL → w.sm.data.OnManual

/-- An `ST_Hold` on another entry in manual mode, up to its end. -/
def Stale (w : World) : Prop :=
  w.sm.data.manualMode = true ∧ ¬w.sm.data.OnManual ∧ (w.pc.InHold ∨ w.pc = .idle)

theorem Stale.step {r : ScannerSM.Reading} (h : w.Stale) (hinv : w.Inventory)
    (hs : Step w (.resume r) w') : w'.Stale ∨ ∃ f, w'.pc = .crashed f := by
  obtain ⟨hmode, hno, hpc⟩ := h
  have hout : ∀ {pc : Pc}, w.pc = pc → pc ≠ .idle → pc.InHold := by
    rintro pc rfl hne
    exact hpc.resolve_right hne
  cases moves_of_step hs with
  | @holdEntry _ update found d hp hd =>
    have hscans := (ThreadData.holdEntry_scans hd).1
    exact .inl ⟨hscans.manualMode.trans hmode, fun hon => hno (hscans.onManual hinv.data hon),
      .inl trivial⟩
  | holdDecision hp hd => exact .inl ⟨hmode, hno, .inl trivial⟩
  | holdEvent hp => exact .inl ⟨hmode, hno, .inr rfl⟩
  | holdQuiet hp => exact .inl ⟨hmode, hno, .inr rfl⟩
  | crash hfault => exact .inr ⟨_, rfl⟩
  | scanEnd hp hd => exact absurd (hout hp (by rintro ⟨⟩)) not_false
  | receiveEnd hp hd => exact absurd (hout hp (by rintro ⟨⟩)) not_false
  | manualEnd hp => exact absurd (hout hp (by rintro ⟨⟩)) not_false
  | saveAllEnd hp => exact absurd (hout hp (by rintro ⟨⟩)) not_false

/-- **An index that is taken in manual mode** leaves the mode stale until the end of
`ST_Hold`. -/
theorem stale_of_index {w₁ w₂ : World} {rs : List ScannerSM.Reading} (hinv : w.Inventory)
    (hsane : w.control.Sane) (hs : Step w (.activate .ST_HOLD) w₁)
    (hindex : ¬w.IndexFree (.activate .ST_HOLD)) (hr : Run Step w₁ (rs.map .resume) w₂)
    (hidle : w₂.pc = .idle) : w₂.sm.data.manualMode = true ∧ ¬w₂.sm.data.OnManual := by
  have htaken : w.sm.data.manualMode = true ∧
      (w.sm.externalHold = true ∧ 0 < w.sm.holdIndex.length) := by
    by_contra hno
    exact hindex fun _ hm htake => hno ⟨hm, htake⟩
  have hfirst : w₁.Stale ∨ ∃ f, w₁.pc = .crashed f := by
    cases moves_of_step hs with
    | @holdIndex d hdue hflag hi hd =>
      have hscans := (ThreadData.indexEntry_scans hd).1
      exact .inl ⟨hscans.manualMode.trans htaken.1,
        ThreadData.indexEntry_not_onManual hd hinv.data, .inl trivial⟩
    | hold hdue hno => exact absurd htaken.2 hno
    | crash hfault => exact .inr ⟨_, rfl⟩
  have hkeep := hr.invariant_on (P := fun l => ∃ r, l = .resume r)
    (I := fun w => (w.Stale ∨ ∃ f, w.pc = .crashed f) ∧ w.Inventory ∧ w.control.Sane) ?_ ?_
    ⟨hfirst, hinv.step hsane hs, hsane.step (control_step hs)⟩
  · rcases hkeep.1 with ⟨hm, hno, -⟩ | ⟨f, hf⟩
    · exact ⟨hm, hno⟩
    · exact absurd (hidle.symm.trans hf) (by rintro ⟨⟩)
  · rintro s l t ⟨r, rfl⟩ ⟨hstale, hinv, hsane⟩ hs
    refine ⟨?_, hinv.step hsane hs, hsane.step (control_step hs)⟩
    rcases hstale with hstale | ⟨f, hf⟩
    · exact hstale.step hinv hs
    · simp [Step, step, hf] at hs
  · intro l hl
    obtain ⟨r, -, rfl⟩ := List.mem_map.mp hl
    exact ⟨r, rfl⟩

/-- **The manual mode means the manual entry** in every atomic run in which no
`ST_Hold` takes an index in manual mode; one that does, and ends, has the mode
without the entry. -/
theorem manual_mode {file : SystemsFile} {demod : Demodulator} {ls : List Label}
    (h : Run (Guarded Step fun w l => w.Atomic l ∧ w.IndexFree l) (start file demod) ls w) :
    w.ManualInStep ls ∧
      ∀ (w₁ w₂ : World) (rs : List ScannerSM.Reading), Step w (.activate .ST_HOLD) w₁ →
        ¬w.IndexFree (.activate .ST_HOLD) → Run Step w₁ (rs.map .resume) w₂ →
        w₂.pc = .idle → w₂.sm.data.manualMode = true ∧ ¬w₂.sm.data.OnManual := by
  obtain ⟨hmode, hctx, hinv, hsane⟩ := inMode_run h
  refine ⟨⟨fun hpc _ _ _ => ?_, fun hpc a ha hX => ?_, fun w' hs hpc hstate => ?_⟩, ?_⟩
  · exact hmode.mode_at hpc rfl
  · obtain ⟨X, hX, hne⟩ : ∃ X, a.context? = some X ∧ X ≠ .SCAN := by
      rcases hX with rfl | rfl
      · exact ⟨.HOLD, rfl, by rintro ⟨⟩⟩
      · exact ⟨.RECEIVE, rfl, by rintro ⟨⟩⟩
    have hshown := hctx.done hpc a X ha hX fun h => absurd h hne
    exact hshown.labelled hne (hmode.mode_at hpc rfl)
  · cases moves_of_step hs with
    | saveAll hdue hd =>
      exact (hmode.mode_at hdue.1 rfl).mp (ThreadData.saveAll_manual hd hstate).1
    | crash hfault => cases hpc
  · intro w₁ w₂ rs hs hindex hr hidle
    exact stale_of_index hinv hsane hs hindex hr hidle

/-- A manual entry, and a hold on it. -/
def manualHeld : List Label :=
  [.activate .ST_LOAD, .begin 0 (.manualEntry 145500000 "FM"), .lookup 0, .commit 0,
    .activate .ST_MANUAL, .resume (silence 10000), .activate .ST_HOLD, .resume (silence 10000),
    .resume (silence 10000), .resume (silence 10000)]

/-- Then a hold with the index of an entry; its event is ignored, its index is not. -/
def manualThenIndex : List Label :=
  manualHeld ++ [.begin 0 (.holdScan [0, 0]), .storeFlag 0, .storeIndex 0, .lookup 0, .ignore 0,
    .activate .ST_HOLD, .resume (silence 10000), .resume (silence 10000), .resume (silence 10000)]

theorem manual_mode_manualHeld :
    ((start oneChannelFile tunedDemod).after manualHeld).ManualInStep manualHeld :=
  (manual_mode (atomic_of_alone (guarded_run_after (by decide +kernel)) fun _ => rfl)).1

/-- **A stale manual mode**: the index of a hold in manual mode is taken, and the
entry of the database is sent and would be saved as the manual one. -/
theorem manual_mode_stale :
    ∃ w, Run (Guarded Step Atomic) (start oneChannelFile tunedDemod) manualThenIndex w ∧
      (∃ p, w.sm.data.systems.isScannable p = true) ∧ w.pc = .idle ∧
      (activations manualThenIndex).getLast? = some .ST_HOLD ∧
      w.sm.data.manualMode = true ∧ w.sm.data.currentEntry = some (.channel 0 0) ∧
      ¬w.ManualInStep manualThenIndex := by
  have hw : Run (Guarded Step fun w l => w.Alone l ∧ True) (start oneChannelFile tunedDemod)
      manualThenIndex _ := guarded_run_after (by decide +kernel)
  have hidle : ((start oneChannelFile tunedDemod).after manualThenIndex).pc = .idle := by
    decide +kernel
  have hatomic : Run (Guarded Step Atomic) (start oneChannelFile tunedDemod) manualThenIndex _ :=
    (atomic_of_alone hw fun _ => rfl).mono fun _ _ _ h => ⟨h.1, h.2.1⟩
  refine ⟨_, hatomic, ⟨.channel 0 0, by decide +kernel⟩, hidle, rfl,
    by decide +kernel, by decide +kernel, fun hstep => ?_⟩
  have hmode := (hstep.mode hidle .ST_HOLD rfl (.inl rfl)).mp (by decide +kernel)
  exact absurd hmode (by decide +kernel)

end World

end PiScan.Machine

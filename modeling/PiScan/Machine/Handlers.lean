import PiScan.Machine.ScannerSM
import PiScan.Scan.Stock

/-!
# What a handler leaves alone

Frames for the parts of the handlers: `Keeps` for those that only use the
receiver and the context, `Scans` for those that also move the scan cursor and
the current entry.
-/

namespace PiScan.Machine

open Scan Sigproc

namespace ThreadData

/-- Entries, mode, hits and files are the same. -/
structure Keeps (d d' : ThreadData) : Prop where
  systems : d'.systems = d.systems
  currentEntry : d'.currentEntry = d.currentEntry
  manualEntry : d'.manualEntry = d.manualEntry
  manualMode : d'.manualMode = d.manualMode
  squelchHits : d'.squelchHits = d.squelchHits
  state : d'.state = d.state
  file : d'.file = d.file
  written : d'.written = d.written

theorem Keeps.refl (d : ThreadData) : Keeps d d := ⟨rfl, rfl, rfl, rfl, rfl, rfl, rfl, rfl⟩

theorem Keeps.trans {a b c : ThreadData} (h : Keeps a b) (h' : Keeps b c) : Keeps a c :=
  ⟨h'.systems.trans h.systems, h'.currentEntry.trans h.currentEntry,
    h'.manualEntry.trans h.manualEntry, h'.manualMode.trans h.manualMode,
    h'.squelchHits.trans h.squelchHits, h'.state.trans h.state, h'.file.trans h.file,
    h'.written.trans h.written⟩

theorem Keeps.entry {d d' : ThreadData} (h : Keeps d d') : d'.entry = d.entry := by
  simp only [ThreadData.entry, h.currentEntry, h.systems]

/-- The cursor may have moved, and the current entry may be one of the list. -/
structure Scans (d d' : ThreadData) : Prop where
  entries : d.systems.SameEntries d'.systems
  currentEntry : d'.currentEntry = d.currentEntry ∨
    ∃ p, d'.currentEntry = some p ∧ d.systems.Offers p
  manualEntry : d'.manualEntry = d.manualEntry
  manualMode : d'.manualMode = d.manualMode
  squelchHits : d'.squelchHits = d.squelchHits
  state : d'.state = d.state
  file : d'.file = d.file
  written : d'.written = d.written

theorem Keeps.scans {d d' : ThreadData} (h : Keeps d d') : Scans d d' :=
  ⟨h.systems ▸ .refl _, .inl h.currentEntry, h.manualEntry, h.manualMode, h.squelchHits, h.state,
    h.file, h.written⟩

theorem Scans.refl (d : ThreadData) : Scans d d := (Keeps.refl d).scans

theorem Scans.trans {a b c : ThreadData} (h : Scans a b) (h' : Scans b c) : Scans a c := by
  refine ⟨h.entries.trans h'.entries, ?_, h'.manualEntry.trans h.manualEntry,
    h'.manualMode.trans h.manualMode, h'.squelchHits.trans h.squelchHits,
    h'.state.trans h.state, h'.file.trans h.file, h'.written.trans h.written⟩
  rcases h'.currentEntry with hc | ⟨p, hc, hp⟩
  · rw [hc]
    exact h.currentEntry
  · exact .inr ⟨p, hc, h.entries.offers hp⟩

/-- There is still a current entry. -/
theorem Scans.isSome {d d' : ThreadData} (h : Scans d d') (hd : d.currentEntry.isSome = true) :
    d'.currentEntry.isSome = true := by
  rcases h.currentEntry with hc | ⟨p, hc, -⟩
  · rwa [hc]
  · simp [hc]

theorem isSome_of_entry {d : ThreadData} {e : Entry} (h : d.entry = .ok e) :
    d.currentEntry.isSome = true := by
  unfold entry at h
  split at h
  · cases h
  · rename_i p hp
    simp [hp]

/-! ## The parts -/

theorem enableAudioOut_keeps {en : Bool} {d d' : ThreadData} (h : d.enableAudioOut en = .ok d') :
    Keeps d d' := by
  simp only [enableAudioOut, bind_eq_ok, pure_eq_ok] at h
  obtain ⟨demod, -, rfl⟩ := h
  exact ⟨rfl, rfl, rfl, rfl, rfl, rfl, rfl, rfl⟩

theorem entrySignal_keeps {signal found : Bool} {d d' : ThreadData}
    (h : d.entrySignal signal = .ok (found, d')) :
    Keeps d d' ∧ d.currentEntry.isSome = true := by
  simp only [entrySignal, bind_eq_ok, pure_eq_ok, Prod.exists, Prod.mk.injEq] at h
  obtain ⟨e, he, found', demod, -, rfl, rfl⟩ := h
  exact ⟨⟨rfl, rfl, rfl, rfl, rfl, rfl, rfl, rfl⟩, isSome_of_entry he⟩

theorem broadcastContextUpdate_keeps {d d' : ThreadData}
    (h : d.broadcastContextUpdate = .ok d') : Keeps d d' := by
  simp only [broadcastContextUpdate, bind_eq_ok, pure_eq_ok] at h
  obtain ⟨ctx, -, rfl⟩ := h
  exact ⟨rfl, rfl, rfl, rfl, rfl, rfl, rfl, rfl⟩

theorem onlyIf_keeps {c : Bool} {f : ThreadData → Except Fault ThreadData} {d d' : ThreadData}
    (hf : ∀ {d d'}, f d = .ok d' → Keeps d d') (h : d.onlyIf c f = .ok d') : Keeps d d' := by
  unfold onlyIf at h
  split at h
  · exact hf h
  · rw [← Except.ok.inj h]
    exact .refl d

theorem enterState_keeps {audio update : Bool} {state : ContextState} {d d' : ThreadData}
    (h : d.enterState audio state update = .ok d') : Keeps d d' := by
  simp only [enterState, bind_eq_ok] at h
  obtain ⟨d₁, h₁, h₂⟩ := h
  have hctx : Keeps d₁ { d₁ with currentContext := { d₁.currentContext with state } } :=
    ⟨rfl, rfl, rfl, rfl, rfl, rfl, rfl, rfl⟩
  exact (enableAudioOut_keeps h₁).trans (hctx.trans (onlyIf_keeps broadcastContextUpdate_keeps h₂))

theorem nextEntry_scans {d d' : ThreadData} (h : d.nextEntry = .ok d') :
    Scans d d' ∧ d'.currentEntry.isSome = true := by
  simp only [nextEntry, bind_eq_ok, pure_eq_ok, Prod.exists] at h
  obtain ⟨p, sl, hsl, rfl⟩ := h
  obtain ⟨hsame, hoff, -⟩ := SystemList.getNextEntry_offers hsl
  exact ⟨⟨hsame, .inr ⟨p, rfl, hoff⟩, rfl, rfl, rfl, rfl, rfl, rfl⟩, rfl⟩

theorem indexEntry_scans {index : List Int} {d d' : ThreadData} (h : d.indexEntry index = .ok d') :
    Scans d d' ∧ d'.currentEntry.isSome = true := by
  simp only [indexEntry, bind_eq_ok, pure_eq_ok, Prod.exists] at h
  obtain ⟨p, sl, hsl, rfl⟩ := h
  obtain ⟨hsame, hoff⟩ := SystemList.getEntryByIndex_offers hsl
  exact ⟨⟨hsame, .inr ⟨p, rfl, hoff⟩, rfl, rfl, rfl, rfl, rfl, rfl⟩, rfl⟩

/-- `ST_Scan` scans and counts the hits; without hits before, it takes the next
entry of the list. -/
theorem scanEntry_scans {changed signal : Bool} {d d' : ThreadData} {next : States}
    (h : d.scanEntry changed signal = .ok (next, d')) :
    ∃ d₁ hits, d' = { d₁ with squelchHits := hits } ∧ Scans d d₁ ∧
      d₁.currentEntry.isSome = true ∧ (next = .ST_SCAN ∨ next = .ST_RECEIVE) ∧
      (d.squelchHits = 0 → ∃ p sl, d.systems.getNextEntry 64 = .ok (p, sl)) := by
  simp only [scanEntry, bind_eq_ok, Prod.exists] at h
  obtain ⟨d₁, h₁, d₂, h₂, found, d₃, h₃, h₄⟩ := h
  have hk₁ := onlyIf_keeps broadcastContextUpdate_keeps h₁
  have hs₂ : Scans d₁ d₂ ∧
      (d₁.squelchHits = 0 → ∃ p sl, d₁.systems.getNextEntry 64 = .ok (p, sl)) := by
    unfold onlyIf at h₂
    split at h₂
    · refine ⟨(nextEntry_scans h₂).1, fun _ => ?_⟩
      simp only [nextEntry, bind_eq_ok, Prod.exists] at h₂
      obtain ⟨p, sl, hsl, -⟩ := h₂
      exact ⟨p, sl, hsl⟩
    · rename_i hno
      rw [← Except.ok.inj h₂]
      exact ⟨.refl d₁, fun hz => absurd (by simp [hz]) hno⟩
  obtain ⟨hk₃, hsome⟩ := entrySignal_keeps h₃
  have hs := hk₁.scans.trans (hs₂.1.trans hk₃.scans)
  have hsome' : d₃.currentEntry.isSome = true := by rwa [hk₃.currentEntry]
  have hnext : d.squelchHits = 0 → ∃ p sl, d.systems.getNextEntry 64 = .ok (p, sl) := by
    intro hz
    rw [← hk₁.systems]
    exact hs₂.2 (hk₁.squelchHits.trans hz)
  split at h₄
  · simp only [pure_eq_ok, Prod.mk.injEq] at h₄
    obtain ⟨rfl, rfl⟩ := h₄
    refine ⟨d₃, _, rfl, hs, hsome', ?_, hnext⟩
    split
    · exact .inr rfl
    · exact .inl rfl
  · simp only [pure_eq_ok, Prod.mk.injEq] at h₄
    obtain ⟨rfl, rfl⟩ := h₄
    exact ⟨d₃, _, rfl, hs, hsome', .inl rfl, hnext⟩

/-- **The loop over dummies** keeps what one of its rounds keeps, and ends at an
entry that is no dummy. -/
theorem skipDummies_keeps {P : ThreadData → Prop}
    (hround : ∀ a b c found e, a.entry = .ok e → e.isDummy = true →
      a.entrySignal false = .ok (found, b) → b.nextEntry = .ok c → P a → P c)
    {fuel : Nat} {d d' : ThreadData} (h : skipDummies fuel d = .ok d') (hd : P d) :
    P d' ∧ ∃ e, d'.entry = .ok e ∧ e.isDummy = false := by
  induction fuel generalizing d with
  | zero => cases h
  | succ fuel ih =>
    simp only [skipDummies, bind_eq_ok] at h
    obtain ⟨e, he, h⟩ := h
    split at h
    · next hdummy =>
      simp only [bind_eq_ok, Prod.exists] at h
      obtain ⟨found, d₁, h₁, d₂, h₂, h₃⟩ := h
      exact ih h₃ (hround d d₁ d₂ found e he hdummy h₁ h₂ hd)
    · next hreal =>
      obtain rfl := Except.ok.inj h
      exact ⟨hd, e, he, by simpa using hreal⟩

theorem skipDummies_scans {fuel : Nat} {d d' : ThreadData} (h : skipDummies fuel d = .ok d') :
    Scans d d' ∧ ∃ e, d'.entry = .ok e ∧ e.isDummy = false := by
  apply skipDummies_keeps ?_ h (.refl d)
  intro a b c found e _ _ h₁ h₂ hs
  exact hs.trans ((entrySignal_keeps h₁).1.scans.trans (nextEntry_scans h₂).1)

theorem holdEntry_scans {update signal found : Bool} {d d' : ThreadData}
    (h : d.holdEntry update signal = .ok (found, d')) :
    Scans d d' ∧ ∃ e, d'.entry = .ok e ∧ e.isDummy = false := by
  simp only [holdEntry, bind_eq_ok] at h
  obtain ⟨d₁, h₁, d₂, h₂, h₃⟩ := h
  obtain ⟨hs₁, e, he, hd⟩ := skipDummies_scans h₁
  have hk₂ := enterState_keeps h₂
  have hk₃ := (entrySignal_keeps h₃).1
  exact ⟨hs₁.trans (hk₂.trans hk₃).scans, e, by rw [hk₃.entry, hk₂.entry, he], hd⟩

theorem receiveEntry_keeps {signal : Bool} {now : Int} {d d' : ThreadData} {next : States}
    (h : d.receiveEntry signal now = .ok (next, d')) :
    Keeps d d' ∧ (next = .ST_RECEIVE ∨ next = .ST_HOLD) := by
  simp only [receiveEntry, bind_eq_ok, Prod.exists] at h
  obtain ⟨found, d₁, h₁, h₂⟩ := h
  have hk := (entrySignal_keeps h₁).1
  split at h₂
  · simp only [pure_eq_ok, Prod.mk.injEq] at h₂
    obtain ⟨rfl, rfl⟩ := h₂
    exact ⟨hk, .inl rfl⟩
  · simp only [pure_eq_ok, Prod.mk.injEq] at h₂
    obtain ⟨rfl, rfl⟩ := h₂
    exact ⟨⟨hk.systems, hk.currentEntry, hk.manualEntry, hk.manualMode, hk.squelchHits, hk.state, hk.file,
      hk.written⟩, .inr rfl⟩

/-! ## The decision of `ST_Hold` -/

/-- The last `else` branches of `ST_Hold`: an external event, no signal, no
hold, and an entry without a delay to wait for.  No event is raised. -/
def Stalls (signal externalHold evtSrcExternal : Bool) (now : Int) (d : ThreadData) : Prop :=
  signal = false ∧ externalHold = false ∧ evtSrcExternal = true ∧
    ∃ e, d.entry = .ok e ∧ e.isLockedOut = false ∧ (e.delayMS = 0 ∨ e.delayMS ≤ d.elapsed now)

theorem holdDecision_none_iff {signal externalHold evtSrcExternal : Bool} {now : Int}
    {d : ThreadData} :
    d.holdDecision signal externalHold evtSrcExternal now = .ok none ↔
      d.Stalls signal externalHold evtSrcExternal now := by
  unfold holdDecision Stalls
  cases signal
  · cases externalHold
    · simp only [Bool.false_eq_true, ↓reduceIte, bind_eq_ok, true_and]
      constructor
      · rintro ⟨e, he, h⟩
        split_ifs at h with hl hdelay hnow hsrc hsrc
        all_goals try cases h
        · exact ⟨by simpa using hsrc, e, he, by simpa using hl, .inr (Int.not_lt.mp hnow)⟩
        · exact ⟨by simpa using hsrc, e, he, by simpa using hl, .inl (not_not.mp hdelay)⟩
      · rintro ⟨rfl, e, he, hl, hdelay⟩
        refine ⟨e, he, ?_⟩
        rcases hdelay with hdelay | hdelay
        · simp [hl, hdelay]
        · by_cases hzero : e.delayMS = 0
          · simp [hl, hzero]
          · simp [hl, hzero, Int.not_lt.mpr hdelay]
    · simp
  · simp

theorem holdDecision_next {signal externalHold evtSrcExternal : Bool} {now : Int}
    {d : ThreadData} {next : Option States}
    (h : d.holdDecision signal externalHold evtSrcExternal now = .ok next) :
    next ∈ [some States.ST_RECEIVE, some .ST_HOLD, some .ST_SCAN, none] ∧
      (externalHold = true → next ≠ some .ST_SCAN ∧ next ≠ none) ∧
      (next = none → evtSrcExternal = true) := by
  refine ⟨?_, ?_, ?_⟩
  · unfold holdDecision at h
    cases signal
    · cases externalHold
      · simp only [Bool.false_eq_true, ↓reduceIte, bind_eq_ok] at h
        obtain ⟨e, -, h⟩ := h
        split_ifs at h <;> simp only [pure_eq_ok] at h <;> subst h <;> simp
      · simp only [Bool.false_eq_true, ↓reduceIte, pure_eq_ok] at h
        subst h
        simp
    · simp only [↓reduceIte, pure_eq_ok] at h
      subst h
      simp
  · rintro rfl
    unfold holdDecision at h
    cases signal <;> simp only [Bool.false_eq_true, ↓reduceIte, pure_eq_ok] at h <;> subst h <;>
      simp
  · rintro rfl
    exact (holdDecision_none_iff.mp h).2.2.1

/-! ## Saving -/

/-- `ST_SaveAll` needs a current entry only for a hold or a manual entry. -/
theorem saveAll_ok {externalHold : Bool} {d : ThreadData}
    (h : d.currentEntry.isSome = true ∨ externalHold = false ∧ d.manualMode = false) :
    ∃ d', d.saveAll externalHold = .ok d' := by
  have hstate : ∃ state, d.savedState externalHold = .ok state := by
    rcases h with h | ⟨rfl, h⟩
    · obtain ⟨p, hp⟩ := Option.isSome_iff_exists.mp h
      have he : d.entry = .ok (d.systems.deref p) := by simp [entry, hp]
      unfold savedState
      rw [he]
      split_ifs <;> exact ⟨_, rfl⟩
    · unfold savedState
      rw [h]
      exact ⟨_, rfl⟩
  obtain ⟨state, hs⟩ := hstate
  exact ⟨_, by rw [saveAll, hs]; rfl⟩

theorem saveAll_spec {externalHold : Bool} {d d' : ThreadData}
    (h : d.saveAll externalHold = .ok d') :
    ∃ state, d.savedState externalHold = .ok state ∧
      d' = { d with
        state, file := d.systems.writeToFile, written := d.written ++ [d.systems.writeToFile] } := by
  simp only [saveAll, bind_eq_ok, pure_eq_ok] at h
  obtain ⟨state, hs, rfl⟩ := h
  exact ⟨state, hs, rfl⟩

end ThreadData

end PiScan.Machine

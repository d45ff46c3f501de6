import PiScan.Machine.Handlers
import PiScan.Sigproc.Modem

/-!
# The receiver does not stop a handler

Over a demodulator that `start` made, every part of a handler that only uses the
receiver and the context returns, and leaves the demodulator `Ready`.
-/

namespace PiScan.Machine

open Scan Sigproc

/-- The part of `hasSignal` that the channels share. -/
theorem channelSignal_ready {d : Demodulator} (h : d.Ready) {mode : Modulation} (hm : mode ≠ .FM)
    (freq : Int) (signal : Bool) :
    ∃ d', (do
        let demod ← d.setModem mode
        let demod ← demod.setFrequency freq
        demod.squelchThresholdMet signal) = Except.ok (signal, d') ∧ d'.Ready := by
  obtain ⟨d₁, h₁, hr₁⟩ := h.call (.setModem mode) fun he => hm (Demodulator.Call.setModem.inj he)
  obtain ⟨d₂, h₂, hr₂⟩ := hr₁.call (.setFrequency freq) (by rintro ⟨⟩)
  refine ⟨d₂, ?_, hr₂⟩
  simp only [bind_eq_ok]
  exact ⟨d₁, h₁, d₂, h₂, hr₂.squelchThresholdMet signal⟩

/-- The modulation that a channel asks for. -/
def channelMode (e : Entry) : Modulation :=
  match e.type with
  | .am => .AM
  | _ => .NFM

theorem channelMode_ne (e : Entry) : channelMode e ≠ .FM := by
  cases e with
  | mk type _ _ _ _ _ _ => cases type <;> rintro ⟨⟩

theorem hasSignal_channel {e : Entry} (h : e.isDummy = false) (signal : Bool) (d : Demodulator) :
    hasSignal e signal d = (do
      let demod ← d.setModem (channelMode e)
      let demod ← demod.setFrequency e.frequency
      demod.squelchThresholdMet signal) := by
  cases ht : e.type with
  | dummy => simp [Entry.isDummy, ht] at h
  | am => simp [hasSignal, channelMode, ht]
  | fm => simp [hasSignal, channelMode, ht]
  | pl tone => simp [hasSignal, channelMode, ht]
  | dc code => simp [hasSignal, channelMode, ht]

/-- **`hasSignal` returns**, for a dummy without a signal. -/
theorem hasSignal_ready {d : Demodulator} (h : d.Ready) (e : Entry) (signal : Bool) :
    ∃ found d', hasSignal e signal d = .ok (found, d') ∧ d'.Ready ∧
      (e.isDummy = true → found = false) := by
  cases hd : e.isDummy with
  | false =>
    obtain ⟨d', hok, hr⟩ := channelSignal_ready h (channelMode_ne e) e.frequency signal
    exact ⟨signal, d', (hasSignal_channel hd signal d).trans hok, hr, by rintro ⟨⟩⟩
  | true =>
    obtain ⟨d', hok, hr⟩ := h.call (.setTunerFrequency e.frequency) (by rintro ⟨⟩)
    have ht : e.type = .dummy := by simpa [Entry.isDummy] using hd
    refine ⟨false, d', ?_, hr, fun _ => rfl⟩
    simp only [hasSignal, ht, bind_eq_ok, pure_eq_ok]
    exact ⟨d', hok, rfl⟩

namespace ThreadData

variable {d : ThreadData}

theorem entry_eq {p : EntryPtr} (h : d.currentEntry = some p) :
    d.entry = .ok (d.systems.deref p) := by
  simp [entry, h]

theorem enableAudioOut_ready (h : d.demod.Ready) (en : Bool) :
    ∃ d', d.enableAudioOut en = .ok d' ∧ d'.demod.Ready := by
  obtain ⟨demod, hok, hr⟩ := h.call (.squelchBreak en) (by rintro ⟨⟩)
  refine ⟨{ d with demod }, ?_, hr⟩
  simp only [enableAudioOut, bind_eq_ok, pure_eq_ok]
  exact ⟨demod, hok, rfl⟩

theorem entrySignal_ready (h : d.demod.Ready) {p : EntryPtr} (hp : d.currentEntry = some p)
    (signal : Bool) :
    ∃ found d', d.entrySignal signal = .ok (found, d') ∧ d'.demod.Ready ∧
      ((d.systems.deref p).isDummy = true → found = false) := by
  obtain ⟨found, demod, hok, hr, hf⟩ := hasSignal_ready h (d.systems.deref p) signal
  refine ⟨found, { d with demod }, ?_, hr, hf⟩
  simp only [entrySignal, bind_eq_ok, pure_eq_ok, Prod.exists, Prod.mk.injEq]
  exact ⟨_, entry_eq hp, found, demod, hok, rfl, rfl⟩

/-- A context update finds the tags it needs. -/
def Tagged (d : ThreadData) : Prop :=
  d.currentContext.state = .SCAN ∨ ∃ p, d.currentEntry = some p ∧
    (d.manualMode = true ∨ ∃ s, d.systems.systems[(d.systems.deref p).sysIndex]? = some s)

theorem broadcastContextUpdate_ready (h : d.Tagged) :
    ∃ d', d.broadcastContextUpdate = .ok d' ∧ d'.demod = d.demod := by
  have hctx : ∃ ctx, d.newContext = .ok ctx := by
    unfold newContext
    rcases h with h | ⟨p, hp, htag⟩
    · exact ⟨_, if_pos h⟩
    · split
      · exact ⟨_, rfl⟩
      · have htags : ∃ ctx, d.entryTags (d.systems.deref p) = .ok ctx := by
          unfold entryTags
          rcases htag with hm | ⟨s, hs⟩
          · exact ⟨_, if_pos hm⟩
          · rw [hs]
            split <;> exact ⟨_, rfl⟩
        obtain ⟨ctx, hc⟩ := htags
        simp only [entry_eq hp, bind_eq_ok]
        exact ⟨_, _, rfl, ctx, hc, rfl⟩
  obtain ⟨ctx, hc⟩ := hctx
  refine ⟨{ d with currentContext := ctx, sent := d.sent ++ [ctx] }, ?_, rfl⟩
  simp only [broadcastContextUpdate, bind_eq_ok, pure_eq_ok]
  exact ⟨ctx, hc, rfl⟩

/-- **Entering a state returns.** -/
theorem enterState_ready (h : d.demod.Ready) {p : EntryPtr} (hp : d.currentEntry = some p)
    (htag : d.manualMode = true ∨ ∃ s, d.systems.systems[(d.systems.deref p).sysIndex]? = some s)
    (audio update : Bool) (state : ContextState) :
    ∃ d', d.enterState audio state update = .ok d' ∧ d'.demod.Ready := by
  obtain ⟨d₁, h₁, hr⟩ := enableAudioOut_ready h audio
  have hk := enableAudioOut_keeps h₁
  have htagged : Tagged { d₁ with currentContext := { d₁.currentContext with state } } := by
    refine .inr ⟨p, hk.currentEntry.trans hp, ?_⟩
    simp only [hk.manualMode, hk.systems]
    exact htag
  simp only [enterState, bind_eq_ok]
  cases update with
  | false => exact ⟨_, ⟨d₁, h₁, rfl⟩, hr⟩
  | true =>
    obtain ⟨d₂, h₂, hd⟩ := broadcastContextUpdate_ready htagged
    exact ⟨d₂, ⟨d₁, h₁, h₂⟩, by rw [hd]; exact hr⟩

end ThreadData

end PiScan.Machine

import PiScan.Machine.Context
import PiScan.Machine.Hold
import PiScan.Machine.Receiver
import PiScan.Sigproc.Audio

/-!
# Is the audio open only while receiving?

A handler mutes the current modem before `hasSignal` may switch to another one,
and only `ST_Receive` opens one.

* `Tuned`: the modem is set for the current entry, so `hasSignal` does not switch
  it; this holds whenever `ST_RECEIVE` is pending;
* `Audible.step`: no modem but the current one is ever open;
* `audio_muted`: after `ST_Scan` and `ST_Hold` every modem is muted, and after
  `ST_Receive` at most one is open, over every database with a scannable entry.
-/

namespace PiScan.Machine

open Scan Sigproc Runs

/-! ## The parts of the handlers -/

/-- A dummy leaves the audio alone. -/
theorem dummySignal_audio {e : Entry} {signal found : Bool} {d d' : Demodulator}
    (h : hasSignal e signal d = .ok (found, d')) (hdummy : e.isDummy = true) (hr : d.Ready) :
    found = false ∧ d'.Ready ∧ d.SameAudio d' := by
  have ht : e.type = .dummy := by simpa [Entry.isDummy] using hdummy
  simp only [hasSignal, ht, bind_eq_ok, pure_eq_ok, Prod.mk.injEq] at h
  obtain ⟨d₁, h₁, rfl, rfl⟩ := h
  have hready := hr.of_call (c := .setTunerFrequency e.frequency) (by rintro ⟨⟩) h₁
  exact ⟨rfl, hready, .setTunerFrequency h₁⟩

/-- A channel may switch the modem, and nothing else. -/
theorem channelSignal_audio {e : Entry} {signal found : Bool} {d d' : Demodulator}
    (h : hasSignal e signal d = .ok (found, d')) (hreal : e.isDummy = false) (hr : d.Ready) :
    d'.Ready ∧ ∃ d₁, d.setModem (channelMode e) = .ok d₁ ∧ d₁.SameAudio d' := by
  rw [hasSignal_channel hreal] at h
  simp only [bind_eq_ok] at h
  obtain ⟨d₁, h₁, d₂, h₂, h₃⟩ := h
  have hr₁ : d₁.Ready := by
    apply hr.of_call (c := .setModem (channelMode e)) ?_ h₁
    intro hmode
    exact channelMode_ne e (Demodulator.Call.setModem.inj hmode)
  have hr₂ : d₂.Ready := hr₁.of_call (c := .setFrequency e.frequency) (by rintro ⟨⟩) h₂
  rw [hr₂.squelchThresholdMet signal] at h₃
  obtain ⟨-, rfl⟩ := Prod.mk.inj (Except.ok.inj h₃)
  exact ⟨hr₂, d₁, h₁, .setFrequency h₂⟩

namespace ThreadData

variable {d d' : ThreadData}

/-- The modem is the one of the current entry, which is no dummy. -/
def Tuned (d : ThreadData) : Prop :=
  ∃ e, d.entry = .ok e ∧ e.isDummy = false ∧ d.demod.currentModem = channelMode e

theorem Tuned.congr (h : d.Tuned) (he : d'.entry = d.entry)
    (hm : d'.demod.currentModem = d.demod.currentModem) : d'.Tuned := by
  obtain ⟨e, hentry, hreal, hmode⟩ := h
  exact ⟨e, he.trans hentry, hreal, hm.trans hmode⟩

/-- `hasSignal` opens nothing; it may switch the modem, unless this is the one of the
entry. -/
theorem entrySignal_audio {signal found : Bool} (h : d.entrySignal signal = .ok (found, d'))
    (hr : d.demod.Ready) :
    d'.demod.Ready ∧ (d.demod.Closed → d'.demod.Closed ∧ (found = true → d'.Tuned)) ∧
      (d.demod.OnlyCurrent → d.Tuned → d'.demod.OnlyCurrent ∧ d'.Tuned) := by
  have hentry := (entrySignal_keeps h).1.entry
  simp only [entrySignal, bind_eq_ok, pure_eq_ok, Prod.exists, Prod.mk.injEq] at h
  obtain ⟨e, he, found', demod, hsignal, rfl, rfl⟩ := h
  cases hd : e.isDummy with
  | true =>
    obtain ⟨hfound, hready, hsame⟩ := dummySignal_audio hsignal hd hr
    refine ⟨hready, ?_, ?_⟩
    · intro hc
      refine ⟨hsame.closed hc, ?_⟩
      intro hyes
      rw [hfound] at hyes
      cases hyes
    · intro ho ht
      exact ⟨hsame.onlyCurrent ho, ht.congr hentry hsame.modem⟩
  | false =>
    obtain ⟨hready, d₁, hset, hsame⟩ := channelSignal_audio hsignal hd hr
    have hmodem := hsame.modem.trans (Demodulator.currentModem_setModem hset)
    have htuned : ({ d with demod } : ThreadData).Tuned := ⟨e, hentry.trans he, hd, hmodem⟩
    refine ⟨hready, ?_, ?_⟩
    · intro hc
      exact ⟨hsame.closed (hc.setModem hset), fun _ => htuned⟩
    · rintro ho ⟨e', he', -, hmode⟩
      obtain rfl := Except.ok.inj (he.symm.trans he')
      obtain rfl := Demodulator.setModem_same hmode hset
      exact ⟨hsame.onlyCurrent ho, htuned⟩

theorem enableAudioOut_audio {en : Bool} (h : d.enableAudioOut en = .ok d') (hr : d.demod.Ready) :
    d'.demod.Ready ∧ d'.demod.currentModem = d.demod.currentModem ∧
      (d.demod.OnlyCurrent → d'.demod.OnlyCurrent ∧ (en = false → d'.demod.Closed)) := by
  simp only [enableAudioOut, bind_eq_ok, pure_eq_ok] at h
  obtain ⟨demod, hbreak, rfl⟩ := h
  have hready := hr.of_call (c := .squelchBreak en) (by rintro ⟨⟩) hbreak
  refine ⟨hready, Demodulator.currentModem_squelchBreak hbreak, ?_⟩
  intro ho
  refine ⟨ho.squelchBreak hbreak, ?_⟩
  rintro rfl
  exact ho.mute hbreak

theorem broadcastContextUpdate_demod (h : d.broadcastContextUpdate = .ok d') :
    d'.demod = d.demod := by
  simp only [broadcastContextUpdate, bind_eq_ok, pure_eq_ok] at h
  obtain ⟨ctx, -, rfl⟩ := h
  rfl

theorem onlyIf_demod {c : Bool} {f : ThreadData → Except Fault ThreadData}
    (hf : ∀ {d d'}, f d = .ok d' → d'.demod = d.demod) (h : d.onlyIf c f = .ok d') :
    d'.demod = d.demod := by
  unfold onlyIf at h
  split at h
  · exact hf h
  · rw [← Except.ok.inj h]

theorem nextEntry_demod (h : d.nextEntry = .ok d') : d'.demod = d.demod := by
  simp only [nextEntry, bind_eq_ok, pure_eq_ok, Prod.exists] at h
  obtain ⟨p, sl, -, rfl⟩ := h
  rfl

theorem indexEntry_demod {index : List Int} (h : d.indexEntry index = .ok d') :
    d'.demod = d.demod := by
  simp only [indexEntry, bind_eq_ok, pure_eq_ok, Prod.exists] at h
  obtain ⟨p, sl, -, rfl⟩ := h
  rfl

theorem enterState_audio {audio update : Bool} {state : ContextState}
    (h : d.enterState audio state update = .ok d') (hr : d.demod.Ready) :
    d'.demod.Ready ∧ d'.demod.currentModem = d.demod.currentModem ∧
      (d.demod.OnlyCurrent → d'.demod.OnlyCurrent ∧ (audio = false → d'.demod.Closed)) := by
  simp only [enterState, bind_eq_ok] at h
  obtain ⟨d₁, h₁, h₂⟩ := h
  have hdemod : d'.demod = d₁.demod :=
    (onlyIf_demod broadcastContextUpdate_demod h₂).trans rfl
  rw [hdemod]
  exact enableAudioOut_audio h₁ hr

/-- Dummies are no reason to switch the modem. -/
theorem skipDummies_audio {fuel : Nat} (h : skipDummies fuel d = .ok d') (hr : d.demod.Ready) :
    d'.demod.Ready ∧ (d.demod.OnlyCurrent → d'.demod.OnlyCurrent) := by
  refine (skipDummies_keeps (P := fun a =>
    a.demod.Ready ∧ (d.demod.OnlyCurrent → a.demod.OnlyCurrent)) ?_ h ⟨hr, id⟩).1
  rintro a b c found e he hdummy h₁ h₂ ⟨hready, honly⟩
  simp only [entrySignal, bind_eq_ok, pure_eq_ok, Prod.exists, Prod.mk.injEq] at h₁
  obtain ⟨e', he', found', demod, hsignal, rfl, rfl⟩ := h₁
  obtain rfl := Except.ok.inj (he.symm.trans he')
  obtain ⟨-, hready', hsame⟩ := dummySignal_audio hsignal hdummy hready
  have hdemod : c.demod = demod := nextEntry_demod h₂
  rw [hdemod]
  exact ⟨hready', fun ho => hsame.onlyCurrent (honly ho)⟩

theorem holdEntry_audio {update signal found : Bool} (h : d.holdEntry update signal = .ok (found, d'))
    (hr : d.demod.Ready) :
    d'.demod.Ready ∧
      (d.demod.OnlyCurrent → d'.demod.Closed ∧ (found = true → d'.Tuned)) := by
  simp only [holdEntry, bind_eq_ok] at h
  obtain ⟨d₁, h₁, d₂, h₂, h₃⟩ := h
  obtain ⟨hr₁, ho₁⟩ := skipDummies_audio h₁ hr
  obtain ⟨hr₂, -, hmute⟩ := enterState_audio h₂ hr₁
  obtain ⟨hr₃, hclosed, -⟩ := entrySignal_audio h₃ hr₂
  refine ⟨hr₃, ?_⟩
  intro ho
  exact hclosed ((hmute (ho₁ ho)).2 rfl)

theorem scanStart_audio (h : d.scanStart = .ok d') (hr : d.demod.Ready) :
    d'.demod.Ready ∧ (d.demod.OnlyCurrent → d'.demod.Closed) := by
  simp only [scanStart, bind_eq_ok, pure_eq_ok] at h
  obtain ⟨d₁, h₁, rfl⟩ := h
  obtain ⟨hready, -, hmute⟩ := enableAudioOut_audio h₁ hr
  refine ⟨hready, ?_⟩
  intro ho
  exact (hmute ho).2 rfl

theorem scanEntry_audio {changed signal : Bool} {next : States}
    (h : d.scanEntry changed signal = .ok (next, d')) (hr : d.demod.Ready) :
    d'.demod.Ready ∧
      (d.demod.Closed → d'.demod.Closed ∧ (next = .ST_RECEIVE → d'.Tuned)) := by
  simp only [scanEntry, bind_eq_ok, Prod.exists] at h
  obtain ⟨d₁, h₁, d₂, h₂, found, d₃, h₃, h₄⟩ := h
  have hdemod : d₂.demod = d.demod :=
    (onlyIf_demod nextEntry_demod h₂).trans (onlyIf_demod broadcastContextUpdate_demod h₁)
  rw [← hdemod] at hr ⊢
  obtain ⟨hready, hclosed, -⟩ := entrySignal_audio h₃ hr
  split at h₄
  · rename_i hfound
    obtain ⟨-, rfl⟩ := Prod.mk.inj (Except.ok.inj h₄)
    refine ⟨hready, ?_⟩
    intro hc
    exact ⟨(hclosed hc).1, fun _ => ((hclosed hc).2 hfound).congr rfl rfl⟩
  · obtain ⟨rfl, rfl⟩ := Prod.mk.inj (Except.ok.inj h₄)
    refine ⟨hready, ?_⟩
    intro hc
    exact ⟨(hclosed hc).1, by rintro ⟨⟩⟩

theorem receiveEntry_audio {signal : Bool} {now : Int} {next : States}
    (h : d.receiveEntry signal now = .ok (next, d')) (hr : d.demod.Ready) :
    d'.demod.Ready ∧
      (d.demod.OnlyCurrent → d.Tuned → d'.demod.OnlyCurrent ∧ d'.Tuned) := by
  simp only [receiveEntry, bind_eq_ok, Prod.exists] at h
  obtain ⟨found, d₁, h₁, h₂⟩ := h
  obtain ⟨hready, -, htuned⟩ := entrySignal_audio h₁ hr
  split at h₂
  · obtain ⟨-, rfl⟩ := Prod.mk.inj (Except.ok.inj h₂)
    exact ⟨hready, htuned⟩
  · obtain ⟨-, rfl⟩ := Prod.mk.inj (Except.ok.inj h₂)
    refine ⟨hready, ?_⟩
    intro ho ht
    obtain ⟨honly, htuned'⟩ := htuned ho ht
    exact ⟨honly, htuned'.congr rfl rfl⟩

/-- A hold leads to `ST_RECEIVE` only with a signal. -/
theorem holdDecision_receive {signal externalHold evtSrcExternal : Bool} {now : Int}
    (h : d.holdDecision signal externalHold evtSrcExternal now = .ok (some .ST_RECEIVE)) :
    signal = true := by
  unfold holdDecision at h
  by_contra hno
  rw [if_neg hno] at h
  split at h
  · cases h
  · simp only [bind_eq_ok] at h
    obtain ⟨e, -, h⟩ := h
    split_ifs at h <;> cases h

end ThreadData

/-! ## Runs -/

namespace World

variable {w w' : World} {l : Label}

/-- What the audio is at a point of the thread, after a handler `last`. -/
def AudioAt (last : Option States) (d : ThreadData) : Pc → Prop
  | .idle => d.demod.OnlyCurrent ∧ (last = some .ST_SCAN ∨ last = some .ST_HOLD → d.demod.Closed)
  | .scan => d.demod.Closed
  | .holdDecision found => d.demod.Closed ∧ (found = true → d.Tuned)
  | .holdEvent next => d.demod.Closed ∧ (next = some .ST_RECEIVE → d.Tuned)
  | .receive => d.demod.OnlyCurrent ∧ d.Tuned
  | .hold _ | .manual | .saveAll | .ended => d.demod.OnlyCurrent
  | .crashed _ => True

/-- Over a database that is not empty, the audio is as the point of the thread and
the last handler say, and a pending `ST_RECEIVE` finds the modem set. -/
structure Audible (pre : List Label) (w : World) : Prop where
  ready : w.sm.data.demod.Ready
  fresh : w.sm.eventGenerated = true → w.sm.currentState = .ST_LOAD → w.sm.data.demod.Closed
  last : ∀ a, w.pc.handler = some a → (activations pre).getLast? = some a
  audio : w.sm.data.systems.size ≠ 0 → AudioAt (activations pre).getLast? w.sm.data w.pc
  pending : w.sm.data.systems.size ≠ 0 → w.sm.eventGenerated = true →
    w.sm.currentState = .ST_RECEIVE → w.sm.data.Tuned

theorem Audible.at_point {pre : List Label} {pc : Pc} (h : w.Audible pre) (hpc : w.pc = pc)
    (hsize : w.sm.data.systems.size ≠ 0) :
    AudioAt (activations pre).getLast? w.sm.data pc := by
  rw [← hpc]
  exact h.audio hsize

theorem Audible.at_idle {pre : List Label} (h : w.Audible pre) (hpc : w.pc = .idle)
    (hsize : w.sm.data.systems.size ≠ 0) : w.sm.data.demod.OnlyCurrent :=
  (h.at_point hpc hsize).1

/-- A step of a client.  No call leads to `ST_LOAD` or `ST_RECEIVE`. -/
theorem Audible.client {pre : List Label} (h : w.Audible pre) (hsane : w.control.Sane)
    (hs : w.ByClient l w') : w'.Audible (pre ++ [l]) := by
  have hacts : activations (pre ++ [l]) = activations pre :=
    activations_concat_of_none pre hs.activated
  have hevent : (w'.sm.toStateMachine = w.sm.toStateMachine) ∨
      w'.sm.currentState ≠ .ST_LOAD ∧ w'.sm.currentState ≠ .ST_RECEIVE := by
    apply hs.machine.imp_right
    rintro ⟨-, c, call, next, hc, hmachine⟩
    have hnext : next = call.target := hsane.target (show w.control.clients c = _ from hc)
    rw [hmachine, hnext]
    cases call <;> exact ⟨by rintro ⟨⟩, by rintro ⟨⟩⟩
  refine ⟨?_, ?_, ?_, ?_, ?_⟩
  · rw [hs.data]
    exact h.ready
  · rw [hs.data]
    rcases hevent with hmachine | ⟨hload, -⟩
    · rw [hmachine]
      exact h.fresh
    · intro _ hcur
      exact absurd hcur hload
  · rw [hs.pc, hacts]
    exact h.last
  · rw [hs.data, hs.pc, hacts]
    exact h.audio
  · rw [hs.data]
    rcases hevent with hmachine | ⟨-, hreceive⟩
    · rw [hmachine]
      exact h.pending
    · intro _ _ hcur
      exact absurd hcur hreceive

/-- A handler that starts and leaves the mailbox empty. -/
theorem audible_taken {pre : List Label} {a : States} {pc : Pc} {sm : ScannerSM}
    (hready : sm.data.demod.Ready) (hmail : sm.eventGenerated = false)
    (hlast : pc.handler = some a ∨ pc.handler = none)
    (haudio : sm.data.systems.size ≠ 0 → AudioAt (some a) sm.data pc) :
    (w.go pc sm).Audible (pre ++ [.activate a]) := by
  have hacts : (activations (pre ++ [.activate a])).getLast? = some a :=
    getLast?_activations_snoc pre (.activate a)
  refine ⟨hready, ?_, ?_, ?_, ?_⟩
  · intro hg
    exact absurd (hmail.symm.trans hg) (by rintro ⟨⟩)
  · intro b hb
    rw [hacts]
    rcases hlast with hlast | hlast
    · exact hlast.symm.trans hb
    · exact absurd (hlast.symm.trans hb) (by rintro ⟨⟩)
  · rw [hacts]
    exact haudio
  · intro _ hg
    exact absurd (hmail.symm.trans hg) (by rintro ⟨⟩)

/-- A handler that starts. -/
theorem Audible.starts {pre : List Label} {a : States} (h : w.Audible pre)
    (hs : Moves w (.activate a) w') : w'.Audible (pre ++ [.activate a]) := by
  cases hs with
  | load hdue hd =>
    simp only [ThreadData.load, bind_eq_ok, pure_eq_ok] at hd
    obtain ⟨sl, -, sl', -, rfl⟩ := hd
    have hclosed := h.fresh hdue.2.1 hdue.2.2
    refine audible_taken ?_ rfl (.inr rfl) ?_
    · exact h.ready
    · intro _
      exact ⟨hclosed.onlyCurrent, fun _ => hclosed⟩
  | scanEmpty hdue hempty =>
    refine ⟨h.ready, fun _ => by rintro ⟨⟩, by rintro _ ⟨⟩, ?_, ?_⟩
    · intro hsize
      exact absurd hempty hsize
    · intro hsize
      exact absurd hempty hsize
  | scan hdue hsome hd =>
    obtain ⟨hready, hclosed⟩ := ThreadData.scanStart_audio hd h.ready
    apply audible_taken hready rfl (.inl rfl)
    intro _
    exact hclosed (h.at_idle hdue.1 hsome)
  | holdIndex hdue hflag hindex hd =>
    have hdemod := ThreadData.indexEntry_demod hd
    have hentries := (ThreadData.indexEntry_scans hd).1.entries
    apply audible_taken (hdemod ▸ h.ready) rfl (.inl rfl)
    intro hsize
    rw [SystemList.size, hentries.systems] at hsize
    change ThreadData.demod _ |>.OnlyCurrent
    rw [hdemod]
    exact h.at_idle hdue.1 hsize
  | hold hdue hno => exact audible_taken h.ready rfl (.inl rfl) (h.at_idle hdue.1)
  | @receive e d hdue he hd =>
    obtain ⟨hready, hmodem, honly⟩ := ThreadData.enterState_audio hd h.ready
    have hk := ThreadData.enterState_keeps hd
    have hcur : w.sm.currentState = .ST_RECEIVE := hdue.2.2
    have hstate : (w.sm.take.raiseIfLocked e.isLockedOut).eventGenerated = true →
        (w.sm.take.raiseIfLocked e.isLockedOut).currentState = .ST_SCAN := by
      cases e.isLockedOut <;>
        simp [ScannerSM.raiseIfLocked, ScannerSM.take, StateMachine.internalEvent]
    refine ⟨hready, ?_, ?_, ?_, ?_⟩
    · intro hg hload
      exact absurd ((hstate hg).symm.trans hload) (by rintro ⟨⟩)
    · rintro b ⟨⟩
      exact getLast?_activations_snoc pre (.activate .ST_RECEIVE)
    · intro hsize
      change d.systems.size ≠ 0 at hsize
      rw [hk.systems] at hsize
      have htuned := h.pending hsize hdue.2.1 hcur
      exact ⟨(honly (h.at_idle hdue.1 hsize)).1, htuned.congr hk.entry hmodem⟩
    · intro _ hg hreceive
      exact absurd ((hstate hg).symm.trans hreceive) (by rintro ⟨⟩)
  | manual hdue hdata => exact audible_taken h.ready rfl (.inl rfl) (h.at_idle hdue.1)
  | saveAll hdue hd =>
    obtain ⟨state, -, rfl⟩ := ThreadData.saveAll_spec hd
    exact audible_taken h.ready rfl (.inl rfl) (h.at_idle hdue.1)
  | stopped hdue => exact audible_taken h.ready rfl (.inr rfl) (h.at_idle hdue.1)
  | crash hfault =>
    exact ⟨h.ready, h.fresh, by rintro _ ⟨⟩, fun _ => trivial, h.pending⟩

/-- A handler that ends with the event `next`. -/
theorem audible_raised {pre : List Label} {r : ScannerSM.Reading} {sm : ScannerSM} {next : States}
    (hready : sm.data.demod.Ready) (hnext : next ≠ .ST_LOAD)
    (haudio : sm.data.systems.size ≠ 0 →
      AudioAt (activations pre).getLast? sm.data .idle ∧ (next = .ST_RECEIVE → sm.data.Tuned)) :
    (w.go .idle (sm.raise next)).Audible (pre ++ [.resume r]) := by
  have hacts : activations (pre ++ [.resume r]) = activations pre :=
    activations_concat_of_none pre rfl
  refine ⟨hready, ?_, by rintro _ ⟨⟩, ?_, ?_⟩
  · intro _ hcur
    exact absurd hcur hnext
  · rw [hacts]
    intro hsize
    exact (haudio hsize).1
  · intro hsize _ hcur
    exact (haudio hsize).2 hcur

/-- A handler that goes on and leaves the mailbox alone. -/
theorem Audible.goes {pre : List Label} {r : ScannerSM.Reading} {pc : Pc} {d : ThreadData}
    (h : w.Audible pre) (hpc : pc.handler = w.pc.handler) (hquiet : w.sm.eventGenerated = false)
    (hready : d.demod.Ready)
    (haudio : d.systems.size ≠ 0 → AudioAt (activations pre).getLast? d pc) :
    (w.go pc { w.sm with data := d }).Audible (pre ++ [.resume r]) := by
  have hacts : activations (pre ++ [.resume r]) = activations pre :=
    activations_concat_of_none pre rfl
  refine ⟨hready, ?_, ?_, ?_, ?_⟩
  · intro hg
    exact absurd (hquiet.symm.trans hg) (by rintro ⟨⟩)
  · rw [hacts]
    intro a ha
    exact h.last a (hpc ▸ ha)
  · rw [hacts]
    exact haudio
  · intro _ hg
    exact absurd (hquiet.symm.trans hg) (by rintro ⟨⟩)

/-- A handler that goes on. -/
theorem Audible.goes_on {pre : List Label} {r : ScannerSM.Reading} (h : w.Audible pre)
    (hsane : w.control.Sane) (hs : Moves w (.resume r) w') : w'.Audible (pre ++ [.resume r]) := by
  have hhold : w.pc.InHold → w.sm.eventGenerated = false := hsane.holding
  cases hs with
  | @scanEnd r next d hpc hd =>
    obtain ⟨hready, haudio⟩ := ThreadData.scanEntry_audio hd h.ready
    obtain ⟨d₁, hits, hd₁, hscans, -, hnext, -⟩ := ThreadData.scanEntry_scans hd
    refine audible_raised hready ?_ ?_
    · rcases hnext with rfl | rfl <;> rintro ⟨⟩
    · intro hsize
      have hw : w.sm.data.systems.size ≠ 0 := by
        rw [hd₁] at hsize
        change d₁.systems.systems.length ≠ 0 at hsize
        rwa [hscans.entries.systems] at hsize
      have hat := h.at_point hpc hw
      obtain ⟨hclosed, htuned⟩ := haudio hat
      exact ⟨⟨hclosed.onlyCurrent, fun _ => hclosed⟩, htuned⟩
  | @holdEntry r update found d hpc hd =>
    obtain ⟨hready, haudio⟩ := ThreadData.holdEntry_audio hd h.ready
    have hscans := (ThreadData.holdEntry_scans hd).1
    refine h.goes (by rw [hpc]; rfl) (hhold (by rw [hpc]; trivial)) hready ?_
    intro hsize
    have hw : w.sm.data.systems.size ≠ 0 := by
      rwa [SystemList.size, hscans.entries.systems] at hsize
    have hat := h.at_point hpc hw
    exact haudio hat
  | @holdDecision r found next hpc hd =>
    refine h.goes (d := w.sm.data) (by rw [hpc]; rfl) (hhold (by rw [hpc]; trivial)) h.ready ?_
    intro hsize
    have hat := h.at_point hpc hsize
    refine ⟨hat.1, ?_⟩
    rintro rfl
    exact hat.2 (ThreadData.holdDecision_receive hd)
  | @holdEvent r next hpc =>
    refine audible_raised h.ready ?_ ?_
    · rcases hsane.decided next hpc with rfl | rfl | rfl <;> rintro ⟨⟩
    · intro hsize
      have hat := h.at_point hpc hsize
      refine ⟨⟨hat.1.onlyCurrent, fun _ => hat.1⟩, ?_⟩
      rintro rfl
      exact hat.2 rfl
  | holdQuiet hpc =>
    have hquiet := hhold (by rw [hpc]; trivial)
    refine ⟨h.ready, ?_, by rintro _ ⟨⟩, ?_, ?_⟩
    · intro hg
      exact absurd (hquiet.symm.trans hg) (by rintro ⟨⟩)
    · intro hsize
      have hat := h.at_point hpc hsize
      exact ⟨hat.1.onlyCurrent, fun _ => hat.1⟩
    · intro _ hg
      exact absurd (hquiet.symm.trans hg) (by rintro ⟨⟩)
  | @receiveEnd r next d hpc hd =>
    obtain ⟨hready, haudio⟩ := ThreadData.receiveEntry_audio hd h.ready
    obtain ⟨hk, hnext⟩ := ThreadData.receiveEntry_keeps hd
    refine audible_raised hready ?_ ?_
    · rcases hnext with rfl | rfl <;> rintro ⟨⟩
    · intro hsize
      change d.systems.size ≠ 0 at hsize
      rw [hk.systems] at hsize
      have hat := h.at_point hpc hsize
      obtain ⟨honly, htuned⟩ := haudio hat.1 hat.2
      refine ⟨⟨honly, ?_⟩, fun _ => htuned⟩
      rw [h.last .ST_RECEIVE (by rw [hpc]; rfl)]
      rintro (hno | hno) <;> cases hno
  | manualEnd hpc =>
    refine audible_raised h.ready (by rintro ⟨⟩) ?_
    intro hsize
    have hat := h.at_point hpc hsize
    refine ⟨⟨hat, ?_⟩, by rintro ⟨⟩⟩
    rw [h.last .ST_MANUAL (by rw [hpc]; rfl)]
    rintro (hno | hno) <;> cases hno
  | saveAllEnd hpc =>
    refine audible_raised h.ready (by rintro ⟨⟩) ?_
    intro hsize
    have hat := h.at_point hpc hsize
    refine ⟨⟨hat, ?_⟩, by rintro ⟨⟩⟩
    rw [h.last .ST_SAVEALL (by rw [hpc]; rfl)]
    rintro (hno | hno) <;> cases hno
  | crash hfault =>
    exact ⟨h.ready, h.fresh, by rintro _ ⟨⟩, fun _ => trivial, h.pending⟩

theorem Audible.step {pre : List Label} (h : w.Audible pre) (hsane : w.control.Sane)
    (hs : Step w l w') : w'.Audible (pre ++ [l]) := by
  rcases step_cases hs with hclient | ⟨a, rfl, hm⟩ | ⟨r, rfl, hm⟩
  · exact h.client hsane hclient
  · exact h.starts hm
  · exact h.goes_on hsane hm

theorem audible_start (file : SystemsFile) (cubic : CubicSDR) :
    (start file (.start cubic)).Audible [] := by
  have hclosed := Demodulator.closed_start cubic
  refine ⟨Demodulator.ready_start cubic, fun _ _ => hclosed, by rintro _ ⟨⟩, ?_, ?_⟩
  · intro _
    exact ⟨hclosed.onlyCurrent, fun _ => hclosed⟩
  · intro _ _
    rintro ⟨⟩

theorem audible_run {file : SystemsFile} {cubic : CubicSDR} {ls : List Label}
    (h : Run Step (start file (.start cubic)) ls w) : w.Audible ls := by
  have hboth : w.Audible ([] ++ ls) ∧ w.control.Sane := by
    refine h.history (I := fun pre w => w.Audible pre ∧ w.control.Sane) (P := fun _ => True) ?_
      (fun _ _ => trivial) ⟨audible_start file cubic, sane_start file (.start cubic)⟩
    rintro pre s l t - ⟨haudible, hsane⟩ hs
    exact ⟨haudible.step hsane hs, hsane.step (control_step hs)⟩
  exact hboth.1

/-- **Audio is open only while receiving.**  When the thread has completed a handler of a
run over a database with a scannable entry, all modems are muted after `ST_Scan` and
`ST_Hold`, and at most one of them is not after `ST_Receive`. -/
theorem audio_muted {file : SystemsFile} {cubic : CubicSDR} {ls : List Label} {last : States}
    (h : Run Step (start file (.start cubic)) ls w)
    (hdb : ∃ p, w.sm.data.systems.isScannable p = true)
    (hdone : w.pc = .idle) (hlast : (activations ls).getLast? = some last) :
    (last = .ST_SCAN ∨ last = .ST_HOLD → w.sm.data.demod.AllMuted) ∧
      (last = .ST_RECEIVE → w.sm.data.demod.AtMostOneOpen) := by
  obtain ⟨p, hp⟩ := hdb
  have hat := (audible_run h).audio (SystemList.size_of_isScannable hp)
  rw [hdone, hlast] at hat
  refine ⟨?_, fun _ => hat.1.atMostOneOpen⟩
  intro hmuting
  have hclosed := hat.2 (hmuting.imp (congrArg some) (congrArg some))
  exact hclosed.allMuted

/-- A hold during which a transmission comes and goes. -/
def heldTransmission : List Label := scanStarted ++ promptHold ++ [.commit 1] ++ transmission

theorem audio_muted_transmission :
    ((start oneChannelFile (.start tunedDemod.cubic)).after heldTransmission).sm.data.demod.AllMuted := by
  have hrun : Run Step (start oneChannelFile (.start tunedDemod.cubic)) heldTransmission
      ((start oneChannelFile (.start tunedDemod.cubic)).after heldTransmission) :=
    run_after (by decide +kernel)
  have hdb : ∃ p, ((start oneChannelFile (.start tunedDemod.cubic)).after
      heldTransmission).sm.data.systems.isScannable p = true := ⟨.channel 0 0, by decide +kernel⟩
  exact (audio_muted hrun hdb (by decide +kernel) (by decide)).1 (.inr rfl)

end World

end PiScan.Machine

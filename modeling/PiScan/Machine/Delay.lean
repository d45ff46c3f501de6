import PiScan.Machine.Audio
import PiScan.Machine.Squelch

/-!
# The resume delay

`ST_Receive` notes the time at which the signal is lost, and `ST_Hold` compares the
time since then, narrowed to an `int` of milliseconds, with the delay of the entry.

* `Receives`: what `ST_Receive` works on is no dummy;
* `Rests.step`: without an event or a signal, `ST_Hold` stays on the entry;
* `honoursDelay_iff`: the delay is honoured just at the times that `Reckoned` admits.
-/

namespace PiScan.Machine

open Scan Sigproc Runs TwosComplement

/-! ## The time passed -/

/-- The narrowed time compares with the delay as the time itself does: the delay has not
passed, or what is left of the time modulo `2 ^ 32` is no negative `int` and not below
the delay either. -/
def Reckoned (delay time : Int) : Prop :=
  delay = 0 ∨ time < delay ∨ delay ≤ time % 2 ^ 32 ∧ time % 2 ^ 32 < 2 ^ 31

instance (delay time : Int) : Decidable (Reckoned delay time) :=
  inferInstanceAs (Decidable (_ ∨ _ ∨ _ ∧ _))

theorem reckoned_iff {delay time : Int} (hd : 0 ≤ delay) (ht : 0 ≤ time) :
    Reckoned delay time ↔ (delay ≠ 0 ∧ wrap 32 time < delay ↔ time < delay) := by
  unfold Reckoned wrap
  rw [Int.bmod_def]
  norm_num
  omega

/-- In the first 24 days. -/
theorem reckoned_of_lt {delay time : Int} (ht : 0 ≤ time) (hlt : time < 2 ^ 31) :
    Reckoned delay time := by
  unfold Reckoned
  omega

namespace ThreadData

variable {d d' : ThreadData}

/-- The current entry is no dummy. -/
def OnChannel (d : ThreadData) : Prop := ∃ e, d.entry = .ok e ∧ e.isDummy = false

theorem OnChannel.keeps (h : d.OnChannel) (hk : Keeps d d') : d'.OnChannel := by
  obtain ⟨e, he, hd⟩ := h
  exact ⟨e, hk.entry.trans he, hd⟩

theorem OnChannel.forall (h : d.OnChannel) : ∀ e, d.entry = .ok e → e.isDummy = false := by
  obtain ⟨e, he, hd⟩ := h
  intro e' he'
  obtain rfl := Except.ok.inj (he.symm.trans he')
  exact hd

/-- A signal is found on an entry that is no dummy, with an open squelch. -/
theorem entrySignal_found {signal : Bool} (h : d.entrySignal signal = .ok (true, d')) :
    d.OnChannel ∧ signal = true := by
  simp only [entrySignal, bind_eq_ok, pure_eq_ok, Prod.exists, Prod.mk.injEq] at h
  obtain ⟨e, he, found, demod, hsignal, rfl, -⟩ := h
  have hfound := (hasSignal_found hsignal).symm
  rw [Bool.and_eq_true, Bool.not_eq_true'] at hfound
  exact ⟨⟨e, he, hfound.1⟩, hfound.2⟩

theorem scanEntry_receive {changed signal : Bool}
    (h : d.scanEntry changed signal = .ok (.ST_RECEIVE, d')) : d'.OnChannel ∧ signal = true := by
  obtain ⟨p, hp, -, hhit⟩ := scanEntry_hit h
  rcases hhit with ⟨⟨hreal, hsignal⟩, -⟩ | ⟨-, -, hnext⟩
  · refine ⟨⟨d'.systems.deref p, ?_, hreal⟩, hsignal⟩
    rw [entry, hp]
  · cases hnext

theorem receiveEntry_receive {signal : Bool} {now : Int}
    (h : d.receiveEntry signal now = .ok (.ST_RECEIVE, d')) : d'.OnChannel := by
  simp only [receiveEntry, bind_eq_ok, Prod.exists] at h
  obtain ⟨found, d₁, h₁, h₂⟩ := h
  cases found with
  | false => cases h₂
  | true =>
    obtain ⟨-, rfl⟩ := Prod.mk.inj (Except.ok.inj h₂)
    exact (entrySignal_found h₁).1.keeps (entrySignal_keeps h₁).1

theorem receiveEntry_hold {signal : Bool} {now : Int}
    (h : d.receiveEntry signal now = .ok (.ST_HOLD, d')) :
    Keeps d d' ∧ d'.timeoutStart = now := by
  refine ⟨(receiveEntry_keeps h).1, ?_⟩
  simp only [receiveEntry, bind_eq_ok, Prod.exists] at h
  obtain ⟨found, d₁, h₁, h₂⟩ := h
  cases found with
  | true => cases h₂
  | false =>
    obtain ⟨-, rfl⟩ := Prod.mk.inj (Except.ok.inj h₂)
    rfl

theorem enterState_timeoutStart {audio update : Bool} {X : ContextState}
    (h : d.enterState audio X update = .ok d') : d'.timeoutStart = d.timeoutStart := by
  simp only [enterState, bind_eq_ok] at h
  obtain ⟨d₁, h₁, h₂⟩ := h
  obtain ⟨demod, rfl⟩ := enableAudioOut_spec h₁
  unfold onlyIf at h₂
  split at h₂
  · obtain ⟨ctx, -, rfl⟩ := broadcastContextUpdate_spec h₂
    rfl
  · rw [← Except.ok.inj h₂]

/-- A signal found in `ST_Hold`. -/
theorem holdEntry_found {update signal : Bool}
    (h : d.holdEntry update signal = .ok (true, d')) : d'.OnChannel ∧ signal = true := by
  simp only [holdEntry, bind_eq_ok] at h
  obtain ⟨d₁, h₁, d₂, h₂, h₃⟩ := h
  obtain ⟨hreal, hsignal⟩ := entrySignal_found h₃
  exact ⟨hreal.keeps (entrySignal_keeps h₃).1, hsignal⟩

/-- `ST_Hold` stays on an entry that is no dummy. -/
theorem holdEntry_onChannel {update signal found : Bool}
    (h : d.holdEntry update signal = .ok (found, d')) (hreal : d.OnChannel) :
    Keeps d d' ∧ d'.timeoutStart = d.timeoutStart := by
  simp only [holdEntry, bind_eq_ok] at h
  obtain ⟨d₁, h₁, d₂, h₂, h₃⟩ := h
  obtain rfl := skipDummies_real h₁ hreal.forall
  refine ⟨(enterState_keeps h₂).trans (entrySignal_keeps h₃).1, ?_⟩
  have htime := enterState_timeoutStart h₂
  obtain ⟨demod, rfl⟩ := entrySignal_spec h₃
  exact htime

/-- The decision without a signal, a hold and an external event. -/
theorem holdDecision_delay {e : Entry} (he : d.entry = .ok e) (hfree : e.isLockedOut = false)
    (now : Int) :
    d.holdDecision false false false now =
      .ok (some (if e.delayMS ≠ 0 ∧ d.elapsed now < e.delayMS then .ST_HOLD else .ST_SCAN)) := by
  unfold holdDecision
  rw [he]
  by_cases hzero : e.delayMS = 0
  · simp [hfree, hzero]
  · by_cases hlt : d.elapsed now < e.delayMS
    · simp [hfree, hzero, hlt]
    · simp [hfree, hzero, hlt]

end ThreadData

/-- The step brings neither an external event nor a signal. -/
def Label.Silent : Label → Prop
  | storeFlag _ | commit _ => False
  | resume r => r.signal = false
  | _ => True

namespace World

variable {w w' : World} {l : Label} {ls : List Label} {e : Entry} {p : Option EntryPtr}
  {t₀ : Int}

/-! ## What `ST_Receive` works on -/

/-- Where `ST_RECEIVE` is decided on or runs, the entry is no dummy. -/
structure Receives (w : World) : Prop where
  due : w.sm.eventGenerated = true → w.sm.currentState = .ST_RECEIVE → w.sm.data.OnChannel
  found : w.pc = .holdDecision true → w.sm.data.OnChannel
  event : w.pc = .holdEvent (some .ST_RECEIVE) → w.sm.data.OnChannel
  receive : w.pc = .receive → w.sm.data.OnChannel

theorem receives_idle {sm : ScannerSM}
    (h : sm.eventGenerated = true → sm.currentState = .ST_RECEIVE → sm.data.OnChannel) :
    (w.go .idle sm).Receives :=
  ⟨h, by rintro ⟨⟩, by rintro ⟨⟩, by rintro ⟨⟩⟩

theorem Receives.step (h : w.Receives) (hsane : w.control.Sane) (hs : Step w l w') :
    w'.Receives := by
  obtain ⟨hdue, hfound, hevent, hreceive⟩ := h
  cases moves_of_step hs with
  | begin => exact ⟨hdue, hfound, hevent, hreceive⟩
  | storeFlag => exact ⟨hdue, hfound, hevent, hreceive⟩
  | storeIndex => exact ⟨hdue, hfound, hevent, hreceive⟩
  | lookup => exact ⟨hdue, hfound, hevent, hreceive⟩
  | ignore => exact ⟨hdue, hfound, hevent, hreceive⟩
  | @commit c call next hc hu =>
    refine ⟨fun _ hcur => ?_, hfound, hevent, hreceive⟩
    have hnext : next = call.target := hsane.target (show w.control.clients c = _ from hc)
    have hstate : next = .ST_RECEIVE := hcur
    rw [hnext] at hstate
    cases call <;> cases hstate
  | load => exact receives_idle (by rintro ⟨⟩)
  | scanEmpty => exact receives_idle (by rintro - ⟨⟩)
  | scan => exact ⟨by rintro ⟨⟩, by rintro ⟨⟩, by rintro ⟨⟩, by rintro ⟨⟩⟩
  | holdIndex => exact ⟨by rintro ⟨⟩, by rintro ⟨⟩, by rintro ⟨⟩, by rintro ⟨⟩⟩
  | hold => exact ⟨by rintro ⟨⟩, by rintro ⟨⟩, by rintro ⟨⟩, by rintro ⟨⟩⟩
  | @receive e d hdue' he hd =>
    have hreal : d.OnChannel := (hdue hdue'.2.1 hdue'.2.2).keeps (ThreadData.enterState_keeps hd)
    exact ⟨fun _ _ => hreal, by rintro ⟨⟩, by rintro ⟨⟩, fun _ => hreal⟩
  | manual => exact ⟨by rintro ⟨⟩, by rintro ⟨⟩, by rintro ⟨⟩, by rintro ⟨⟩⟩
  | saveAll => exact ⟨by rintro ⟨⟩, by rintro ⟨⟩, by rintro ⟨⟩, by rintro ⟨⟩⟩
  | stopped => exact ⟨by rintro ⟨⟩, by rintro ⟨⟩, by rintro ⟨⟩, by rintro ⟨⟩⟩
  | @scanEnd r next d hpc hd =>
    refine receives_idle fun _ hcur => ?_
    obtain rfl : next = .ST_RECEIVE := hcur
    exact (ThreadData.scanEntry_receive hd).1
  | @holdEntry r update found d hpc hd =>
    refine ⟨fun hg _ => ?_, fun hyes => ?_, by rintro ⟨⟩, by rintro ⟨⟩⟩
    · have hquiet : w.control.eventGenerated = false := hsane.holding (by
        show w.pc.InHold
        rw [hpc]
        trivial)
      exact absurd (hquiet.symm.trans hg) (by decide)
    · obtain rfl : found = true := Pc.holdDecision.inj hyes
      exact (ThreadData.holdEntry_found hd).1
  | @holdDecision r found next hpc hd =>
    refine ⟨hdue, by rintro ⟨⟩, fun hyes => ?_, by rintro ⟨⟩⟩
    obtain rfl : next = some .ST_RECEIVE := Pc.holdEvent.inj hyes
    obtain rfl := ThreadData.holdDecision_receive hd
    exact hfound hpc
  | @holdEvent r next hpc =>
    refine receives_idle fun _ hcur => ?_
    obtain rfl : next = .ST_RECEIVE := hcur
    exact hevent hpc
  | holdQuiet => exact receives_idle hdue
  | @receiveEnd r next d hpc hd =>
    refine receives_idle fun _ hcur => ?_
    obtain rfl : next = .ST_RECEIVE := hcur
    exact ThreadData.receiveEntry_receive hd
  | manualEnd => exact receives_idle (by rintro - ⟨⟩)
  | saveAllEnd => exact receives_idle (by rintro - ⟨⟩)
  | crash => exact ⟨hdue, by rintro ⟨⟩, by rintro ⟨⟩, by rintro ⟨⟩⟩

theorem receives_run {file : SystemsFile} {demod : Demodulator}
    (h : Run Step (start file demod) ls w) : w.Receives := by
  have hboth := h.invariant (I := fun w => w.Receives ∧ w.control.Sane) ?_
    ⟨⟨by rintro - ⟨⟩, by rintro ⟨⟩, by rintro ⟨⟩, by rintro ⟨⟩⟩, sane_start file demod⟩
  · exact hboth.1
  · rintro s l t ⟨hr, hsane⟩ hs
    exact ⟨hr.step hsane hs, hsane.step (control_step hs)⟩

/-! ## Without an event or a signal -/

/-- `ST_Hold` has nothing to do but wait since `t₀`, on the entry `p`, which is `e`. -/
structure Waits (p : Option EntryPtr) (e : Entry) (t₀ : Int) (m : ScannerSM) : Prop where
  current : m.data.currentEntry = p
  entry : m.data.entry = .ok e
  real : e.isDummy = false
  free : e.isLockedOut = false
  since : m.data.timeoutStart = t₀
  internalHold : m.externalHold = false
  internal : m.evtSrcExternal = false

theorem Waits.onChannel {m : ScannerSM} (h : Waits p e t₀ m) : m.data.OnChannel :=
  ⟨e, h.entry, h.real⟩

theorem Waits.keeps {m m' : ScannerSM} (h : Waits p e t₀ m)
    (hk : ThreadData.Keeps m.data m'.data) (ht : m'.data.timeoutStart = m.data.timeoutStart)
    (hflag : m'.externalHold = m.externalHold) (hsrc : m'.evtSrcExternal = m.evtSrcExternal) :
    Waits p e t₀ m' :=
  ⟨hk.currentEntry.trans h.current, hk.entry.trans h.entry, h.real, h.free, ht.trans h.since,
    hflag.trans h.internalHold, hsrc.trans h.internal⟩

/-- The points at which the state thread waits. -/
def WaitsAt (m : StateMachine) : Pc → Prop
  | .idle => m.eventGenerated = true ∧ m.currentState = .ST_HOLD
  | .hold _ => True
  | .holdDecision found => found = false
  | .holdEvent next => next = some .ST_HOLD ∨ next = some .ST_SCAN
  | _ => False

/-- The points at which it scans again, or has crashed.  `ST_Scan` over an empty
database asks for a manual entry, with data that `ST_Manual` cannot use. -/
def ScansAt (m : StateMachine) : Pc → Prop
  | .idle => m.eventGenerated = true ∧ (m.currentState = .ST_SCAN ∨
      m.currentState = .ST_MANUAL ∧ ∃ n, m.pEventData = some (.number n))
  | .scan | .crashed _ => True
  | _ => False

/-- In silence `ST_Hold` waits on the entry, and once it has decided to scan, it does
not run again. -/
def Rests (p : Option EntryPtr) (e : Entry) (t₀ : Int) (w : World) : Prop :=
  WaitsAt w.sm.toStateMachine w.pc ∧ Waits p e t₀ w.sm ∨ ScansAt w.sm.toStateMachine w.pc

/-- The decision of an `ST_Hold` that waits. -/
theorem Waits.decision (h : Waits p e t₀ w.sm) {now : Int} {next : Option States}
    (hd : w.sm.data.holdDecision false w.sm.externalHold w.sm.evtSrcExternal now = .ok next) :
    next = some (if e.delayMS ≠ 0 ∧ wrap 32 (now - t₀) < e.delayMS then .ST_HOLD
      else .ST_SCAN) := by
  rw [h.internalHold, h.internal, ThreadData.holdDecision_delay h.entry h.free,
    ThreadData.elapsed, h.since] at hd
  exact (Except.ok.inj hd).symm

theorem Due.unique {a b : States} (h : w.Due a) (h' : w.Due b) : a = b :=
  h.2.2.symm.trans h'.2.2

/-- What is due where the thread waits is `ST_Hold`. -/
theorem eq_hold_of_waitsAt {a : States} (h : WaitsAt w.sm.toStateMachine w.pc)
    (hdue : w.Due a) : a = .ST_HOLD := by
  rw [hdue.1] at h
  exact hdue.2.2.symm.trans h.2

theorem WaitsAt.at_pc {m : StateMachine} {pc : Pc} (h : WaitsAt m w.pc) (hpc : w.pc = pc) :
    WaitsAt m pc := hpc ▸ h

theorem ScansAt.at_pc {m : StateMachine} {pc : Pc} (h : ScansAt m w.pc) (hpc : w.pc = pc) :
    ScansAt m pc := hpc ▸ h

theorem WaitsAt.step (h : WaitsAt w.sm.toStateMachine w.pc) (hw : Waits p e t₀ w.sm)
    (hl : l.Silent) (hs : Step w l w') : Rests p e t₀ w' := by
  cases moves_of_step hs with
  | begin => exact .inl ⟨h, hw⟩
  | storeFlag => cases hl
  | storeIndex => exact .inl ⟨h, hw.keeps (.refl _) rfl rfl rfl⟩
  | lookup => exact .inl ⟨h, hw⟩
  | ignore => exact .inl ⟨h, hw⟩
  | commit => cases hl
  | hold hdue hno => exact .inl ⟨trivial, hw.keeps (.refl _) rfl rfl rfl⟩
  | holdIndex hdue hflag => exact absurd (hw.internalHold.symm.trans hflag) (by decide)
  | @holdEntry r update found d hpc hd =>
    obtain ⟨hk, ht⟩ := ThreadData.holdEntry_onChannel hd hw.onChannel
    cases found with
    | false => exact .inl ⟨rfl, hw.keeps hk ht rfl rfl⟩
    | true =>
      have hsignal : r.signal = true := (ThreadData.holdEntry_found hd).2
      exact absurd (hl.symm.trans hsignal) (by decide)
  | @holdDecision r found next hpc hd =>
    obtain rfl : found = false := h.at_pc hpc
    obtain rfl := hw.decision hd
    refine .inl ⟨?_, hw⟩
    show some _ = some _ ∨ some _ = some _
    split
    · exact .inl rfl
    · exact .inr rfl
  | @holdEvent r next hpc =>
    rcases h.at_pc hpc with h | h
    · cases h
      exact .inl ⟨⟨rfl, rfl⟩, hw.current, hw.entry, hw.real, hw.free, hw.since, hw.internalHold,
        rfl⟩
    · cases h
      exact .inr ⟨rfl, .inl rfl⟩
  | crash => exact .inr trivial
  | load hdue => cases eq_hold_of_waitsAt h hdue
  | scanEmpty hdue => cases eq_hold_of_waitsAt h hdue
  | scan hdue => cases eq_hold_of_waitsAt h hdue
  | receive hdue => cases eq_hold_of_waitsAt h hdue
  | manual hdue => cases eq_hold_of_waitsAt h hdue
  | saveAll hdue => cases eq_hold_of_waitsAt h hdue
  | stopped hdue => cases eq_hold_of_waitsAt h hdue
  | holdQuiet hpc => rcases h.at_pc hpc with h | h <;> cases h
  | scanEnd hpc => exact (h.at_pc hpc).elim
  | receiveEnd hpc => exact (h.at_pc hpc).elim
  | manualEnd hpc => exact (h.at_pc hpc).elim
  | saveAllEnd hpc => exact (h.at_pc hpc).elim

/-- What is due where the thread scans. -/
theorem due_of_scansAt {a : States} (h : ScansAt w.sm.toStateMachine w.pc) (hdue : w.Due a) :
    a = .ST_SCAN ∨ a = .ST_MANUAL ∧ ∃ n, w.sm.pEventData = some (.number n) := by
  rw [hdue.1] at h
  rw [← hdue.2.2]
  exact h.2

theorem ScansAt.step (h : ScansAt w.sm.toStateMachine w.pc) (hl : l.Silent)
    (hs : Step w l w') : ScansAt w'.sm.toStateMachine w'.pc := by
  cases moves_of_step hs with
  | begin => exact h
  | storeFlag => cases hl
  | storeIndex => exact h
  | lookup => exact h
  | ignore => exact h
  | commit => cases hl
  | scanEmpty => exact ⟨rfl, .inr ⟨rfl, _, rfl⟩⟩
  | scan => trivial
  | @scanEnd r next d hpc hd =>
    refine ⟨rfl, .inl ?_⟩
    obtain ⟨p, -, -, ⟨⟨-, hsignal⟩, -⟩ | ⟨-, -, hnext⟩⟩ := ThreadData.scanEntry_hit hd
    · exact absurd (hl.symm.trans hsignal) (by decide)
    · exact hnext
  | manual hdue hdata =>
    rcases due_of_scansAt h hdue with h | ⟨-, n, hn⟩
    · cases h
    · cases hdata.symm.trans hn
  | crash => trivial
  | load hdue => rcases due_of_scansAt h hdue with h | ⟨h, -⟩ <;> cases h
  | holdIndex hdue => rcases due_of_scansAt h hdue with h | ⟨h, -⟩ <;> cases h
  | hold hdue => rcases due_of_scansAt h hdue with h | ⟨h, -⟩ <;> cases h
  | receive hdue => rcases due_of_scansAt h hdue with h | ⟨h, -⟩ <;> cases h
  | saveAll hdue => rcases due_of_scansAt h hdue with h | ⟨h, -⟩ <;> cases h
  | stopped hdue => rcases due_of_scansAt h hdue with h | ⟨h, -⟩ <;> cases h
  | holdEntry hpc => exact (h.at_pc hpc).elim
  | holdDecision hpc => exact (h.at_pc hpc).elim
  | holdEvent hpc => exact (h.at_pc hpc).elim
  | holdQuiet hpc => exact (h.at_pc hpc).elim
  | receiveEnd hpc => exact (h.at_pc hpc).elim
  | manualEnd hpc => exact (h.at_pc hpc).elim
  | saveAllEnd hpc => exact (h.at_pc hpc).elim

theorem Rests.step (h : Rests p e t₀ w) (hl : l.Silent) (hs : Step w l w') :
    Rests p e t₀ w' := by
  rcases h with ⟨hat, hw⟩ | h
  · exact hat.step hw hl hs
  · exact .inr (h.step hl hs)

/-! ## The delay -/

/-- In a run from `s₀`, `ST_Receive` loses the signal of `e`, which is not locked out, at
the reading `t₀`, with no external hold. -/
def LosesSignal (s₀ : World) (e : Entry) (t₀ : Int) (lost : World) : Prop :=
  ∃ ls w r, Run Step s₀ ls w ∧ w.pc = .receive ∧ w.sm.externalHold = false ∧
    w.sm.data.entry = .ok e ∧ e.isLockedOut = false ∧ r.now = t₀ ∧ Step w (.resume r) lost ∧
    lost.Due .ST_HOLD

/-- After the loss, in silence, an `ST_Hold` reads the clock at `t`, and ends in `w'`. -/
def HoldsUntil (lost : World) (t : Int) (w' : World) : Prop :=
  ∃ ls w found r between r', Run Step lost ls w ∧ (∀ l ∈ ls, l.Silent) ∧
    w.pc = .holdDecision found ∧ r.now = t ∧
    Run Step w (.resume r :: (between ++ [.resume r'])) w' ∧
    ∀ l ∈ between, l.Silent ∧ l.client.isSome = true

/-- The `ST_Hold` has stayed on the entry, and holds on just before the delay is over. -/
def HonoursDelay (lost : World) (e : Entry) (t₀ t : Int) (w' : World) : Prop :=
  w'.sm.data.currentEntry = lost.sm.data.currentEntry ∧
    w'.Due (if t - t₀ < e.delayMS then .ST_HOLD else .ST_SCAN)

/-- From the loss of a signal on, the thread waits. -/
theorem LosesSignal.waits {file : SystemsFile} {demod : Demodulator} {lost : World}
    (h : LosesSignal (start file demod) e t₀ lost) :
    WaitsAt lost.sm.toStateMachine lost.pc ∧
      Waits lost.sm.data.currentEntry e t₀ lost.sm := by
  obtain ⟨ls, w, r, hrun, hpc, hflag, he, hfree, hnow, hs, hdue⟩ := h
  have hreal := ((receives_run hrun).receive hpc).forall e he
  have hat : WaitsAt lost.sm.toStateMachine lost.pc := by
    rw [hdue.1]
    exact hdue.2
  refine ⟨hat, ?_⟩
  cases moves_of_step hs with
  | @receiveEnd _ next d _ hd =>
    obtain rfl : next = .ST_HOLD := hdue.2.2
    obtain ⟨hk, ht⟩ := ThreadData.receiveEntry_hold hd
    exact ⟨rfl, hk.entry.trans he, hreal, hfree, ht.trans hnow, hflag, rfl⟩
  | crash => cases hdue.1
  | scanEnd hp => cases hpc.symm.trans hp
  | holdEntry hp => cases hpc.symm.trans hp
  | holdDecision hp => cases hpc.symm.trans hp
  | holdEvent hp => cases hpc.symm.trans hp
  | holdQuiet hp => cases hpc.symm.trans hp
  | manualEnd hp => cases hpc.symm.trans hp
  | saveAllEnd hp => cases hpc.symm.trans hp

/-- Steps of clients, other than a commit, leave the thread and its data alone. -/
theorem client_silent (h : Run Step w ls w') (hls : ∀ l ∈ ls, l.Silent ∧ l.client.isSome = true) :
    w'.pc = w.pc ∧ w'.sm.data = w.sm.data := by
  refine h.invariant_on (I := fun v => v.pc = w.pc ∧ v.sm.data = w.sm.data) ?_ hls ⟨rfl, rfl⟩
  rintro s l t ⟨hsilent, hclient⟩ ⟨hpc, hdata⟩ hs
  cases moves_of_step hs with
  | begin => exact ⟨hpc, hdata⟩
  | storeIndex => exact ⟨hpc, hdata⟩
  | lookup => exact ⟨hpc, hdata⟩
  | ignore => exact ⟨hpc, hdata⟩
  | storeFlag => cases hsilent
  | commit => cases hsilent
  | crash hfault => rcases hfault with ⟨a, rfl, -⟩ | ⟨r, rfl, -⟩ <;> cases hclient
  | _ => cases hclient

/-- Where an `ST_Hold` waits with its decision, it raises it. -/
theorem due_of_holdEvent {next : States} {r : ScannerSM.Reading} {between : List Label}
    (hpc : w.pc = .holdEvent (some next))
    (h : Run Step w (between ++ [.resume r]) w')
    (hbetween : ∀ l ∈ between, l.Silent ∧ l.client.isSome = true) :
    w'.Due next ∧ w'.sm.data = w.sm.data := by
  obtain ⟨v, hv, hlast⟩ := h.split between
  obtain ⟨hvpc, hdata⟩ := client_silent hv hbetween
  rw [hpc] at hvpc
  cases hlast with
  | cons hs hnil =>
    cases hnil
    have hp := perform_of_step hs
    simp only [perform, hvpc] at hp
    obtain rfl := Option.some.inj hp
    exact ⟨⟨rfl, rfl, rfl⟩, hdata⟩

theorem due_ite_iff {a b : Prop} [Decidable a] [Decidable b]
    (h : w.Due (if a then .ST_HOLD else .ST_SCAN)) :
    w.Due (if b then .ST_HOLD else .ST_SCAN) ↔ (a ↔ b) := by
  by_cases ha : a
  · rw [if_pos ha] at h
    by_cases hb : b
    · simp [ha, hb, h]
    · rw [if_neg hb, iff_false_right hb]
      exact iff_of_false (fun h' => by cases h.unique h') (not_not.mpr ha)
  · rw [if_neg ha] at h
    by_cases hb : b
    · rw [if_pos hb, iff_true_right hb]
      exact iff_of_false (fun h' => by cases h.unique h') ha
    · simp [ha, hb, h]

/-- **The resume delay** is honoured by every `ST_Hold` after the loss of a signal, just
where the narrowed time compares with the delay as the time does. -/
theorem honoursDelay_iff {file : SystemsFile} {demod : Demodulator} {lost : World} {t : Int}
    (hlost : LosesSignal (start file demod) e t₀ lost) (hold : HoldsUntil lost t w')
    (hdelay : 0 ≤ e.delayMS) (ht : t₀ ≤ t) :
    HonoursDelay lost e t₀ t w' ↔ Reckoned e.delayMS (t - t₀) := by
  obtain ⟨ls, w, found, r, between, r', hrun, hsilent, hpc, rfl, hend, hbetween⟩ := hold
  have hrests : Rests lost.sm.data.currentEntry e t₀ w :=
    hrun.invariant_on (P := Label.Silent) (fun s l t hl hr hs => hr.step hl hs) hsilent
      (.inl hlost.waits)
  have hwaits : WaitsAt w.sm.toStateMachine w.pc ∧ Waits lost.sm.data.currentEntry e t₀ w.sm :=
    hrests.resolve_right fun h => h.at_pc hpc
  obtain ⟨hat, hw⟩ := hwaits
  obtain rfl : found = false := hat.at_pc hpc
  rw [reckoned_iff hdelay (Int.sub_nonneg_of_le ht)]
  cases hend with
  | cons hs hrest =>
    cases moves_of_step hs with
    | @holdDecision _ found next hp hd =>
      cases hpc.symm.trans hp
      obtain rfl := hw.decision hd
      obtain ⟨hdue, hdata⟩ := due_of_holdEvent rfl hrest hbetween
      have hsame : w'.sm.data.currentEntry = lost.sm.data.currentEntry := by
        rw [hdata]
        exact hw.current
      exact (and_iff_right hsame).trans (due_ite_iff hdue)
    | crash =>
      obtain ⟨v, hv, hlast⟩ := hrest.split between
      obtain ⟨hvpc, -⟩ := client_silent hv hbetween
      cases hlast with
      | cons hs' _ => exact absurd hs' (not_step_crashed hvpc)
    | scanEnd hp => cases hpc.symm.trans hp
    | holdEntry hp => cases hpc.symm.trans hp
    | holdEvent hp => cases hpc.symm.trans hp
    | holdQuiet hp => cases hpc.symm.trans hp
    | receiveEnd hp => cases hpc.symm.trans hp
    | manualEnd hp => cases hpc.symm.trans hp
    | saveAllEnd hp => cases hpc.symm.trans hp

end World

/-! ## A delay that ends, and one that goes on -/

/-- A transmission on the channel, which has a delay of two seconds, up to the point before
it is lost. -/
def received : List Label :=
  scanStarted ++ (List.replicate SQUELCH_TRIGGER_HITS World.scanHit).flatten ++
    [.activate .ST_RECEIVE]

namespace World

/-- The transmission is lost at 10 seconds. -/
def transmissionLost : World :=
  ((start oneChannelFile tunedDemod).after received).after [.resume (silence 10000)]

/-- An `ST_Hold` after the loss, up to its decision. -/
def undecided : World := transmissionLost.after [.activate .ST_HOLD, .resume (silence 10000)]

/-- The end of that `ST_Hold`, which reads the clock at `t`. -/
def heldUntil (t : Int) : World := undecided.after [.resume (silence t), .resume (silence t)]

theorem losesSignal_transmission :
    ∃ e, LosesSignal (start oneChannelFile tunedDemod) e 10000 transmissionLost ∧
      e.delayMS = 2000 := by
  have hentry : (((start oneChannelFile tunedDemod).after received).sm.data.entry.toOption.any
      fun e => !e.isLockedOut && e.delayMS == 2000) = true := by decide +kernel
  obtain ⟨e, he, hboth⟩ := (Option.any_eq_true _ _).mp hentry
  rw [Bool.and_eq_true, Bool.not_eq_true', beq_iff_eq] at hboth
  refine ⟨e, ⟨received, _, silence 10000, run_after (by decide +kernel), by decide +kernel,
    by decide +kernel, ?_, hboth.1, rfl, step_after (by decide +kernel), by decide +kernel⟩,
    hboth.2⟩
  cases hd : ((start oneChannelFile tunedDemod).after received).sm.data.entry with
  | error f =>
    rw [hd] at he
    cases he
  | ok e' =>
    rw [hd] at he
    rw [Option.some.inj he]

/-- The clock is read within the first 24 days, or after them. -/
theorem holdsUntil_transmission {t : Int}
    (h : (exec (fun _ _ => True) [.resume (silence t), .resume (silence t)] undecided).isSome) :
    transmissionLost.HoldsUntil t (heldUntil t) :=
  ⟨[.activate .ST_HOLD, .resume (silence 10000)], undecided, false, silence t, [], silence t,
    run_after (by decide +kernel), by simp [Label.Silent, silence], by decide +kernel, rfl,
    run_after h, by simp⟩

/-- After two seconds the scan goes on. -/
theorem honoursDelay_transmission :
    ∃ e, HonoursDelay transmissionLost e 10000 12000 (heldUntil 12000) := by
  obtain ⟨e, hlost, hdelay⟩ := losesSignal_transmission
  refine ⟨e, (honoursDelay_iff hlost (holdsUntil_transmission (by decide +kernel)) ?_ ?_).mpr ?_⟩
  · rw [hdelay]
    decide
  · decide
  · exact reckoned_of_lt (by decide) (by decide)

/-- After `2 ^ 31` milliseconds it does not. -/
theorem not_honoursDelay_transmission :
    ∃ e t w', LosesSignal (start oneChannelFile tunedDemod) e 10000 transmissionLost ∧
      transmissionLost.HoldsUntil t w' ∧ 0 ≤ e.delayMS ∧ 10000 ≤ t ∧
        ¬HonoursDelay transmissionLost e 10000 t w' := by
  obtain ⟨e, hlost, hdelay⟩ := losesSignal_transmission
  refine ⟨e, 10000 + 2 ^ 31, _, hlost, holdsUntil_transmission (by decide +kernel), ?_, by decide,
    fun h => ?_⟩
  · rw [hdelay]
    decide
  · have hdue := h.2
    rw [hdelay] at hdue
    exact absurd hdue (by decide +kernel)

end World

end PiScan.Machine

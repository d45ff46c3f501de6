import PiScan.Machine.Atomic

/-!
# What the context says

A context is sent when a handler runs in a new state, or takes an index.  It is
up to date if sending it again would make no difference (`Shown`).

* `scanEntry_shown`, `holdEntry_shown`, `enterState_shown`: a handler that sends
  its context leaves it up to date, and one that does not must have found it so;
* `InContext.step`: in an atomic run, that is what happens;
* `inContext_run`: so after every `ST_Scan`, `ST_Hold` and `ST_Receive` the last
  context is that of its state, if the database has a system.
-/

namespace PiScan.Machine

open Scan Sigproc Runs

/-- The state that a handler puts into the context. -/
def States.context? : States → Option ContextState
  | .ST_SCAN => some .SCAN
  | .ST_HOLD => some .HOLD
  | .ST_RECEIVE => some .RECEIVE
  | _ => none

namespace ThreadData

variable {d d' : ThreadData} {X : ContextState}

/-! ## What the parts of a handler change -/

theorem enableAudioOut_spec {en : Bool} (h : d.enableAudioOut en = .ok d') :
    ∃ demod, d' = { d with demod } := by
  simp only [enableAudioOut, bind_eq_ok, pure_eq_ok] at h
  obtain ⟨demod, -, rfl⟩ := h
  exact ⟨demod, rfl⟩

theorem entrySignal_spec {signal found : Bool} (h : d.entrySignal signal = .ok (found, d')) :
    ∃ demod, d' = { d with demod } := by
  simp only [entrySignal, bind_eq_ok, pure_eq_ok, Prod.exists, Prod.mk.injEq] at h
  obtain ⟨e, -, found', demod, -, -, rfl⟩ := h
  exact ⟨demod, rfl⟩

theorem nextEntry_spec (h : d.nextEntry = .ok d') :
    ∃ systems currentEntry, d' = { d with systems, currentEntry } := by
  simp only [nextEntry, bind_eq_ok, pure_eq_ok, Prod.exists] at h
  obtain ⟨p, systems, -, rfl⟩ := h
  exact ⟨systems, some p, rfl⟩

theorem broadcastContextUpdate_spec (h : d.broadcastContextUpdate = .ok d') :
    ∃ ctx, d.newContext = .ok ctx ∧ d' = { d with currentContext := ctx, sent := d.sent ++ [ctx] } := by
  simp only [broadcastContextUpdate, bind_eq_ok, pure_eq_ok] at h
  obtain ⟨ctx, hctx, rfl⟩ := h
  exact ⟨ctx, hctx, rfl⟩

/-! ## A context that is up to date -/

/-- The tags are those of the manual entry, or of the entry and its system. -/
def TagsOf (d : ThreadData) (e : Entry) (ctx : ScannerContext) : Prop :=
  if d.manualMode then
    ctx.systemTag = "Manual" ∧ ctx.entryTag = "Manual entry" ∧ ctx.entryIndex = "MAN"
  else
    ∃ s, d.systems.systems[e.sysIndex]? = some s ∧ ctx.systemTag = s.tag ∧ ctx.entryTag = e.tag ∧
      ctx.entryIndex = toString e.sysIndex ++ "-" ++ toString e.entryIndex

/-- What the context says of the current entry. -/
structure Tells (d : ThreadData) (ctx : ScannerContext) (e : Entry) : Prop where
  entry : d.entry = .ok e
  tags : d.TagsOf e ctx
  frequency : ctx.frequency = e.freq
  modulation : ctx.modulation = e.modulation
  delayMS : ctx.delayMS = e.delayMS
  lockout : ctx.lockout = e.isLockedOut

/-- Sending the context of the state `X` again would make no difference; a hold is
not on a dummy. -/
structure Shown (X : ContextState) (d : ThreadData) : Prop where
  state : d.currentContext.state = X
  tells : X ≠ .SCAN → ∃ e, d.Tells d.currentContext e
  sent : d.sent.getLast? = some d.currentContext
  real : X = .HOLD → ∀ e, d.entry = .ok e → e.isDummy = false

theorem Tells.congr {ctx : ScannerContext} {e : Entry} (h : d.Tells ctx e)
    (hs : d'.systems.systems = d.systems.systems) (hc : d'.currentEntry = d.currentEntry)
    (hm : d'.manualMode = d.manualMode) : d'.Tells ctx e := by
  have hderef : d'.systems.deref = d.systems.deref := by
    funext p
    cases p <;> simp [SystemList.deref, hs]
  refine ⟨?_, ?_, h.frequency, h.modulation, h.delayMS, h.lockout⟩
  · rw [← h.entry]
    simp only [ThreadData.entry, hc, hderef]
  · have ht := h.tags
    unfold TagsOf at ht ⊢
    rwa [hm, hs]

theorem Shown.congr (h : d.Shown X) (hs : d'.systems.systems = d.systems.systems)
    (hc : X ≠ .SCAN → d'.currentEntry = d.currentEntry)
    (hm : X ≠ .SCAN → d'.manualMode = d.manualMode)
    (hctx : d'.currentContext = d.currentContext) (hsent : d'.sent = d.sent) : d'.Shown X := by
  have hderef : d'.systems.deref = d.systems.deref := by
    funext p
    cases p <;> simp [SystemList.deref, hs]
  refine ⟨hctx ▸ h.state, fun hX => ?_, by rw [hsent, hctx, h.sent], fun hX e he => ?_⟩
  · obtain ⟨e, he⟩ := h.tells hX
    rw [hctx]
    exact ⟨e, he.congr hs (hc hX) (hm hX)⟩
  · refine h.real hX e ?_
    have hne : X ≠ .SCAN := by
      rw [hX]
      rintro ⟨⟩
    rw [← he]
    simp only [ThreadData.entry, hc hne, hderef]

/-- **A context that has just been sent** is up to date. -/
theorem broadcastContextUpdate_shown (h : d.broadcastContextUpdate = .ok d')
    (hstate : d.currentContext.state = X)
    (hreal : X = .HOLD → ∀ e, d.entry = .ok e → e.isDummy = false) : d'.Shown X := by
  obtain ⟨ctx, hctx, rfl⟩ := broadcastContextUpdate_spec h
  unfold newContext at hctx
  by_cases hscan : d.currentContext.state = .SCAN
  · rw [if_pos hscan] at hctx
    obtain rfl := Except.ok.inj hctx
    exact ⟨hstate, fun hX => absurd (hstate.symm.trans hscan) hX, by simp, hreal⟩
  · rw [if_neg hscan] at hctx
    simp only [bind_eq_ok, pure_eq_ok] at hctx
    obtain ⟨e, he, tagged, ht, rfl⟩ := hctx
    have hst : tagged.state = d.currentContext.state ∧ d.TagsOf e tagged := by
      unfold entryTags at ht
      unfold TagsOf
      split at ht
      · next hm =>
        obtain rfl := Except.ok.inj ht
        rw [if_pos hm]
        exact ⟨rfl, rfl, rfl, rfl⟩
      · next hm =>
        rw [if_neg hm]
        split at ht
        · cases ht
        · next s hs =>
          obtain rfl := Except.ok.inj ht
          exact ⟨rfl, s, hs, rfl, rfl, rfl⟩
    exact ⟨hst.1.trans hstate, fun _ => ⟨e, he, hst.2, rfl, rfl, rfl, rfl⟩, by simp, hreal⟩

/-- **Entering a state** leaves its context up to date. -/
theorem enterState_shown {audio update : Bool} (h : d.enterState audio X update = .ok d')
    (hquiet : update = false → d.Shown X)
    (hreal : X = .HOLD → ∀ e, d.entry = .ok e → e.isDummy = false) : d'.Shown X := by
  simp only [enterState, bind_eq_ok] at h
  obtain ⟨d₁, h₁, h₂⟩ := h
  obtain ⟨demod, rfl⟩ := enableAudioOut_spec h₁
  cases update with
  | false =>
    obtain rfl := Except.ok.inj h₂
    have hshown := hquiet rfl
    have hctx : ({ d.currentContext with state := X } : ScannerContext) = d.currentContext := by
      rw [← hshown.state]
    exact hshown.congr rfl (fun _ => rfl) (fun _ => rfl) hctx rfl
  | true => exact broadcastContextUpdate_shown h₂ rfl hreal

theorem entrySignal_shown {signal found : Bool} (h : d.entrySignal signal = .ok (found, d'))
    (hshown : d.Shown X) : d'.Shown X := by
  obtain ⟨demod, rfl⟩ := entrySignal_spec h
  exact hshown.congr rfl (fun _ => rfl) (fun _ => rfl) rfl rfl

/-- `ST_Scan`, with a context that is up to date unless the state is new. -/
theorem scanEntry_shown {changed signal : Bool} {next : States}
    (h : d.scanEntry changed signal = .ok (next, d')) (hstate : d.currentContext.state = .SCAN)
    (hquiet : changed = false → d.Shown .SCAN) : d'.Shown .SCAN := by
  simp only [scanEntry, bind_eq_ok, Prod.exists] at h
  obtain ⟨d₁, h₁, d₂, h₂, found, d₃, h₃, h₄⟩ := h
  have hs₁ : d₁.Shown .SCAN := by
    cases changed with
    | true => exact broadcastContextUpdate_shown h₁ hstate (by rintro ⟨⟩)
    | false =>
      obtain rfl := Except.ok.inj h₁
      exact hquiet rfl
  have hs₂ : d₂.Shown .SCAN := by
    unfold onlyIf at h₂
    split at h₂
    · have hsame := (nextEntry_scans h₂).1.entries.systems
      obtain ⟨systems, currentEntry, rfl⟩ := nextEntry_spec h₂
      exact hs₁.congr hsame (fun hX => absurd rfl hX) (fun _ => rfl) rfl rfl
    · obtain rfl := Except.ok.inj h₂
      exact hs₁
  have hs₃ := entrySignal_shown h₃ hs₂
  split at h₄
  · obtain ⟨-, rfl⟩ := Prod.mk.inj (Except.ok.inj h₄)
    exact hs₃.congr rfl (fun _ => rfl) (fun _ => rfl) rfl rfl
  · obtain ⟨-, rfl⟩ := Prod.mk.inj (Except.ok.inj h₄)
    exact hs₃.congr rfl (fun _ => rfl) (fun _ => rfl) rfl rfl

/-- A hold that is on no dummy skips nothing. -/
theorem skipDummies_real {fuel : Nat} (h : skipDummies fuel d = .ok d')
    (hreal : ∀ e, d.entry = .ok e → e.isDummy = false) : d' = d := by
  cases fuel with
  | zero => cases h
  | succ fuel =>
    simp only [skipDummies, bind_eq_ok] at h
    obtain ⟨e, he, h⟩ := h
    rw [hreal e he] at h
    exact (Except.ok.inj h).symm

/-- `ST_Hold`, with a context that is up to date unless it is sent. -/
theorem holdEntry_shown {update signal found : Bool}
    (h : d.holdEntry update signal = .ok (found, d')) (hquiet : update = false → d.Shown .HOLD) :
    d'.Shown .HOLD := by
  simp only [holdEntry, bind_eq_ok] at h
  obtain ⟨d₁, h₁, d₂, h₂, h₃⟩ := h
  have hreal : ∀ e, d₁.entry = .ok e → e.isDummy = false := by
    obtain ⟨-, e, he, hd⟩ := skipDummies_scans h₁
    intro e' he'
    rw [he] at he'
    obtain rfl := Except.ok.inj he'
    exact hd
  have hs₂ : d₂.Shown .HOLD := by
    refine enterState_shown h₂ (fun hu => ?_) fun _ => hreal
    have hshown := hquiet hu
    rwa [skipDummies_real h₁ (hshown.real rfl)]
  exact entrySignal_shown h₃ hs₂

theorem receiveEntry_shown {signal : Bool} {now : Int} {next : States}
    (h : d.receiveEntry signal now = .ok (next, d')) (hshown : d.Shown .RECEIVE) :
    d'.Shown .RECEIVE := by
  simp only [receiveEntry, bind_eq_ok, Prod.exists] at h
  obtain ⟨found, d₁, h₁, h₂⟩ := h
  have hs₁ := entrySignal_shown h₁ hshown
  split at h₂
  · obtain ⟨-, rfl⟩ := Prod.mk.inj (Except.ok.inj h₂)
    exact hs₁
  · obtain ⟨-, rfl⟩ := Prod.mk.inj (Except.ok.inj h₂)
    exact hs₁.congr rfl (fun _ => rfl) (fun _ => rfl) rfl rfl

/-- `ST_Scan` up to its first access to the flag. -/
theorem scanStart_shown (h : d.scanStart = .ok d') :
    d'.currentContext.state = .SCAN ∧ (d.Shown .SCAN → d'.Shown .SCAN) := by
  simp only [scanStart, bind_eq_ok, pure_eq_ok] at h
  obtain ⟨d₁, h₁, rfl⟩ := h
  obtain ⟨demod, rfl⟩ := enableAudioOut_spec h₁
  refine ⟨rfl, fun hshown => hshown.congr rfl (fun _ => rfl) (fun hX => absurd rfl hX) ?_ rfl⟩
  rw [← hshown.state]

/-! ## What sends nothing -/

theorem enableAudioOut_sent {en : Bool} (h : d.enableAudioOut en = .ok d') : d'.sent = d.sent := by
  obtain ⟨demod, rfl⟩ := enableAudioOut_spec h
  rfl

theorem entrySignal_sent {signal found : Bool} (h : d.entrySignal signal = .ok (found, d')) :
    d'.sent = d.sent := by
  obtain ⟨demod, rfl⟩ := entrySignal_spec h
  rfl

theorem nextEntry_sent (h : d.nextEntry = .ok d') : d'.sent = d.sent := by
  obtain ⟨systems, currentEntry, rfl⟩ := nextEntry_spec h
  rfl

theorem skipDummies_sent {fuel : Nat} (h : skipDummies fuel d = .ok d') : d'.sent = d.sent := by
  refine (skipDummies_keeps (P := fun a => a.sent = d.sent) ?_ h rfl).1
  intro a b c found e _ _ h₁ h₂ hsent
  rw [nextEntry_sent h₂, entrySignal_sent h₁, hsent]

theorem receiveEntry_sent {signal : Bool} {now : Int} {next : States}
    (h : d.receiveEntry signal now = .ok (next, d')) : d'.sent = d.sent := by
  simp only [receiveEntry, bind_eq_ok, Prod.exists] at h
  obtain ⟨found, d₁, h₁, h₂⟩ := h
  rw [← entrySignal_sent h₁]
  split at h₂
  · obtain ⟨-, rfl⟩ := Prod.mk.inj (Except.ok.inj h₂)
    rfl
  · obtain ⟨-, rfl⟩ := Prod.mk.inj (Except.ok.inj h₂)
    rfl

end ThreadData

/-! ## Atomic runs -/

/-- The handler that the thread is in. -/
def Pc.handler : Pc → Option States
  | scan => some .ST_SCAN
  | hold _ | holdDecision _ | holdEvent _ => some .ST_HOLD
  | receive => some .ST_RECEIVE
  | manual => some .ST_MANUAL
  | saveAll => some .ST_SAVEALL
  | idle | ended | crashed _ => none

/-- A call changes the state, if the new one has a context. -/
theorem Call.transition_ne {call : Call} {s next : States} {X : ContextState}
    (h : call.transition s = some next) (hX : next.context? = some X) : next ≠ s := by
  intro he
  cases call <;> cases s <;> cases h <;> cases he <;> cases hX

namespace World

variable {w w' : World} {l : Label}

/-- Between two activations the context is that of the last one, unless that was an
`ST_Scan` without a system, and a handler that starts in its own last state finds it so. -/
structure InContext (pre : List Label) (w : World) : Prop where
  running : ∀ h, w.pc.handler = some h → (activations pre).getLast? = some h
  inside : ∀ h, w.pc.handler = some h →
    w.sm.currentState = h ∨ h = .ST_RECEIVE ∧ w.sm.currentState = .ST_SCAN
  pending : w.sm.eventGenerated = true → w.sm.stateChanged = false →
    ∀ X, w.sm.currentState.context? = some X → w.sm.data.Shown X
  done : w.pc = .idle → ∀ h X, (activations pre).getLast? = some h → h.context? = some X →
    (X = .SCAN → w.sm.data.systems.size ≠ 0) → w.sm.data.Shown X
  scan : w.pc = .scan → w.sm.data.currentContext.state = .SCAN ∧
    (w.sm.stateChanged = false → w.sm.data.Shown .SCAN)
  hold : w.pc = .hold false → w.sm.data.Shown .HOLD
  held : ∀ found next, w.pc = .holdDecision found ∨ w.pc = .holdEvent next → w.sm.data.Shown .HOLD
  receive : w.pc = .receive → w.sm.data.Shown .RECEIVE

theorem getLast?_activations_of_none {pre : List Label} (hl : l.activated = none) :
    (activations (pre ++ [l])).getLast? = (activations pre).getLast? := by
  rw [activations_concat_of_none pre hl]

/-- A step of a client.  A commit is no news for the state it leads to, but changes the
state. -/
theorem InContext.client {pre : List Label} (h : w.InContext pre) (hcalm : w.Calm)
    (hs : w.ByClient l w') : w'.InContext (pre ++ [l]) := by
  have hm : w'.sm.toStateMachine = w.sm.toStateMachine ∨ w.pc.handler = none ∧
      ∀ X, w'.sm.currentState.context? = some X → w'.sm.stateChanged = true := by
    refine hs.machine.imp_right ?_
    rintro ⟨hu, c, call, next, hc, hm⟩
    refine ⟨by rcases hu with hu | hu <;> rw [hu] <;> rfl, fun X hX => ?_⟩
    rw [hm] at hX ⊢
    have hne := Call.transition_ne (hcalm.looked c call (some next) hc).symm hX
    simpa [StateMachine.stateChanged, StateMachine.externalEvent, StateMachine.internalEvent]
      using hne
  refine ⟨?_, ?_, ?_, ?_, ?_, ?_, ?_, ?_⟩
  · rw [getLast?_activations_of_none hs.activated, hs.pc]
    exact h.running
  · rw [hs.pc]
    rcases hm with hm | ⟨hnone, -⟩
    · rw [hm]
      exact h.inside
    · exact fun a ha => absurd (hnone.symm.trans ha) (by rintro ⟨⟩)
  · rw [hs.data]
    rcases hm with hm | ⟨-, hchanged⟩
    · rw [hm]
      exact h.pending
    · exact fun _ hno X hX => absurd ((hchanged X hX).symm.trans hno) (by rintro ⟨⟩)
  · rw [getLast?_activations_of_none hs.activated, hs.pc, hs.data]
    exact h.done
  · rw [hs.pc, hs.data]
    rcases hm with hm | ⟨hnone, -⟩
    · rw [hm]
      exact h.scan
    · intro hscan
      rw [hscan] at hnone
      cases hnone
  · rw [hs.pc, hs.data]
    exact h.hold
  · rw [hs.pc, hs.data]
    exact h.held
  · rw [hs.pc, hs.data]
    exact h.receive

/-- What `InContext` adds at the point where the thread stands. -/
def AtPoint (pre : List Label) (sm : ScannerSM) : Pc → Prop
  | .idle => ∀ h X, (activations pre).getLast? = some h → h.context? = some X →
      (X = .SCAN → sm.data.systems.size ≠ 0) → sm.data.Shown X
  | .scan => sm.data.currentContext.state = .SCAN ∧
      (sm.stateChanged = false → sm.data.Shown .SCAN)
  | .hold false | .holdDecision _ | .holdEvent _ => sm.data.Shown .HOLD
  | .receive => sm.data.Shown .RECEIVE
  | _ => True

theorem inContext_of {pre : List Label} {pc : Pc} {sm : ScannerSM}
    (hrunning : ∀ h, pc.handler = some h → (activations pre).getLast? = some h)
    (hinside : ∀ h, pc.handler = some h →
      sm.currentState = h ∨ h = .ST_RECEIVE ∧ sm.currentState = .ST_SCAN)
    (hpending : sm.eventGenerated = true → sm.stateChanged = false →
      ∀ X, sm.currentState.context? = some X → sm.data.Shown X)
    (hat : AtPoint pre sm pc) : (w.go pc sm).InContext pre := by
  refine ⟨hrunning, hinside, hpending, ?_, ?_, ?_, ?_, ?_⟩
  · rintro rfl
    exact hat
  · rintro rfl
    exact hat
  · rintro rfl
    exact hat
  · rintro found next (rfl | rfl)
    · exact hat
    · exact hat
  · rintro rfl
    exact hat

/-- A handler that ends, with the state it raises. -/
theorem inContext_idle {pre : List Label} {sm : ScannerSM}
    (hpending : sm.eventGenerated = true → sm.stateChanged = false →
      ∀ X, sm.currentState.context? = some X → sm.data.Shown X)
    (hdone : AtPoint pre sm .idle) : (w.go .idle sm).InContext pre :=
  inContext_of (by rintro _ ⟨⟩) (by rintro _ ⟨⟩) hpending hdone

/-- What a handler raises is a change of state, unless it is its own state. -/
theorem stateChanged_raise {m : ScannerSM} {next : States}
    (h : (m.raise next).stateChanged = false) : next = m.currentState := by
  simpa [StateMachine.stateChanged, ScannerSM.raise, StateMachine.internalEvent,
    StateMachine.endHandler] using h

/-- A handler that starts. -/
theorem InContext.starts {pre : List Label} {a : States} (h : w.InContext pre)
    (hs : Moves w (.activate a) w') : w'.InContext (pre ++ [.activate a]) := by
  have hlast : (activations (pre ++ [.activate a])).getLast? = some a := by
    simp [activations_append, Label.activated]
  have hrunning : ∀ b, some a = some b →
      (activations (pre ++ [.activate a])).getLast? = some b := by
    rintro b ⟨⟩
    exact hlast
  have hinside : w.Due a → ∀ b, some a = some b →
      w.sm.currentState = b ∨ b = .ST_RECEIVE ∧ w.sm.currentState = .ST_SCAN := by
    rintro hdue b ⟨⟩
    exact .inl hdue.2.2
  cases hs with
  | load hdue hd =>
    refine inContext_idle (by rintro ⟨⟩) fun a X ha hX _ => ?_
    obtain rfl := Option.some.inj ((hlast).symm.trans ha)
    cases hX
  | scanEmpty hdue hempty =>
    refine inContext_idle (fun _ _ X hX => absurd hX (by rintro ⟨⟩)) fun a X ha hX hsize => ?_
    obtain rfl := Option.some.inj ((hlast).symm.trans ha)
    obtain rfl := Option.some.inj hX
    exact absurd hempty (hsize rfl)
  | scan hdue hsome hd =>
    obtain ⟨hstate, hshown⟩ := ThreadData.scanStart_shown hd
    refine inContext_of hrunning (hinside hdue) (by rintro ⟨⟩) ⟨hstate, fun hno => ?_⟩
    have hscan := h.pending hdue.2.1 hno .SCAN (by rw [hdue.2.2]; rfl)
    exact hshown (hscan.congr rfl (fun _ => rfl) (fun _ => rfl) rfl rfl)
  | holdIndex hdue hflag hindex hd =>
    exact inContext_of hrunning (hinside hdue) (by rintro ⟨⟩) trivial
  | hold hdue hno =>
    refine inContext_of hrunning (hinside hdue) (by rintro ⟨⟩) ?_
    cases hno : w.sm.stateChanged with
    | false => exact h.pending hdue.2.1 hno .HOLD (by rw [hdue.2.2]; rfl)
    | true => trivial
  | @receive e d hdue he hd =>
    have hrec := hdue.2.2
    have hshown : d.Shown .RECEIVE := by
      refine ThreadData.enterState_shown hd (fun hno => ?_) (by rintro ⟨⟩)
      cases hlock : e.isLockedOut with
      | false =>
        rw [hlock] at hno
        exact h.pending hdue.2.1 hno .RECEIVE (by rw [hrec]; rfl)
      | true =>
        simp [hlock, ScannerSM.raiseIfLocked, ScannerSM.take, StateMachine.stateChanged,
          StateMachine.internalEvent, hrec] at hno
    refine inContext_of hrunning (fun b hb => ?_) (fun hg hno X hX => ?_) hshown
    · obtain rfl := Option.some.inj hb
      cases hlock : e.isLockedOut <;>
        simp [ScannerSM.raiseIfLocked, ScannerSM.take, StateMachine.internalEvent, hrec]
    · revert hg hno
      cases hlock : e.isLockedOut <;>
        simp [ScannerSM.raiseIfLocked, ScannerSM.take, StateMachine.stateChanged,
          StateMachine.internalEvent, hrec]
  | manual hdue hdata =>
    exact inContext_of hrunning (hinside hdue) (by rintro ⟨⟩) trivial
  | saveAll hdue hd =>
    exact inContext_of hrunning (hinside hdue) (by rintro ⟨⟩) trivial
  | stopped hdue =>
    exact inContext_of (by rintro _ ⟨⟩) (by rintro _ ⟨⟩) (by rintro ⟨⟩) trivial
  | crash hfault =>
    exact inContext_of (by rintro _ ⟨⟩) (by rintro _ ⟨⟩) h.pending trivial

/-- The last activation is that of the handler that goes on. -/
theorem InContext.last {pre : List Label} (h : w.InContext pre) (r : ScannerSM.Reading)
    {a : States} (ha : w.pc.handler = some a) :
    (activations (pre ++ [.resume r])).getLast? = some a := by
  rw [getLast?_activations_of_none rfl]
  exact h.running a ha

/-- What a handler leaves that ends on a shown context. -/
theorem InContext.ended {pre : List Label} (h : w.InContext pre) (r : ScannerSM.Reading)
    {a : States} {sm : ScannerSM} (ha : w.pc.handler = some a)
    (hshown : ∀ X, a.context? = some X → sm.data.Shown X) :
    AtPoint (pre ++ [.resume r]) sm .idle := by
  intro b X hb hX _
  obtain rfl := Option.some.inj ((h.last r ha).symm.trans hb)
  exact hshown X hX

/-- A handler that goes on. -/
theorem InContext.goes_on {pre : List Label} {r : ScannerSM.Reading} (h : w.InContext pre)
    (hs : Moves w (.resume r) w') : w'.InContext (pre ++ [.resume r]) := by
  cases hs with
  | @scanEnd r next d hpc hd =>
    have hin : w.pc.handler = some .ST_SCAN := by rw [hpc]; rfl
    obtain ⟨hstate, hquiet⟩ := h.scan hpc
    have hshown : ∀ X, States.ST_SCAN.context? = some X → d.Shown X := fun X hX => by
      cases hX
      exact ThreadData.scanEntry_shown hd hstate hquiet
    refine inContext_idle (fun _ hno X hX => ?_) (h.ended _ hin hshown)
    obtain rfl : next = .ST_SCAN :=
      (stateChanged_raise hno).trans ((h.inside _ hin).resolve_right (by rintro ⟨⟨⟩, -⟩))
    exact hshown X hX
  | @holdEntry r update found d hpc hd =>
    have hin : w.pc.handler = some .ST_HOLD := by rw [hpc]; rfl
    have hshown : d.Shown .HOLD := by
      refine ThreadData.holdEntry_shown hd fun hu => h.hold ?_
      rw [hpc, hu]
    refine inContext_of (fun b hb => ?_) (fun b hb => ?_) (fun hg hno X hX => ?_) hshown
    · obtain rfl := Option.some.inj hb
      exact h.last _ hin
    · obtain rfl := Option.some.inj hb
      exact h.inside _ hin
    · have hcur := (h.inside _ hin).resolve_right (by rintro ⟨⟨⟩, -⟩)
      change w.sm.currentState.context? = some X at hX
      rw [hcur] at hX
      cases hX
      exact hshown
  | @holdDecision r found next hpc hd =>
    have hin : w.pc.handler = some .ST_HOLD := by rw [hpc]; rfl
    have hshown := h.held found none (.inl hpc)
    refine inContext_of (fun b hb => ?_) (fun b hb => ?_) h.pending hshown
    · obtain rfl := Option.some.inj hb
      exact h.last _ hin
    · obtain rfl := Option.some.inj hb
      exact h.inside _ hin
  | @holdEvent r next hpc =>
    have hin : w.pc.handler = some .ST_HOLD := by rw [hpc]; rfl
    have hshown : ∀ X, States.ST_HOLD.context? = some X → w.sm.data.Shown X := fun X hX => by
      cases hX
      exact h.held false _ (.inr hpc)
    refine inContext_idle (fun _ hno X hX => ?_) (h.ended _ hin hshown)
    obtain rfl : next = .ST_HOLD :=
      (stateChanged_raise hno).trans ((h.inside _ hin).resolve_right (by rintro ⟨⟨⟩, -⟩))
    exact hshown X hX
  | @holdQuiet r hpc =>
    have hin : w.pc.handler = some .ST_HOLD := by rw [hpc]; rfl
    refine inContext_idle h.pending (h.ended _ hin fun X hX => ?_)
    cases hX
    exact h.held false _ (.inr hpc)
  | @receiveEnd r next d hpc hd =>
    have hin : w.pc.handler = some .ST_RECEIVE := by rw [hpc]; rfl
    have hnext := (ThreadData.receiveEntry_keeps hd).2
    have hshown : ∀ X, States.ST_RECEIVE.context? = some X → d.Shown X := fun X hX => by
      cases hX
      exact ThreadData.receiveEntry_shown hd (h.receive hpc)
    refine inContext_idle (fun _ hno X hX => ?_) (h.ended _ hin hshown)
    have heq : next = w.sm.currentState := stateChanged_raise hno
    obtain rfl : next = .ST_RECEIVE := by
      rcases h.inside _ hin with hcur | ⟨-, hcur⟩
      · exact heq.trans hcur
      · rcases hnext with hn | hn
        · exact hn
        · exact absurd (hn.symm.trans (heq.trans hcur)) (by rintro ⟨⟩)
    exact hshown X hX
  | manualEnd hpc =>
    have hin : w.pc.handler = some .ST_MANUAL := by rw [hpc]; rfl
    refine inContext_idle (fun _ hno X hX => ?_) (h.ended _ hin (by rintro _ ⟨⟩))
    have hcur := (h.inside _ hin).resolve_right (by rintro ⟨⟨⟩, -⟩)
    exact absurd ((stateChanged_raise hno).trans hcur) (by rintro ⟨⟩)
  | saveAllEnd hpc =>
    have hin : w.pc.handler = some .ST_SAVEALL := by rw [hpc]; rfl
    exact inContext_idle (fun _ _ X hX => by cases hX) (h.ended _ hin (by rintro _ ⟨⟩))
  | crash hfault =>
    exact inContext_of (by rintro _ ⟨⟩) (by rintro _ ⟨⟩) h.pending trivial

theorem InContext.step {pre : List Label} (h : w.InContext pre) (hcalm : w.Calm)
    (hs : Step w l w') : w'.InContext (pre ++ [l]) := by
  rcases step_cases hs with hclient | ⟨a, rfl, hm⟩ | ⟨r, rfl, hm⟩
  · exact h.client hcalm hclient
  · exact h.starts hm
  · exact h.goes_on hm

theorem inContext_start (file : SystemsFile) (demod : Demodulator) :
    (start file demod).InContext [] :=
  inContext_of (w := start file demod) (by rintro _ ⟨⟩) (by rintro _ ⟨⟩) (by rintro _ _ _ ⟨⟩)
    (by rintro _ _ ⟨⟩)

/-- **In an atomic run** the context is up to date after every `ST_Scan`, `ST_Hold`
and `ST_Receive`. -/
theorem inContext_run {Ok : World → Label → Prop} {file : SystemsFile} {demod : Demodulator}
    {ls : List Label}
    (h : Run (Guarded Step fun w l => w.Atomic l ∧ Ok w l) (start file demod) ls w) :
    w.InContext ls ∧ w.Calm := by
  have hboth := h.history (I := fun pre w => w.InContext pre ∧ w.Calm) (P := fun _ => True) ?_
    (fun _ _ => trivial) ⟨inContext_start file demod, calm_start file demod⟩
  · simpa using hboth
  · rintro pre s l t - ⟨hctx, hcalm⟩ ⟨hs, hatomic, -⟩
    exact ⟨hctx.step hcalm hs, hcalm.step hs hatomic⟩

end World

end PiScan.Machine

import PiScan.Lib.Avoids
import PiScan.Machine.Manual
import PiScan.Machine.Receiver

/-!
# Is there a current entry when a handler needs one?

`_currentEntry` is null until an `ST_Scan` or an `ST_Manual` has run, or an
`ST_Hold` with an index.  The tables of `holdScan` and `stopScanner` lead from
`ST_LOAD` straight to handlers that use it.

* `scanEntry_avoids`, `holdEntry_avoids`, …: with an entry and a ready receiver, no
  part of a handler runs into a null pointer;
* `Entered.step`: what the handlers need is kept, if the handlers that start
  without an entry were `Asked` for properly;
* `null_entry_iff`: so in every run after `ST_Load` that, and only that, keeps the
  handlers from a null entry;
* `hold_before_entry`: a run into one.
-/

namespace PiScan.Scan

open Outcome Carousel

/-- The fault of a null pointer. -/
abbrev Fault.Null (f : Fault) : Prop := f = .nullPointer

/-! ## The scan list has no null pointers -/

namespace SystemList

theorem lockedOut_avoids (sl : SystemList) (p : EntryPtr) :
    Avoids Fault.Null (fun _ => True) (sl.lockedOut p) := by
  unfold lockedOut
  split
  · trivial
  · split
    · rintro ⟨⟩
    · trivial

theorem skipBins_avoids (fuel : Nat) (sl : SystemList) :
    Avoids Fault.Null (fun _ => True) (sl.skipBins fuel) := by
  induction fuel generalizing sl with
  | zero => exact (by rintro ⟨⟩)
  | succ fuel ih =>
    unfold skipBins
    split
    · rintro ⟨⟩
    · exact avoids_ite (fun _ => ih _) fun _ => trivial

theorem retuneEntry_avoids (sl : SystemList) :
    Avoids Fault.Null (fun _ => True) (sl.retuneEntry 64) := by
  unfold retuneEntry
  have hskip := skipBins_avoids (sl.bins.length + 1) { sl with retune := false }
  split
  · next f hf => exact hskip.not_bad hf
  · split
    · rintro ⟨⟩
    · next b hb =>
      unfold getCenterFreq
      cases b.entries with
      | nil => exact (by rintro ⟨⟩)
      | cons front rest => cases rest <;> trivial

theorem nextCandidate_avoids (sl : SystemList) :
    Avoids Fault.Null (fun _ => True) (sl.nextCandidate 64) := by
  unfold nextCandidate
  refine avoids_ite (fun _ => retuneEntry_avoids sl) fun _ => ?_
  unfold binEntry
  split
  · rintro ⟨⟩
  · split
    · rintro ⟨⟩
    · exact avoids_ite (fun _ => trivial) fun _ => trivial

theorem getNextEntry_avoids (sl : SystemList) :
    Avoids Fault.Null (fun _ => True) (sl.getNextEntry 64) := by
  have hbody : ∀ s : SystemList, True →
      Avoids Fault.Null (fun r => True ∧ True) (s.nextCandidate 64) := fun s _ =>
    (nextCandidate_avoids s).mono fun _ _ _ => ⟨trivial, trivial⟩
  have hloop := avoids_doWhile (I := fun _ => True) (P := fun _ => True)
    (show ¬Fault.Null .diverges from by rintro ⟨⟩) hbody (fun s p _ => lockedOut_avoids s p)
    sl.rounds
    (s := sl) trivial
  exact hloop.mono fun _ _ _ => trivial

theorem getEntryByIndex_avoids (sl : SystemList) (index : List Int) :
    Avoids Fault.Null (fun _ => True) (sl.getEntryByIndex 64 index) := by
  unfold getEntryByIndex
  split
  · refine avoids_ite (fun _ => getNextEntry_avoids sl) fun _ => ?_
    split
    · rintro ⟨⟩
    · exact avoids_ite (fun _ => getNextEntry_avoids sl) fun _ =>
        avoids_ite (fun _ => trivial) fun _ => (by rintro ⟨⟩)
  · exact getNextEntry_avoids sl

end SystemList

end PiScan.Scan

namespace PiScan.Machine

open Scan Sigproc Runs Outcome

namespace ThreadData

variable {d : ThreadData}

/-! ## The parts of the handlers -/

/-- The receiver is ready and there is a current entry. -/
def Held (d : ThreadData) : Prop := d.demod.Ready ∧ d.currentEntry.isSome = true

theorem enableAudioOut_avoids (h : d.demod.Ready) (en : Bool) :
    Avoids Fault.Null (fun d' => d'.demod.Ready ∧ d'.currentEntry = d.currentEntry ∧
      d'.currentContext = d.currentContext) (d.enableAudioOut en) := by
  obtain ⟨demod, hok, hr⟩ := h.call (.squelchBreak en) (by rintro ⟨⟩)
  refine avoids_of_eq (a := { d with demod }) ?_ ⟨hr, rfl, rfl⟩
  simp only [enableAudioOut, bind_eq_ok, pure_eq_ok]
  exact ⟨demod, hok, rfl⟩

theorem entry_avoids (h : d.currentEntry.isSome = true) :
    Avoids Fault.Null (fun _ => True) d.entry := by
  obtain ⟨p, hp⟩ := Option.isSome_iff_exists.mp h
  exact avoids_of_eq (entry_eq hp) trivial

theorem entrySignal_avoids (h : d.Held) (signal : Bool) :
    Avoids Fault.Null (fun r => r.2.Held) (d.entrySignal signal) := by
  obtain ⟨hr, hsome⟩ := h
  obtain ⟨p, hp⟩ := Option.isSome_iff_exists.mp hsome
  obtain ⟨found, d', hok, hr', -⟩ := entrySignal_ready hr hp signal
  refine avoids_of_eq hok ⟨hr', ?_⟩
  rw [(entrySignal_keeps hok).1.currentEntry]
  exact hsome

theorem nextEntry_avoids (h : d.demod.Ready) :
    Avoids Fault.Null Held d.nextEntry := by
  unfold nextEntry
  exact (SystemList.getNextEntry_avoids d.systems).bind fun r _ _ => ⟨h, rfl⟩

theorem indexEntry_avoids (h : d.demod.Ready) (index : List Int) :
    Avoids Fault.Null Held (d.indexEntry index) := by
  unfold indexEntry
  exact (SystemList.getEntryByIndex_avoids d.systems index).bind fun r _ _ => ⟨h, rfl⟩

/-- A context update needs an entry, unless the state is `SCAN`. -/
theorem broadcastContextUpdate_avoids (h : d.demod.Ready)
    (hentry : d.currentContext.state = .SCAN ∨ d.currentEntry.isSome = true) :
    Avoids Fault.Null (fun d' => d'.demod.Ready ∧ d'.currentEntry = d.currentEntry)
      d.broadcastContextUpdate := by
  have hctx : Avoids Fault.Null (fun _ => True) d.newContext := by
    unfold newContext
    refine avoids_ite (fun _ => trivial) fun hscan => ?_
    refine (entry_avoids (hentry.resolve_left hscan)).bind fun e _ _ => ?_
    have htags : Avoids Fault.Null (fun _ => True) (d.entryTags e) := by
      unfold entryTags
      refine avoids_ite (fun _ => trivial) fun _ => ?_
      split
      · rintro ⟨⟩
      · trivial
    exact htags.bind fun _ _ _ => trivial
  exact hctx.bind fun _ _ _ => ⟨h, rfl⟩

theorem enterState_avoids (h : d.Held) (audio update : Bool) (state : ContextState) :
    Avoids Fault.Null Held (d.enterState audio state update) := by
  unfold enterState
  refine (enableAudioOut_avoids h.1 audio).bind fun d₁ _ ⟨hr, he, _⟩ => ?_
  have hsome : d₁.currentEntry.isSome = true := by rw [he]; exact h.2
  have hupdate := broadcastContextUpdate_avoids
    (d := { d₁ with currentContext := { d₁.currentContext with state } }) hr (.inr hsome)
  unfold onlyIf
  refine avoids_ite (fun _ => ?_) fun _ => ⟨hr, hsome⟩
  refine hupdate.mono fun d₂ _ hd₂ => ⟨hd₂.1, ?_⟩
  rw [hd₂.2]
  exact hsome

theorem scanStart_avoids (h : d.demod.Ready) :
    Avoids Fault.Null (fun d' => d'.demod.Ready ∧ d'.currentContext.state = .SCAN) d.scanStart := by
  unfold scanStart
  exact (enableAudioOut_avoids h false).bind fun _ _ hd => ⟨hd.1, rfl⟩

theorem scanEntry_avoids (h : d.demod.Ready) (hscan : d.currentContext.state = .SCAN)
    (hits : d.squelchHits ≠ 0 → d.currentEntry.isSome = true) (changed signal : Bool) :
    Avoids Fault.Null (fun r => r.2.Held) (d.scanEntry changed signal) := by
  have hupdate : Avoids Fault.Null (fun d' => d'.demod.Ready ∧ d'.currentEntry = d.currentEntry ∧
      d'.squelchHits = d.squelchHits) (d.onlyIf changed broadcastContextUpdate) := by
    unfold onlyIf
    refine avoids_ite (fun _ => ?_) fun _ => ⟨h, rfl, rfl⟩
    exact (broadcastContextUpdate_avoids h (.inl hscan)).mono fun d' hd' ⟨hr, he⟩ =>
      ⟨hr, he, (broadcastContextUpdate_keeps hd').squelchHits⟩
  unfold scanEntry
  refine hupdate.bind fun d₁ _ ⟨hr₁, he₁, hh₁⟩ => ?_
  have hnext : Avoids Fault.Null Held (d₁.onlyIf (d₁.squelchHits = 0 ∨ changed) nextEntry) := by
    unfold onlyIf
    refine avoids_ite (fun _ => nextEntry_avoids hr₁) fun hno => ⟨hr₁, ?_⟩
    rw [he₁]
    exact hits fun hz => hno (by simp [hh₁, hz])
  refine hnext.bind fun d₂ _ hd₂ => ?_
  refine (entrySignal_avoids hd₂ signal).bind fun r _ hr => ?_
  exact avoids_ite (fun _ => hr) fun _ => hr

theorem skipDummies_avoids (fuel : Nat) (h : d.Held) :
    Avoids Fault.Null Held (skipDummies fuel d) := by
  induction fuel generalizing d with
  | zero => exact (by rintro ⟨⟩)
  | succ fuel ih =>
    unfold skipDummies
    refine (entry_avoids h.2).bind fun e _ _ => ?_
    refine avoids_ite (fun _ => ?_) fun _ => h
    refine (entrySignal_avoids h false).bind fun r _ hr => ?_
    exact (nextEntry_avoids hr.1).bind fun d₂ _ hd₂ => ih hd₂

theorem holdEntry_avoids (h : d.Held) (update signal : Bool) :
    Avoids Fault.Null (fun r => r.2.Held) (d.holdEntry update signal) := by
  unfold holdEntry
  refine (skipDummies_avoids _ h).bind fun d₁ _ hd₁ => ?_
  exact (enterState_avoids hd₁ false update .HOLD).bind fun d₂ _ hd₂ =>
    entrySignal_avoids hd₂ signal

theorem holdDecision_avoids (h : d.currentEntry.isSome = true)
    (signal externalHold evtSrcExternal : Bool) (now : Int) :
    Avoids Fault.Null (fun _ => True) (d.holdDecision signal externalHold evtSrcExternal now) := by
  unfold holdDecision
  refine avoids_ite (fun _ => trivial) fun _ => avoids_ite (fun _ => trivial) fun _ => ?_
  refine (entry_avoids h).bind fun e _ _ => ?_
  split_ifs <;> trivial

theorem receiveEntry_avoids (h : d.Held) (signal : Bool) (now : Int) :
    Avoids Fault.Null (fun r => r.2.Held) (d.receiveEntry signal now) := by
  unfold receiveEntry
  exact (entrySignal_avoids h signal).bind fun r _ hr => avoids_ite (fun _ => hr) fun _ => hr

end ThreadData

namespace World

variable {w w' : World} {l : Label}

/-- Without a current entry, an `ST_Hold` starts with the flag and an index that
gives one, and an `ST_SaveAll` without the flag. -/
def Asked (w : World) (h : States) : Prop :=
  (h = .ST_HOLD → w.sm.externalHold = true ∧ 0 < w.sm.holdIndex.length) ∧
    (h = .ST_SAVEALL → w.sm.externalHold = false)

/-- Over a database that is loaded and not empty: where the handlers use the
current entry there is one, and nothing has run into a null pointer. -/
structure Entered (w : World) : Prop where
  ready : w.sm.data.demod.Ready
  stocked : w.sm.data.systems.size ≠ 0
  hits : w.sm.data.squelchHits ≠ 0 → w.sm.data.currentEntry.isSome = true
  inside : w.pc.InHold ∨ w.pc = .receive → w.sm.data.currentEntry.isSome = true
  pending : w.sm.eventGenerated = true → w.sm.currentState ≠ .ST_LOAD ∧
    (w.sm.currentState = .ST_RECEIVE → w.sm.data.currentEntry.isSome = true)
  scan : w.pc = .scan → w.sm.data.currentContext.state = .SCAN
  manual : w.ManualReady
  alive : w.pc ≠ .crashed .nullPointer

/-- A step of a client.  No call leads to `ST_LOAD` or `ST_RECEIVE`. -/
theorem Entered.client (h : w.Entered) (hsane : w.control.Sane) (hm : w'.ManualReady)
    (hs : w.ByClient l w') : w'.Entered := by
  refine ⟨?_, ?_, ?_, ?_, ?_, ?_, hm, ?_⟩
  · rw [hs.data]
    exact h.ready
  · rw [hs.data]
    exact h.stocked
  · rw [hs.data]
    exact h.hits
  · rw [hs.data, hs.pc]
    exact h.inside
  · rw [hs.data]
    rcases hs.machine with hmachine | ⟨-, c, call, next, hc, hmachine⟩
    · rw [hmachine]
      exact h.pending
    · have hnext : next = call.target := hsane.target (show w.control.clients c = _ from hc)
      rw [hmachine, hnext]
      intro _
      cases call <;> exact ⟨by rintro ⟨⟩, by rintro ⟨⟩⟩
  · rw [hs.data, hs.pc]
    exact h.scan
  · rw [hs.pc]
    exact h.alive

/-- A part of a handler that leaves an entry. -/
theorem entered_held (hm : w'.ManualReady) (hd : w'.sm.data.Held)
    (hsize : w'.sm.data.systems.size ≠ 0)
    (hp : w'.sm.eventGenerated = true → w'.sm.currentState ≠ .ST_LOAD)
    (hst : w'.pc.steady = true) : w'.Entered :=
  ⟨hd.1, hsize, fun _ => hd.2, fun _ => hd.2, fun hg => ⟨hp hg, fun _ => hd.2⟩,
    fun hpc => absurd hpc (Pc.steady_ne hst).1, hm, (Pc.steady_ne hst).2 _⟩

/-- A null pointer is none of the faults of a handler. -/
theorem Entered.fault (h : w.Entered) (hsane : w.control.Sane) {l : Label} {f : Fault}
    (hok : ∀ a, l = .activate a → w.sm.data.currentEntry = none → w.Asked a)
    (hfault : (∃ a, l = .activate a ∧ w.Due a ∧ w.sm.stateEngine = .error f) ∨
      ∃ r, l = .resume r ∧ w.pc.InHandler ∧ w.sm.resume r w.pc = .error f) :
    f ≠ .nullPointer := by
  have hsome : w.sm.data.currentEntry ≠ none → w.sm.data.currentEntry.isSome = true :=
    Option.isSome_iff_ne_none.mpr
  rcases hfault with ⟨a, rfl, hdue, hr⟩ | ⟨r, -, hpc, hr⟩
  · rw [hdue.stateEngine] at hr
    have hasked := hok a rfl
    suffices hav : Avoids Fault.Null (fun _ => True)
        (ScannerSM.stateMap a w.sm.pEventData w.sm.take) from hav.not_bad hr
    cases a with
    | ST_LOAD => exact absurd hdue.2.2 (h.pending hdue.2.1).1
    | ST_SCAN =>
      refine avoids_ite (fun _ => trivial) fun _ => ?_
      have hstart :=
        ThreadData.scanStart_avoids (d := w.sm.data.resetHits w.sm.stateChanged) h.ready
      exact hstart.bind fun _ _ _ => trivial
    | ST_HOLD =>
      refine avoids_ite (fun _ => ?_) fun _ => trivial
      exact (ThreadData.indexEntry_avoids h.ready _).bind fun _ _ _ => trivial
    | ST_RECEIVE =>
      have he := (h.pending hdue.2.1).2 hdue.2.2
      refine (ThreadData.entry_avoids he).bind fun e _ _ => ?_
      exact (ThreadData.enterState_avoids ⟨h.ready, he⟩ _ _ _).bind fun _ _ _ => trivial
    | ST_MANUAL =>
      obtain ⟨freq, modulation, hdata⟩ := h.manual hdue.2.1 hdue.2.2
      rw [hdata]
      trivial
    | ST_SAVEALL =>
      have hsave : ∃ d', w.sm.data.saveAll w.sm.externalHold = .ok d' := by
        refine ThreadData.saveAll_ok ?_
        by_cases hnone : w.sm.data.currentEntry = none
        · refine .inr ⟨(hasked hnone).2 rfl, ?_⟩
          by_contra hmanual
          have he := hsane.entry (eq_true_of_ne_false hmanual)
          simp [control, hnone] at he
        · exact .inl (hsome hnone)
      obtain ⟨d', hd'⟩ := hsave
      exact (avoids_of_eq (P := fun _ => True) hd' trivial).bind fun _ _ _ => trivial
    | ST_STOPPED => trivial
  · suffices hav : Avoids Fault.Null (fun _ => True) (w.sm.resume r w.pc) from hav.not_bad hr
    cases hw : w.pc with
    | scan =>
      exact (ThreadData.scanEntry_avoids h.ready (h.scan hw) h.hits _ _).bind fun _ _ _ => trivial
    | hold update =>
      have he := h.inside (.inl (by rw [hw]; trivial))
      exact (ThreadData.holdEntry_avoids ⟨h.ready, he⟩ _ _).bind fun _ _ _ => trivial
    | holdDecision found =>
      have he := h.inside (.inl (by rw [hw]; trivial))
      exact (ThreadData.holdDecision_avoids he _ _ _ _).bind fun _ _ _ => trivial
    | holdEvent next => cases next <;> trivial
    | receive =>
      have he := h.inside (.inr hw)
      exact (ThreadData.receiveEntry_avoids ⟨h.ready, he⟩ _ _).bind fun _ _ _ => trivial
    | manual => trivial
    | saveAll => trivial
    | idle => trivial
    | ended => trivial
    | crashed f => trivial

/-- A handler has no effect on whether the database is empty. -/
theorem Entered.stocked_of_scans (h : w.Entered) {d : ThreadData} (hsc : w.sm.data.Scans d) :
    d.systems.size ≠ 0 := by
  rw [SystemList.size, hsc.entries.systems]
  exact h.stocked

/-- A handler that starts. -/
theorem Entered.starts {a : States} (h : w.Entered) (hsane : w.control.Sane)
    (hm : w'.ManualReady) (hs : Moves w (.activate a) w')
    (hok : w.sm.data.currentEntry = none → w.Asked a) : w'.Entered := by
  cases hs with
  | load hdue hd => exact absurd hdue.2.2 (h.pending hdue.2.1).1
  | scanEmpty hdue hempty => exact absurd hempty h.stocked
  | @scan d hdue hsome hd =>
    have hstart := ThreadData.scanStart_avoids (d := w.sm.data.resetHits w.sm.stateChanged) h.ready
    have hp := hstart.of_ok hd
    simp only [ThreadData.scanStart, ThreadData.enableAudioOut, bind_eq_ok, pure_eq_ok] at hd
    obtain ⟨d₁, ⟨demod, -, rfl⟩, rfl⟩ := hd
    refine ⟨hp.1, h.stocked, fun hhits => h.hits fun hz => hhits ?_, ?_, by rintro ⟨⟩,
      fun _ => rfl, hm, by rintro ⟨⟩⟩
    · simp [go, ThreadData.resetHits, hz]
    · rintro (hpc | hpc) <;> cases hpc
  | @holdIndex d hdue hflag hindex hd =>
    have hp := (ThreadData.indexEntry_avoids h.ready w.sm.holdIndex).of_ok hd
    have hstocked := h.stocked_of_scans (ThreadData.indexEntry_scans hd).1
    exact entered_held hm hp hstocked (by rintro ⟨⟩) rfl
  | hold hdue hno =>
    have hsome : w.sm.data.currentEntry.isSome = true := by
      rw [Option.isSome_iff_ne_none]
      exact fun hnone => hno ((hok hnone).1 rfl)
    exact entered_held hm ⟨h.ready, hsome⟩ h.stocked (by rintro ⟨⟩) rfl
  | @receive e d hdue he hd =>
    have hsome := (h.pending hdue.2.1).2 hdue.2.2
    have hp := (ThreadData.enterState_avoids ⟨h.ready, hsome⟩ _ _ _).of_ok hd
    refine entered_held hm hp (h.stocked_of_scans (ThreadData.enterState_keeps hd).scans) ?_ rfl
    intro _
    have hcur := hdue.2.2
    cases hlock : e.isLockedOut <;>
      simp [go, ScannerSM.raiseIfLocked, ScannerSM.take, StateMachine.internalEvent, hcur]
  | manual hdue hdata => exact entered_held hm ⟨h.ready, rfl⟩ h.stocked (by rintro ⟨⟩) rfl
  | saveAll hdue hd =>
    obtain ⟨state, -, rfl⟩ := ThreadData.saveAll_spec hd
    refine ⟨h.ready, h.stocked, h.hits, ?_, by rintro ⟨⟩, by rintro ⟨⟩, hm, by rintro ⟨⟩⟩
    rintro (hpc | hpc) <;> cases hpc
  | stopped hdue =>
    refine ⟨h.ready, h.stocked, h.hits, ?_, by rintro ⟨⟩, by rintro ⟨⟩, hm, by rintro ⟨⟩⟩
    rintro (hpc | hpc) <;> cases hpc
  | @crash l f hfault =>
    have hf := h.fault hsane (by rintro b ⟨⟩; exact hok) hfault
    refine ⟨h.ready, h.stocked, h.hits, ?_, h.pending, by rintro ⟨⟩, hm, ?_⟩
    · rintro (hpc | hpc) <;> cases hpc
    · exact fun hpc => hf (Pc.crashed.inj hpc)

/-- A handler that goes on. -/
theorem Entered.goes_on {r : ScannerSM.Reading} (h : w.Entered) (hsane : w.control.Sane)
    (hm : w'.ManualReady) (hs : Moves w (.resume r) w') : w'.Entered := by
  cases hs with
  | @scanEnd r next d hpc hd =>
    have hp := (ThreadData.scanEntry_avoids h.ready (h.scan hpc) h.hits _ _).of_ok hd
    obtain ⟨d₁, hits, rfl, hscans, -, hnext, -⟩ := ThreadData.scanEntry_scans hd
    refine entered_held hm hp (h.stocked_of_scans (d := d₁) hscans) ?_ rfl
    rcases hnext with rfl | rfl <;> rintro _ ⟨⟩
  | @holdEntry r update found d hpc hd =>
    have hsome := h.inside (.inl (by rw [hpc]; trivial))
    have hp := (ThreadData.holdEntry_avoids ⟨h.ready, hsome⟩ _ _).of_ok hd
    have hquiet : w.sm.eventGenerated = false :=
      hsane.holding (by rw [show w.control.pc = _ from hpc]; trivial)
    exact entered_held hm hp (h.stocked_of_scans (ThreadData.holdEntry_scans hd).1)
      (fun hg => absurd (hquiet.symm.trans hg) (by rintro ⟨⟩)) rfl
  | holdDecision hpc hd =>
    have hsome := h.inside (.inl (by rw [hpc]; trivial))
    exact entered_held hm ⟨h.ready, hsome⟩ h.stocked (fun hg => (h.pending hg).1) rfl
  | @holdEvent r next hpc =>
    have hsome := h.inside (.inl (by rw [hpc]; trivial))
    refine entered_held hm ⟨h.ready, hsome⟩ h.stocked ?_ rfl
    rcases hsane.decided next hpc with rfl | rfl | rfl <;> rintro _ ⟨⟩
  | holdQuiet hpc =>
    have hsome := h.inside (.inl (by rw [hpc]; trivial))
    exact entered_held hm ⟨h.ready, hsome⟩ h.stocked (fun hg => (h.pending hg).1) rfl
  | @receiveEnd r next d hpc hd =>
    have hsome := h.inside (.inr hpc)
    have hp := (ThreadData.receiveEntry_avoids ⟨h.ready, hsome⟩ _ _).of_ok hd
    obtain ⟨hk, hnext⟩ := ThreadData.receiveEntry_keeps hd
    refine entered_held hm hp (h.stocked_of_scans hk.scans) ?_ rfl
    rcases hnext with rfl | rfl <;> rintro _ ⟨⟩
  | manualEnd hpc =>
    refine ⟨h.ready, h.stocked, h.hits, ?_, fun _ => ⟨by rintro ⟨⟩, by rintro ⟨⟩⟩, by rintro ⟨⟩,
      hm, by rintro ⟨⟩⟩
    rintro (hpc | hpc) <;> cases hpc
  | saveAllEnd hpc =>
    refine ⟨h.ready, h.stocked, h.hits, ?_, fun _ => ⟨by rintro ⟨⟩, by rintro ⟨⟩⟩, by rintro ⟨⟩,
      hm, by rintro ⟨⟩⟩
    rintro (hpc | hpc) <;> cases hpc
  | @crash l f hfault =>
    have hf := h.fault hsane (by rintro b ⟨⟩) hfault
    refine ⟨h.ready, h.stocked, h.hits, ?_, h.pending, by rintro ⟨⟩, hm, ?_⟩
    · rintro (hpc | hpc) <;> cases hpc
    · exact fun hpc => hf (Pc.crashed.inj hpc)

/-- **One step.** -/
theorem Entered.step (h : w.Entered) (hsane : w.control.Sane) (hs : Step w l w')
    (hok : ∀ a, l = .activate a → w.sm.data.currentEntry = none → w.Asked a) : w'.Entered := by
  have hready := h.manual.step hsane hs fun _ => h.stocked
  rcases step_cases hs with hclient | ⟨a, rfl, hm⟩ | ⟨r, rfl, hm⟩
  · exact h.client hsane hready hclient
  · exact h.starts hsane hready hm (hok a rfl)
  · exact h.goes_on hsane hready hm

end World

/-! ## Which handlers have run -/

/-- No handler that sets the current entry has started in `ls`. -/
def Untouched (ls : List Label) : Prop :=
  .ST_SCAN ∉ activations ls ∧ .ST_HOLD ∉ activations ls ∧ .ST_MANUAL ∉ activations ls

instance (ls : List Label) : Decidable (Untouched ls) := inferInstanceAs (Decidable (_ ∧ _))

theorem untouched_snoc {pre : List Label} {l : Label} :
    Untouched (pre ++ [l]) ↔ Untouched pre ∧ l.activated ≠ some .ST_SCAN ∧
      l.activated ≠ some .ST_HOLD ∧ l.activated ≠ some .ST_MANUAL := by
  simp only [Untouched, activations_append, activations_singleton, List.mem_append, not_or,
    Option.mem_toList, ne_eq]
  tauto

namespace Control

/-- As long as no such handler has started, the thread is in none and there is no
entry. -/
def Fresh (pre : List Label) (s : Control) : Prop :=
  Untouched pre → s.hasEntry = false ∧
    (s.pc = .idle ∨ s.pc = .saveAll ∨ s.pc = .ended ∨ ∃ f, s.pc = .crashed f)

theorem Fresh.step {pre : List Label} {s s' : Control} {l : Label} (h : s.Fresh pre)
    (hs : Step s l s') : s'.Fresh (pre ++ [l]) := by
  intro hpre
  obtain ⟨hpre, hscan, hhold, hmanual⟩ := untouched_snoc.mp hpre
  obtain ⟨hnone, hpc⟩ := h hpre
  have hout : ∀ pc : Pc, s.pc = pc → pc.InHandler → pc = .saveAll := by
    rintro pc rfl hin
    rcases hpc with hpc | hpc | hpc | ⟨f, hpc⟩
    · rw [hpc] at hin
      exact hin.elim
    · exact hpc
    · rw [hpc] at hin
      exact hin.elim
    · rw [hpc] at hin
      exact hin.elim
  cases hs with
  | begin hc => exact ⟨hnone, hpc⟩
  | storeFlag hc => exact ⟨hnone, hpc⟩
  | storeIndex hc => exact ⟨hnone, hpc⟩
  | lookup hc => exact ⟨hnone, hpc⟩
  | ignore hc => exact ⟨hnone, hpc⟩
  | commit hc hu => exact ⟨hnone, hpc⟩
  | load hdue => exact ⟨hnone, .inl rfl⟩
  | scanEmpty hdue => exact absurd rfl hscan
  | scan hdue => exact absurd rfl hscan
  | hold hdue he => exact absurd rfl hhold
  | receive hdue hcur he => exact absurd (hnone.symm.trans he) (by rintro ⟨⟩)
  | manual hdue => exact absurd rfl hmanual
  | saveAll hdue => exact ⟨hnone, .inr (.inl rfl)⟩
  | stopped hdue => exact ⟨hnone, .inr (.inr (.inl rfl))⟩
  | saveAllEnd hpc => exact ⟨hnone, .inl rfl⟩
  | @crash l f hmay hdue => exact ⟨hnone, .inr (.inr (.inr ⟨f, rfl⟩))⟩
  | scanEnd hpc hnext => cases hout _ hpc trivial
  | holdEntry hpc => cases hout _ hpc trivial
  | holdDecision hpc => cases hout _ hpc trivial
  | holdEvent hpc => cases hout _ hpc trivial
  | holdQuiet hpc => cases hout _ hpc trivial
  | receiveEnd hpc hnext => cases hout _ hpc trivial
  | manualEnd hpc => cases hout _ hpc trivial

/-- Once such a handler has started, there is an entry, or `ST_Scan` is about to
take one. -/
def Used (pre : List Label) (s : Control) : Prop :=
  ¬Untouched pre → s.hasEntry = true ∨ s.pc = .scan ∨ ∃ f, s.pc = .crashed f

theorem Used.step {pre : List Label} {s s' : Control} {l : Label} (h : s.Used pre)
    (hscan : l = .activate .ST_SCAN → s'.pc = .scan ∨ ∃ f, s'.pc = .crashed f)
    (hhold : s'.pc.InHold → s'.hasEntry = true) (hs : Step s l s') : s'.Used (pre ++ [l]) := by
  intro hpre
  -- a step that starts no such handler
  have hother : l.activated.all (· ∉ [.ST_SCAN, .ST_HOLD, .ST_MANUAL]) = true →
      s.hasEntry = true ∨ s.pc = .scan ∨ ∃ f, s.pc = .crashed f := fun hl => by
    refine h fun hno => hpre (untouched_snoc.mpr ⟨hno, ?_⟩)
    cases ha : l.activated <;> simp_all
  have hthere : ∀ pc : Pc, s.pc = pc → pc.steady = true →
      l.activated.all (· ∉ [.ST_SCAN, .ST_HOLD, .ST_MANUAL]) = true → s.hasEntry = true := by
    rintro pc rfl hst hl
    rcases hother hl with he | hpc | ⟨f, hpc⟩
    · exact he
    · exact absurd hpc (Pc.steady_ne hst).1
    · exact absurd hpc ((Pc.steady_ne hst).2 f)
  cases hs with
  | begin hc => exact hother rfl
  | storeFlag hc => exact hother rfl
  | storeIndex hc => exact hother rfl
  | lookup hc => exact hother rfl
  | ignore hc => exact hother rfl
  | commit hc hu => exact hother rfl
  | load hdue => exact .inl (hthere _ hdue.1 rfl rfl)
  | scanEmpty hdue => exact .inr (hscan rfl)
  | scan hdue => exact .inr (.inl rfl)
  | hold hdue he => exact .inl (hhold trivial)
  | receive hdue hcur he => exact .inl he
  | manual hdue => exact .inl rfl
  | saveAll hdue => exact .inl (hthere _ hdue.1 rfl rfl)
  | stopped hdue => exact .inl (hthere _ hdue.1 rfl rfl)
  | scanEnd hpc hnext => exact .inl rfl
  | holdEntry hpc => exact .inl rfl
  | holdDecision hpc => exact .inl (hthere _ hpc rfl rfl)
  | holdEvent hpc => exact .inl (hthere _ hpc rfl rfl)
  | holdQuiet hpc => exact .inl (hthere _ hpc rfl rfl)
  | receiveEnd hpc hnext => exact .inl (hthere _ hpc rfl rfl)
  | manualEnd hpc => exact .inl (hthere _ hpc rfl rfl)
  | saveAllEnd hpc => exact .inl (hthere _ hpc rfl rfl)
  | @crash l f hmay hdue => exact .inr (.inr ⟨f, rfl⟩)

end Control

/-! ## Runs after `ST_Load` -/

namespace World

/-- In `ST_Hold` there is no current entry, or a null pointer has been used. -/
def ActsOnNull (w : World) : Prop :=
  w.pc = .crashed .nullPointer ∨ w.pc.InHold ∧ w.sm.data.currentEntry = none

/-- In the run `ls` from `w₀`, the handlers that start before the first entry is
set have been `Asked` for properly. -/
def FirstAsked (w₀ : World) (ls : List Label) : Prop :=
  ∀ (pre : List Label) (h : States) (w : World), pre ++ [.activate h] <+: ls →
    Run Step w₀ pre w → Untouched pre → w.Asked h

theorem FirstAsked.cut {w₀ : World} {ls ls' : List Label} (h : w₀.FirstAsked ls)
    (hp : ls' <+: ls) : w₀.FirstAsked ls' :=
  fun pre a w hpre hr hno => h pre a w (hpre.trans hp) hr hno

/-- The world right after `ST_Load`, over a database in which something can be scanned. -/
structure Loaded (cubic : CubicSDR) (file : SystemsFile) (w : World) : Prop where
  load : Step (start file (.start cubic)) (.activate .ST_LOAD) w
  scannable : ∃ p, w.sm.data.systems.isScannable p = true

variable {cubic : CubicSDR} {file : SystemsFile} {w₀ w w' : World} {l : Label}

theorem Loaded.entered (h : Loaded cubic file w₀) :
    w₀.Entered ∧ w₀.control.Sane ∧ w₀.sm.data.currentEntry = none ∧ w₀.pc = .idle := by
  obtain ⟨p, hp⟩ := h.scannable
  have hsize := SystemList.size_of_isScannable hp
  have hsane : w₀.control.Sane := (sane_start file (.start cubic)).step (control_step h.load)
  cases moves_of_step h.load with
  | load hdue hd =>
    simp only [ThreadData.load, bind_eq_ok, pure_eq_ok] at hd
    obtain ⟨sl, -, sl', -, rfl⟩ := hd
    refine ⟨⟨Demodulator.ready_start cubic, hsize, fun hh => absurd rfl hh, ?_, by rintro ⟨⟩, by rintro ⟨⟩,
      manualReady_of_ne (by rintro ⟨⟩), by rintro ⟨⟩⟩, hsane, rfl, rfl⟩
    rintro (hpc | hpc) <;> cases hpc
  | crash hfault => exact absurd rfl hsize

/-- What holds after the steps `pre`; the last part needs that the first handlers
have been asked for. -/
structure Course (w₀ : World) (pre : List Label) (w : World) : Prop where
  run : Run Step w₀ pre w
  sane : w.control.Sane
  fresh : w.control.Fresh pre
  asked : w₀.FirstAsked pre → w.Entered ∧ w.control.Used pre

theorem Course.step {pre : List Label} (h : Course w₀ pre w) (hs : Step w l w') :
    Course w₀ (pre ++ [l]) w' := by
  have hc := control_step hs
  refine ⟨h.run.snoc hs, h.sane.step hc, h.fresh.step hc, fun hfirst => ?_⟩
  obtain ⟨hentered, hused⟩ := h.asked (hfirst.cut (List.prefix_append _ _))
  have hok : ∀ a, l = .activate a → w.sm.data.currentEntry = none → w.Asked a := by
    rintro a rfl hnone
    refine hfirst pre a w (List.prefix_refl _) h.run ?_
    -- a handler starts where none is running
    have hidle : w.pc = .idle := by
      have hp := perform_of_step hs
      simp only [perform, Option.ite_none_right_eq_some] at hp
      exact hp.1.1
    by_contra htouched
    rcases hused htouched with he | hpc | ⟨f, hpc⟩
    · simp [control, hnone] at he
    · exact absurd (hidle.symm.trans hpc) (by rintro ⟨⟩)
    · exact absurd (hidle.symm.trans hpc) (by rintro ⟨⟩)
  have hnext := hentered.step h.sane hs hok
  refine ⟨hnext, hused.step ?_ (fun hpc => hnext.inside (.inl hpc)) hc⟩
  rintro rfl
  cases moves_of_step hs with
  | scanEmpty hdue hempty => exact absurd hempty hentered.stocked
  | scan hdue hsome hd => exact .inl rfl
  | @crash _ f hfault => exact .inr ⟨f, rfl⟩

theorem Loaded.course {ls : List Label} (h : Loaded cubic file w₀) (hr : Run Step w₀ ls w) :
    Course w₀ ls w := by
  obtain ⟨hentered, hsane, hnone, hidle⟩ := h.entered
  have hstart : Course w₀ [] w₀ := by
    refine ⟨.nil w₀, hsane, fun _ => ⟨?_, .inl hidle⟩, fun _ => ⟨hentered, fun hno => ?_⟩⟩
    · simp [control, hnone]
    · exact absurd (by decide) hno
  have hcourse := hr.history (I := fun pre w => Course w₀ pre w) (P := fun _ => True)
    (fun _ _ _ _ _ hi hs => hi.step hs) (fun _ _ => trivial) hstart
  simpa using hcourse

theorem Entered.not_actsOnNull (h : w.Entered) : ¬w.ActsOnNull := by
  rintro (hpc | ⟨hpc, hnone⟩)
  · exact h.alive hpc
  · have hsome := h.inside (.inl hpc)
    rw [hnone] at hsome
    cases hsome

/-- A save with the flag set needs an entry. -/
theorem saveAll_null {d : ThreadData} (h : d.currentEntry = none) :
    d.saveAll true = .error .nullPointer := by
  have hentry : d.entry = .error .nullPointer := by simp [ThreadData.entry, h]
  cases hm : d.manualMode <;>
    simp [ThreadData.saveAll, ThreadData.savedState, hm, hentry, Bind.bind, Except.bind]

/-- **A handler that was not asked for properly** acts on the null pointer. -/
theorem actsOnNull_of_not_asked {a : States} (hs : Step w (.activate a) w')
    (hnone : w.sm.data.currentEntry = none) (hno : ¬w.Asked a) : w'.ActsOnNull := by
  by_cases hhold : a = .ST_HOLD
  · subst hhold
    have hindex : ¬(w.sm.externalHold = true ∧ 0 < w.sm.holdIndex.length) := fun hi =>
      hno ⟨fun _ => hi, by rintro ⟨⟩⟩
    cases moves_of_step hs with
    | holdIndex hdue hflag hi hd => exact absurd ⟨hflag, hi⟩ hindex
    | hold hdue _ => exact .inr ⟨trivial, hnone⟩
    | crash hfault =>
      have hr := fault_of_activate hfault
      rw [ScannerSM.stateMap, ScannerSM.ST_Hold] at hr
      split at hr
      · next hi => exact absurd hi hindex
      · cases hr
  · have hsave : a = .ST_SAVEALL ∧ w.sm.externalHold = true := by
      by_contra hcon
      refine hno ⟨fun h => absurd h hhold, fun h => ?_⟩
      by_contra hflag
      exact hcon ⟨h, eq_true_of_ne_false hflag⟩
    obtain ⟨rfl, hflag⟩ := hsave
    cases moves_of_step hs with
    | saveAll hdue hd =>
      rw [hflag, saveAll_null hnone] at hd
      cases hd
    | @crash _ f hfault =>
      have hsave : w.sm.take.data.saveAll w.sm.take.externalHold = .error .nullPointer := by
        change w.sm.data.saveAll w.sm.externalHold = _
        rw [hflag, saveAll_null hnone]
      have hnull : ScannerSM.ST_SaveAll w.sm.take = .error .nullPointer := by
        simp [ScannerSM.ST_SaveAll, hsave, Bind.bind, Except.bind]
      have hr := fault_of_activate hfault
      rw [ScannerSM.stateMap, hnull] at hr
      cases hr
      exact .inl rfl

/-- **No handler acts on a null entry** in a run after `ST_Load` if and only if the
handlers that start before the first entry is set have been asked for: an
`ST_Hold` with an index, an `ST_SaveAll` without the hold flag. -/
theorem null_entry_iff {ls : List Label} (hload : Loaded cubic file w₀) (h : Run Step w₀ ls w) :
    (∀ pre w', pre <+: ls → Run Step w₀ pre w' → ¬w'.ActsOnNull) ↔ w₀.FirstAsked ls := by
  constructor
  · intro hsafe pre a w₁ hp hr hno
    obtain ⟨rest, rfl⟩ := hp
    obtain ⟨w₂, h₂, -⟩ := h.split (pre ++ [.activate a])
    obtain ⟨w₁', h₁, hlast⟩ := h₂.split pre
    obtain rfl := h₁.unique step_unique hr
    by_contra hbad
    cases hlast with
    | cons hs hnil =>
      cases hnil
      have hnone := (((hload.course hr).fresh hno).1)
      refine hsafe (pre ++ [.activate a]) w₂ (List.prefix_append _ _) h₂ ?_
      refine actsOnNull_of_not_asked hs ?_ hbad
      simpa [control] using hnone
  · intro hfirst pre w' hp hr
    exact ((hload.course hr).asked (hfirst.cut hp)).1.not_actsOnNull

/-- A database with one channel, right after `ST_Load`. -/
def loadedWorld : World :=
  (start oneChannelFile (.start Demodulator.tuner)).after [.activate .ST_LOAD]

theorem loaded_loadedWorld : Loaded Demodulator.tuner oneChannelFile loadedWorld := by
  refine ⟨?_, .channel 0 0, by decide +kernel⟩
  have hr : Run Step (start oneChannelFile (.start Demodulator.tuner)) [.activate .ST_LOAD]
      loadedWorld := run_after (by decide +kernel)
  cases hr with
  | cons hs hnil =>
    cases hnil
    exact hs

/-- A scan, then a hold without an index. -/
def scanFirst : List Label :=
  [.begin 0 .startScan, .lookup 0, .commit 0, .activate .ST_SCAN, .resume (silence 10000),
    .begin 1 (.holdScan []), .storeFlag 1, .storeIndex 1, .lookup 1, .commit 1,
    .activate .ST_HOLD, .resume (silence 10000), .resume (silence 10000)]

theorem firstAsked_scanFirst : loadedWorld.FirstAsked scanFirst := by
  intro pre a w hp _ hno
  have hfirst : ∀ n < scanFirst.length, Untouched (scanFirst.take n) →
      scanFirst[n]? ≠ some (.activate .ST_HOLD) ∧ scanFirst[n]? ≠ some (.activate .ST_SAVEALL) := by
    decide
  obtain ⟨rest, hrest⟩ := hp
  have hlen : pre.length < scanFirst.length := by
    rw [← hrest]
    simp
  have htake : scanFirst.take pre.length = pre := by simp [← hrest]
  have hget : scanFirst[pre.length]? = some (.activate a) := by simp [← hrest]
  obtain ⟨hhold, hsave⟩ := hfirst pre.length hlen (by rwa [htake])
  rw [hget] at hhold hsave
  exact ⟨fun h => absurd (by rw [h]) hhold, fun h => absurd (by rw [h]) hsave⟩

theorem null_entry_iff_scanFirst :
    loadedWorld.FirstAsked scanFirst ∧
      ∀ pre w', pre <+: scanFirst → Run Step loadedWorld pre w' → ¬w'.ActsOnNull :=
  ⟨firstAsked_scanFirst,
    (null_entry_iff loaded_loadedWorld (run_after (by decide +kernel))).mpr firstAsked_scanFirst⟩

/-- A hold right after `ST_Load`, as a client can ask for before the scan is started. -/
def holdAtOnce : List Label :=
  [.begin 0 (.holdScan []), .storeFlag 0, .storeIndex 0, .lookup 0, .commit 0, .activate .ST_HOLD,
    .resume (silence 10000)]

/-- **A hold before the first entry is set** runs into the null pointer. -/
theorem hold_before_entry :
    ∃ w, Loaded Demodulator.tuner oneChannelFile loadedWorld ∧
      Run Step loadedWorld holdAtOnce w ∧ w.pc = .crashed .nullPointer :=
  ⟨loadedWorld.after holdAtOnce, loaded_loadedWorld, run_after (by decide +kernel),
    by decide +kernel⟩

end World

end PiScan.Machine

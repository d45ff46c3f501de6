import PiScan.Machine.Hold

/-!
# Does the machine go idle by itself?

Every handler but `ST_Load` and `ST_Stopped` is meant to raise an event.
`ST_Hold` has two branches that raise none: they are for an external hold, but
they test `evtSrcExternal`, after the test of `_externalHold` has failed.

* `event_pending`: as long as `ST_Hold` does not come to these branches
  (`Stalls`), an event is pending whenever the thread is between two handlers;
* `waits_of_stalls`: where it does, the machine waits for a client;
* `not_stalls_of_flagged`: it does not if every commit of a `holdScan` finds the
  flag still set;
* `machine_waits`: a run in which it does.
-/

namespace PiScan.Machine

open Scan Sigproc Runs

/-- The handlers after which an event must be pending. -/
def raising : List States := [.ST_SCAN, .ST_HOLD, .ST_RECEIVE, .ST_MANUAL, .ST_SAVEALL]

/-- If the thread is between two handlers and the last one was `raising`, an
event is pending. -/
def EventPending (ls : List Label) (w : World) : Prop :=
  w.pc = .idle → ∀ h ∈ raising, (activations ls).getLast? = some h → w.sm.eventGenerated = true

instance (ls : List Label) (w : World) : Decidable (EventPending ls w) :=
  inferInstanceAs (Decidable (_ → _))

/-- With the step `l`, `ST_Hold` decides to raise no event. -/
def World.Stalls (w : World) (l : Label) : Prop :=
  ∃ found r, w.pc = .holdDecision found ∧ l = .resume r ∧
    w.sm.data.Stalls found w.sm.externalHold w.sm.evtSrcExternal r.now

/-- `Stalls`, evaluated. -/
def World.stalls (w : World) : Label → Bool
  | .resume r =>
    match w.pc with
    | .holdDecision found =>
      w.sm.data.holdDecision found w.sm.externalHold w.sm.evtSrcExternal r.now = .ok none
    | _ => false
  | _ => false

theorem World.stalls_iff (w : World) (l : Label) : w.stalls l = true ↔ w.Stalls l := by
  unfold stalls Stalls
  cases l with
  | resume r => cases hpc : w.pc <;> simp [ThreadData.holdDecision_none_iff]
  | _ => simp

instance (w : World) (l : Label) : Decidable (w.Stalls l) := decidable_of_iff _ (w.stalls_iff l)

/-- A commit of a `holdScan` finds the flag still set. -/
def World.HoldFlagged (w : World) (l : Label) : Prop :=
  ∀ c index next, l = .commit c → w.clients c = .looked (.holdScan index) next →
    w.sm.externalHold = true

namespace Control

/-- Between two handlers an event is pending, unless nothing but `ST_Load` has
run; and `ST_Hold` has not decided to raise none. -/
structure Lively (pre : List Label) (s : Control) : Prop where
  idle : s.pc = .idle → s.eventGenerated = true ∨
    ∀ h, (activations pre).getLast? = some h → h = .ST_LOAD
  hold : s.pc ≠ .holdEvent none

theorem Lively.step {pre : List Label} {s s' : Control} {l : Label} (h : s.Lively pre)
    (hnext : s'.pc ≠ .holdEvent none) (hs : Step s l s') : s'.Lively (pre ++ [l]) := by
  obtain ⟨hidle, hhold⟩ := h
  refine ⟨?_, hnext⟩
  rw [getLast?_activations_snoc]
  cases hs with
  | begin hc => exact hidle
  | storeFlag hc => exact hidle
  | storeIndex hc => exact hidle
  | lookup hc => exact hidle
  | ignore hc => exact hidle
  | commit hc hu => exact fun _ => .inl rfl
  | load hdue =>
    refine fun _ => .inr fun h hh => ?_
    cases hh
    rfl
  | holdQuiet hpc => exact absurd hpc hhold
  | scanEmpty hdue => exact fun _ => .inl rfl
  | scanEnd hpc hnext => exact fun _ => .inl rfl
  | holdEvent hpc => exact fun _ => .inl rfl
  | receiveEnd hpc hnext => exact fun _ => .inl rfl
  | manualEnd hpc => exact fun _ => .inl rfl
  | saveAllEnd hpc => exact fun _ => .inl rfl
  | _ => exact nofun

/-- In `ST_Hold`, the last handler that started is `ST_Hold`. -/
theorem Step.inHold {pre : List Label} {s s' : Control} {l : Label}
    (h : s.pc.InHold → (activations pre).getLast? = some .ST_HOLD) (hs : Step s l s') :
    s'.pc.InHold → (activations (pre ++ [l])).getLast? = some .ST_HOLD := by
  rw [getLast?_activations_snoc]
  cases hs with
  | begin hc => exact h
  | storeFlag hc => exact h
  | storeIndex hc => exact h
  | lookup hc => exact h
  | ignore hc => exact h
  | commit hc hu => exact h
  | hold hdue he => exact fun _ => rfl
  | holdEntry hpc => exact fun _ => h (by rw [hpc]; trivial)
  | holdDecision hpc => exact fun _ => h (by rw [hpc]; trivial)
  | _ => exact nofun

/-- An `ST_Hold` that a client has asked for finds the flag set. -/
structure Flagged (s : Control) : Prop where
  due : s.Due .ST_HOLD → s.evtSrcExternal = true → s.externalHold = true
  hold : s.pc.InHold → s.evtSrcExternal = true → s.externalHold = true

theorem Flagged.step {s s' : Control} {l : Label} (h : s.Flagged) (hsane : s.Sane)
    (hcommit : ∀ c index next, l = .commit c → s.clients c = .looked (.holdScan index) next →
      s.externalHold = true) (hs : Step s l s') : s'.Flagged := by
  obtain ⟨hdue, hhold⟩ := h
  cases hs with
  | begin hc => exact ⟨hdue, hhold⟩
  | storeFlag hc => exact ⟨fun _ _ => rfl, fun _ _ => rfl⟩
  | storeIndex hc => exact ⟨hdue, hhold⟩
  | lookup hc => exact ⟨hdue, hhold⟩
  | ignore hc => exact ⟨hdue, hhold⟩
  | @commit c call next hc hu =>
    refine ⟨fun hd _ => ?_, fun hpc => ?_⟩
    · have hcs := hsane.clients c
      rw [hc] at hcs
      have hnext : next = .ST_HOLD := hd.2.2
      obtain ⟨index, rfl⟩ : ∃ index, call = .holdScan index := by
        have htarget : call.target = .ST_HOLD := hcs.symm.trans hnext
        cases call <;> first | exact ⟨_, rfl⟩ | cases htarget
      exact hcommit c index _ rfl hc
    · have hpc' : s.pc.InHold := hpc
      rcases hu with hu | hu <;> rw [hu] at hpc' <;> cases hpc'
  | load hd => exact ⟨fun _ => nofun, nofun⟩
  | scanEmpty hd => exact ⟨fun _ => nofun, nofun⟩
  | scan hd => exact ⟨fun hd' => absurd hd'.1 nofun, nofun⟩
  | hold hd he => exact ⟨fun hd' => absurd hd'.1 nofun, fun _ => hdue hd⟩
  | receive hd hcur => exact ⟨fun hd' => absurd hd'.1 nofun, nofun⟩
  | manual hd => exact ⟨fun _ _ => rfl, nofun⟩
  | saveAll hd => exact ⟨fun hd' => absurd hd'.1 nofun, nofun⟩
  | stopped hd => exact ⟨fun hd' => absurd hd'.1 nofun, nofun⟩
  | holdEntry hpc =>
    exact ⟨fun hd' => absurd hd'.1 nofun, fun _ => hhold (by rw [hpc]; trivial)⟩
  | holdDecision hpc =>
    exact ⟨fun hd' => absurd hd'.1 nofun, fun _ => hhold (by rw [hpc]; trivial)⟩
  | crash hmay hd => exact ⟨fun hd' => absurd hd'.1 nofun, nofun⟩
  | _ => exact ⟨fun _ => nofun, nofun⟩

end Control

namespace World

open ThreadData

/-- The only way to a silent end of `ST_Hold`. -/
theorem stalls_of_step {w w' : World} {l : Label} (h : Step w l w')
    (hne : w.pc ≠ .holdEvent none) (he : w'.pc = .holdEvent none) : w.Stalls l := by
  have hperform := perform_of_step h
  have hc := control_step h
  generalize hs' : w'.control = s' at hc
  have hpc' : s'.pc = .holdEvent none := by rw [← hs']; exact he
  cases hc with
  | @holdDecision r found next hpc hnext hhold hnone =>
    have hw : w.pc = .holdDecision found := hpc
    refine ⟨found, r, hw, rfl, ?_⟩
    simp only [perform, hw, Pc.InHandler, ↓reduceIte, Option.some.injEq, ScannerSM.resume] at hperform
    cases hd : w.sm.data.holdDecision found w.sm.externalHold w.sm.evtSrcExternal r.now with
    | error f =>
      rw [hd] at hperform
      rw [← hperform] at he
      cases he
    | ok next' =>
      rw [hd] at hperform
      rw [← hperform] at he
      cases he
      exact holdDecision_none_iff.mp hd
  | begin _ => exact absurd hpc' hne
  | storeFlag _ => exact absurd hpc' hne
  | storeIndex _ => exact absurd hpc' hne
  | lookup _ => exact absurd hpc' hne
  | ignore _ => exact absurd hpc' hne
  | commit _ _ => exact absurd hpc' hne
  | _ => cases hpc'

/-- **An event stays pending** along every run in which `ST_Hold` does not stall. -/
theorem event_pending {file : SystemsFile} {demod : Demodulator} {ls : List Label} {w : World}
    (h : Run (Guarded Step fun w l => ¬w.Stalls l) (start file demod) ls w) :
    EventPending ls w := by
  have hlively : w.control.Lively ([] ++ ls) := by
    refine h.history (I := fun pre w => w.control.Lively pre) (P := fun _ => True) ?_
      (fun _ _ => trivial) ⟨fun _ => .inl rfl, nofun⟩
    rintro pre s l t - hi ⟨hs, hok⟩
    exact hi.step (fun he => hok (stalls_of_step hs hi.hold he)) (control_step hs)
  intro hpc h hmem hlast
  rcases hlively.idle hpc with he | hload
  · exact he
  · rw [hload h hlast] at hmem
    simp [raising] at hmem

/-- **Where `ST_Hold` stalls, the machine waits** for a client. -/
theorem waits_of_stalls {file : SystemsFile} {demod : Demodulator} {ls : List Label} {w : World}
    {l : Label} (h : Run Step (start file demod) ls w) (hstall : w.Stalls l) :
    ∃ w', Run Step w [l, l] w' ∧ ¬EventPending (ls ++ [l, l]) w' := by
  obtain ⟨found, r, hpc, rfl, hd⟩ := hstall
  have hlast : (activations ls).getLast? = some .ST_HOLD := by
    have hin : w.control.pc.InHold → (activations ls).getLast? = some .ST_HOLD :=
      control_history (I := fun pre s => s.pc.InHold → (activations pre).getLast? = some .ST_HOLD)
        (P := fun _ => True) (fun _ _ _ _ _ hi hs => hs.inHold hi) h (fun _ _ => trivial) nofun
    exact hin (by rw [show w.control.pc = _ from hpc]; trivial)
  have hquiet : w.sm.eventGenerated = false :=
    (sane_run h).holding (by rw [show w.control.pc = _ from hpc]; trivial)
  have hdecide : Step w (.resume r) { w with pc := .holdEvent none } := by
    have hr : w.sm.resume r (.holdDecision found) = .ok (.holdEvent none, w.sm) := by
      simp only [ScannerSM.resume, bind_eq_ok]
      exact ⟨none, holdDecision_none_iff.mpr hd, rfl⟩
    simp [Step, step, perform, hpc, Pc.InHandler, hr, outcome]
  refine ⟨{ w with pc := .idle, sm := w.sm.finish }, .cons hdecide (.single rfl), fun hpending => ?_⟩
  have hacts : activations (ls ++ [.resume r, .resume r]) = activations ls := by
    simp [activations, Label.activated]
  have he := hpending rfl .ST_HOLD (by decide) (by rw [hacts]; exact hlast)
  exact Bool.false_ne_true (hquiet.symm.trans he)

/-- **With the flag set at every commit of a hold**, `ST_Hold` does not stall. -/
theorem not_stalls_of_flagged {file : SystemsFile} {demod : Demodulator} {ls : List Label}
    {w : World} (h : Run (Guarded Step HoldFlagged) (start file demod) ls w) :
    Run (Guarded Step fun w l => ¬w.Stalls l) (start file demod) ls w := by
  have hgen : ∀ {w₀ w₁ : World} {ls : List Label}, Run (Guarded Step HoldFlagged) w₀ ls w₁ →
      w₀.control.Sane → w₀.control.Flagged →
      Run (Guarded Step fun w l => ¬w.Stalls l) w₀ ls w₁ := by
    intro w₀ w₁ ls hr
    induction hr with
    | nil => exact fun _ _ => .nil _
    | @cons s t u l ls hs _ ih =>
      intro hsane hflag
      have hc := control_step hs.1
      refine .cons ⟨hs.1, ?_⟩ (ih (hsane.step hc) (hflag.step hsane hs.2 hc))
      rintro ⟨found, r, hpc, -, -, hno, hsrc, -⟩
      have hf := hflag.hold (by rw [show s.control.pc = _ from hpc]; trivial) hsrc
      exact Bool.false_ne_true (hno.symm.trans hf)
  exact hgen h (sane_start file demod) ⟨fun _ => nofun, nofun⟩

/-- A scan, a hold and a transmission: an event is always pending. -/
theorem event_pending_prompt :
    EventPending (scanStarted ++ promptHold ++ [.commit 1] ++ transmission)
      ((start oneChannelFile tunedDemod).after
        (scanStarted ++ promptHold ++ [.commit 1] ++ transmission)) :=
  event_pending (guarded_run_after (by decide +kernel))

/-- After the lost hold: no signal, and the delay of the entry has run out long ago. -/
def silentHold : List Label :=
  scanStarted ++ overrunHold ++ [.commit 1, .activate .ST_HOLD, .resume (silence 10000),
    .resume (silence 10000), .resume (silence 10000)]

/-- **A machine that waits** although `ST_Hold` was its last handler. -/
theorem machine_waits :
    ∃ (ls : List Label) (w : World), Run Step (start oneChannelFile tunedDemod) ls w ∧
      (∃ p, w.sm.data.systems.isScannable p = true) ∧ ¬EventPending ls w :=
  ⟨silentHold, (start oneChannelFile tunedDemod).after silentHold, run_after (by decide +kernel),
    ⟨.channel 0 0, by decide +kernel⟩, by decide +kernel⟩

end World

end PiScan.Machine

import PiScan.Machine.Context
import PiScan.Machine.Hold

/-!
# Squelch debouncing

`ST_Scan` raises `ST_RECEIVE` after `SQUELCH_TRIGGER_HITS` hits on one entry.  The
hits are counted across activations, and the count is started anew where
`currentState != lastState` tells that another state came between.

* `scanEntry_hit`: what one `ST_Scan` does to the entry and the count;
* `Counted`: the hits counted are those of the last activations;
* `debounced`: squelch debouncing in every run in which no commit of a `startScan`
  hides a change of state.
-/

namespace PiScan.Machine

open Scan Sigproc Runs

/-! ## One `ST_Scan` -/

/-- `hasSignal` is true where the squelch is open on an entry that is no dummy. -/
theorem hasSignal_found {e : Entry} {signal found : Bool} {demod demod' : Demodulator}
    (h : hasSignal e signal demod = .ok (found, demod')) : found = (!e.isDummy && signal) := by
  have hmet : ∀ {d : Demodulator}, d.squelchThresholdMet signal = .ok (found, demod') →
      found = signal := by
    intro d hd
    unfold Demodulator.squelchThresholdMet at hd
    split at hd
    · cases hd
    · exact (Prod.mk.inj (Except.ok.inj hd)).1.symm
  unfold hasSignal at h
  cases htype : e.type with
  | dummy =>
    simp only [htype, bind_eq_ok, pure_eq_ok, Prod.mk.injEq] at h
    obtain ⟨d, -, rfl, -⟩ := h
    simp [Entry.isDummy, htype]
  | am =>
    simp only [htype, bind_eq_ok] at h
    obtain ⟨d₁, -, d₂, -, hd⟩ := h
    simp [Entry.isDummy, htype, hmet hd]
  | fm =>
    simp only [htype, bind_eq_ok] at h
    obtain ⟨d₁, -, d₂, -, hd⟩ := h
    simp [Entry.isDummy, htype, hmet hd]
  | pl s_tone =>
    simp only [htype, bind_eq_ok] at h
    obtain ⟨d₁, -, d₂, -, hd⟩ := h
    simp [Entry.isDummy, htype, hmet hd]
  | dc s_code =>
    simp only [htype, bind_eq_ok] at h
    obtain ⟨d₁, -, d₂, -, hd⟩ := h
    simp [Entry.isDummy, htype, hmet hd]

namespace ThreadData

variable {d d' : ThreadData}

/-- The squelch is open on the entry `p`, which is no dummy. -/
def Hears (d : ThreadData) (p : EntryPtr) (signal : Bool) : Prop :=
  (d.systems.deref p).isDummy = false ∧ signal = true

/-- `getNextEntry` has yielded the current entry and the list as it is now. -/
def Takes (d d' : ThreadData) (p : EntryPtr) : Prop :=
  d.systems.getNextEntry 64 = .ok (p, d'.systems) ∧ d'.currentEntry = some p

/-- **One `ST_Scan`**: without hits it takes the next entry, else it stays; a hit is
counted, and else the count is reset. -/
theorem scanEntry_hit {changed signal : Bool} {next : States}
    (h : d.scanEntry changed signal = .ok (next, d')) :
    ∃ p, d'.currentEntry = some p ∧
      ((d.squelchHits = 0 ∨ changed = true) ∧ Takes d d' p ∨
        (d.squelchHits ≠ 0 ∧ changed = false) ∧ d.currentEntry = some p ∧
          d'.systems = d.systems) ∧
      (d'.Hears p signal ∧ d'.squelchHits = d.squelchHits + 1 ∧
          next = (if SQUELCH_TRIGGER_HITS ≤ d.squelchHits + 1 then .ST_RECEIVE else .ST_SCAN) ∨
        ¬d'.Hears p signal ∧ d'.squelchHits = 0 ∧ next = .ST_SCAN) := by
  simp only [scanEntry, bind_eq_ok, Prod.exists] at h
  obtain ⟨d₁, h₁, d₂, h₂, found, d₃, h₃, h₄⟩ := h
  have hk₁ := onlyIf_keeps broadcastContextUpdate_keeps h₁
  simp only [entrySignal, bind_eq_ok, pure_eq_ok, Prod.exists, Prod.mk.injEq] at h₃
  obtain ⟨e, he, found', demod, hsignal, rfl, rfl⟩ := h₃
  -- the entry after the first two steps
  have htake : ∃ p, d₂.currentEntry = some p ∧ d₂.squelchHits = d.squelchHits ∧
      ((d.squelchHits = 0 ∨ changed = true) ∧ d.systems.getNextEntry 64 = .ok (p, d₂.systems) ∨
        (d.squelchHits ≠ 0 ∧ changed = false) ∧ d.currentEntry = some p ∧
          d₂.systems = d.systems) := by
    unfold onlyIf at h₂
    split at h₂
    · rename_i hnext
      simp only [nextEntry, bind_eq_ok, pure_eq_ok, Prod.exists] at h₂
      obtain ⟨p, sl, hsl, rfl⟩ := h₂
      rw [hk₁.systems] at hsl
      rw [hk₁.squelchHits] at hnext
      exact ⟨p, rfl, hk₁.squelchHits, .inl ⟨by simpa using hnext, hsl⟩⟩
    · rename_i hno
      obtain rfl := Except.ok.inj h₂
      rw [hk₁.squelchHits] at hno
      obtain ⟨p, hp⟩ := Option.isSome_iff_exists.mp (isSome_of_entry he)
      exact ⟨p, hp, hk₁.squelchHits,
        .inr ⟨by simpa using hno, hk₁.currentEntry.symm.trans hp, hk₁.systems⟩⟩
  obtain ⟨p, hp, hhits, htake⟩ := htake
  have hentry : d₂.systems.deref p = e := by
    rw [entry, hp] at he
    exact Except.ok.inj he
  have hfound := hasSignal_found hsignal
  rw [← hentry] at hfound
  cases found' with
  | true =>
    simp only [if_true, pure_eq_ok, Prod.mk.injEq] at h₄
    obtain ⟨rfl, rfl⟩ := h₄
    refine ⟨p, hp, ?_, .inl ⟨by simpa [Hears] using hfound.symm, by simp [hhits], by simp [hhits]⟩⟩
    rcases htake with ⟨hor, hsl⟩ | ⟨hand, hcur, hsame⟩
    · exact .inl ⟨hor, hsl, hp⟩
    · exact .inr ⟨hand, hcur, hsame⟩
  | false =>
    simp only [Bool.false_eq_true, if_false, pure_eq_ok, Prod.mk.injEq] at h₄
    obtain ⟨rfl, rfl⟩ := h₄
    refine ⟨p, hp, ?_, .inr ⟨?_, rfl, rfl⟩⟩
    · rcases htake with ⟨hor, hsl⟩ | ⟨hand, hcur, hsame⟩
      · exact .inl ⟨hor, hsl, hp⟩
      · exact .inr ⟨hand, hcur, hsame⟩
    · rintro ⟨hd, hs⟩
      rw [hd, hs] at hfound
      cases hfound

end ThreadData

/-- The event that the commit of a client raises. -/
def ClientPc.toCommit : ClientPc → Option States
  | looked _ next => next
  | _ => none

namespace World

variable {s₀ w w' : World} {l : Label} {p : EntryPtr} {n : Nat} {pre : List Label}

/-! ## The last activations -/

/-- The step ends an `ST_Scan` on the entry `p` with `hasSignal()` true. -/
def Hit (p : EntryPtr) (r : ScannerSM.Reading) (w' : World) : Prop :=
  w'.sm.data.currentEntry = some p ∧ w'.sm.data.Hears p r.signal

/-- A step, which is a hit on `p` if it ends an `ST_Scan`. -/
def HitStep (p : EntryPtr) (w : World) (l : Label) (w' : World) : Prop :=
  Step w l w' ∧ ∀ r, l = .resume r → w.pc = .scan → Hit p r w'

/-- The last `n` activations of the steps `pre` from `s₀` were all `ST_Scan`, with
hits on the entry `p`. -/
def Streak (s₀ : World) (p : EntryPtr) (n : Nat) (pre : List Label) (w : World) : Prop :=
  ∃ before after mid, pre = before ++ after ∧ Run Step s₀ before mid ∧ mid.pc.Unlocked ∧
    activations after = List.replicate n .ST_SCAN ∧ Run (HitStep p) mid after w

theorem streak_zero (h : Run Step s₀ pre w) (hu : w.pc.Unlocked) (p : EntryPtr) :
    Streak s₀ p 0 pre w :=
  ⟨pre, [], w, (List.append_nil pre).symm, h, hu, rfl, .nil w⟩

theorem Streak.snoc (h : Streak s₀ p n pre w) (hs : HitStep p w l w') (hl : l.activated = none) :
    Streak s₀ p n (pre ++ [l]) w' := by
  obtain ⟨before, after, mid, rfl, hbefore, hu, hacts, hafter⟩ := h
  refine ⟨before, after ++ [l], mid, List.append_assoc .., hbefore, hu, ?_, hafter.snoc hs⟩
  rw [activations_concat_of_none _ hl, hacts]

theorem Streak.start (h : Streak s₀ p n pre w) (hs : Step w (.activate .ST_SCAN) w') :
    Streak s₀ p (n + 1) (pre ++ [.activate .ST_SCAN]) w' := by
  obtain ⟨before, after, mid, rfl, hbefore, hu, hacts, hafter⟩ := h
  refine ⟨before, after ++ [.activate .ST_SCAN], mid, List.append_assoc .., hbefore, hu, ?_,
    hafter.snoc ⟨hs, by rintro r ⟨⟩⟩⟩
  rw [activations_append, hacts, activations_singleton, List.replicate_succ']
  rfl

/-! ## The count -/

/-- The hits counted, fewer than it takes, are those of the last activations. -/
def Tallies (s₀ : World) (pre : List Label) (w : World) (started : Nat) : Prop :=
  w.sm.data.squelchHits ≠ 0 → w.sm.data.squelchHits < SQUELCH_TRIGGER_HITS ∧
    ∃ p, w.sm.data.currentEntry = some p ∧
      Streak s₀ p (w.sm.data.squelchHits + started) pre w

/-- What the count says, in `ST_Scan` and before the next one. -/
structure Counted (s₀ : World) (pre : List Label) (w : World) : Prop where
  run : Run Step s₀ pre w
  scanning : w.pc = .scan → w.sm.currentState = .ST_SCAN ∧
    (w.sm.stateChanged = true → w.sm.data.squelchHits = 0) ∧
    (∀ p, Streak s₀ p 1 pre w) ∧ Tallies s₀ pre w 1
  between : w.pc.Unlocked → w.sm.currentState = .ST_SCAN → w.sm.lastState = .ST_SCAN →
    Tallies s₀ pre w 0
  holding : w.pc.InHold → w.sm.currentState = .ST_HOLD

/-- A commit of `ST_SCAN` that hides a change of state: `ST_SCAN` is pending already,
from another state, and there are hits to forget. -/
def Hides (w : World) : Label → Prop
  | .commit c => (w.clients c).toCommit = some .ST_SCAN ∧ w.sm.currentState = .ST_SCAN ∧
      w.sm.lastState ≠ .ST_SCAN ∧ w.sm.data.squelchHits ≠ 0
  | _ => False

instance (w : World) : DecidablePred w.Hides
  | .commit c => inferInstanceAs (Decidable ((w.clients c).toCommit = some .ST_SCAN ∧
      w.sm.currentState = .ST_SCAN ∧ w.sm.lastState ≠ .ST_SCAN ∧ w.sm.data.squelchHits ≠ 0))
  | .begin _ _ | .storeFlag _ | .storeIndex _ | .lookup _ | .ignore _ | .activate _ | .resume _ =>
    inferInstanceAs (Decidable False)

/-- A step outside `ST_Scan` that starts no handler and raises no event. -/
theorem Counted.quiet (h : Counted s₀ pre w) (hs : Step w l w') (hl : l.activated = none)
    (hr : ∀ r, l = .resume r → w.pc ≠ .scan) (hpc : w'.pc = w.pc) (hdata : w'.sm.data = w.sm.data)
    (hm : w'.sm.toStateMachine = w.sm.toStateMachine) : Counted s₀ (pre ++ [l]) w' := by
  have hhit : ∀ p, HitStep p w l w' := fun p => ⟨hs, fun r hlr hscan => absurd hscan (hr r hlr)⟩
  have htallies : ∀ {n : Nat}, Tallies s₀ pre w n → Tallies s₀ (pre ++ [l]) w' n := by
    intro n ht hne
    rw [hdata] at hne ⊢
    obtain ⟨hlt, p, hp, hstreak⟩ := ht hne
    exact ⟨hlt, p, hp, hstreak.snoc (hhit p) hl⟩
  refine ⟨h.run.snoc hs, fun hscan => ?_, fun hu => ?_, fun hin => ?_⟩
  · rw [hpc] at hscan
    obtain ⟨hcur, hzero, hone, ht⟩ := h.scanning hscan
    rw [hm, hdata]
    exact ⟨hcur, hzero, fun p => (hone p).snoc (hhit p) hl, htallies ht⟩
  · rw [hpc] at hu
    rw [hm]
    exact fun hcur hlast => htallies (h.between hu hcur hlast)
  · rw [hpc] at hin
    rw [hm]
    exact h.holding hin

/-- A step to where nothing is said of the count. -/
theorem Counted.other (h : Counted s₀ pre w) (hs : Step w l w') (hscan : w'.pc ≠ .scan)
    (hidle : w'.pc.Unlocked → w'.sm.currentState = .ST_SCAN → w'.sm.lastState = .ST_SCAN → False)
    (hin : w'.pc.InHold → w'.sm.currentState = .ST_HOLD) : Counted s₀ (pre ++ [l]) w' :=
  ⟨h.run.snoc hs, fun h => absurd h hscan, fun hu hcur hlast => (hidle hu hcur hlast).elim, hin⟩

theorem Counted.step (h : Counted s₀ pre w) (hs : Step w l w') (hok : ¬w.Hides l) :
    Counted s₀ (pre ++ [l]) w' := by
  have hmoves := moves_of_step hs
  cases hmoves with
  | begin hc => exact h.quiet hs rfl (by rintro r ⟨⟩) rfl rfl rfl
  | storeFlag hc => exact h.quiet hs rfl (by rintro r ⟨⟩) rfl rfl rfl
  | storeIndex hc => exact h.quiet hs rfl (by rintro r ⟨⟩) rfl rfl rfl
  | lookup hc => exact h.quiet hs rfl (by rintro r ⟨⟩) rfl rfl rfl
  | ignore hc => exact h.quiet hs rfl (by rintro r ⟨⟩) rfl rfl rfl
  | @commit c call next hc hu =>
    refine ⟨h.run.snoc hs, fun hscan => ?_, fun _ hnext hcur hne => ?_, fun hin => ?_⟩
    · have hpc : w.pc = .scan := hscan
      rcases hu with hu | hu <;> rw [hpc] at hu <;> cases hu
    · replace hnext : next = .ST_SCAN := hnext
      replace hcur : w.sm.currentState = .ST_SCAN := hcur
      replace hne : w.sm.data.squelchHits ≠ 0 := hne
      subst hnext
      have hlast : w.sm.lastState = .ST_SCAN := by
        by_contra hlast
        exact hok ⟨by rw [hc]; rfl, hcur, hlast, hne⟩
      obtain ⟨hlt, p, hp, hstreak⟩ := h.between hu hcur hlast hne
      exact ⟨hlt, p, hp, hstreak.snoc ⟨hs, by rintro r ⟨⟩⟩ rfl⟩
    · have hin' : w.pc.InHold := hin
      rcases hu with hu | hu <;> rw [hu] at hin' <;> cases hin'
  | load hdue hd =>
    refine h.other hs (by rintro ⟨⟩) (fun _ hcur => ?_) (by rintro ⟨⟩)
    have hload : w.sm.currentState = .ST_LOAD := hdue.2.2
    exact absurd (hload.symm.trans hcur) (by decide)
  | scanEmpty hdue hempty =>
    exact h.other hs (by rintro ⟨⟩) (by rintro - ⟨⟩) (by rintro ⟨⟩)
  | @scan d hdue hsome hd =>
    simp only [ThreadData.scanStart, ThreadData.enableAudioOut, bind_eq_ok, pure_eq_ok] at hd
    obtain ⟨d₁, ⟨demod, -, rfl⟩, rfl⟩ := hd
    have hu : w.pc.Unlocked := .inl hdue.1
    refine ⟨h.run.snoc hs, fun _ => ⟨hdue.2.2, fun hchanged => ?_, fun p => ?_, fun hne => ?_⟩,
      ?_, by rintro ⟨⟩⟩
    · exact if_pos hchanged
    · exact (streak_zero h.run hu p).start hs
    · -- the count is not reset, so the last event came from `ST_Scan`
      have hsame : w.sm.stateChanged = false := by
        by_contra hchanged
        exact hne (if_pos (by simpa using hchanged))
      have hhits : (w.sm.data.resetHits w.sm.stateChanged).squelchHits = w.sm.data.squelchHits := by
        rw [hsame]
        rfl
      have hne' : w.sm.data.squelchHits ≠ 0 := by
        rw [← hhits]
        exact hne
      have hlast : w.sm.lastState = .ST_SCAN := by
        have heq : w.sm.currentState = w.sm.lastState := by
          simpa [StateMachine.stateChanged] using hsame
        rw [← heq]
        exact hdue.2.2
      obtain ⟨hlt, p, hp, hstreak⟩ := h.between hu hdue.2.2 hlast hne'
      show (w.sm.data.resetHits w.sm.stateChanged).squelchHits < _ ∧ _
      refine ⟨by rw [hhits]; exact hlt, p, hp, ?_⟩
      have hstart := hstreak.start hs
      rw [← hhits] at hstart
      exact hstart
    · rintro (hpc | hpc) <;> cases hpc
  | holdIndex hdue hflag hindex hd =>
    exact h.other hs (by rintro ⟨⟩) (by rintro (hpc | hpc) <;> cases hpc) fun _ => hdue.2.2
  | hold hdue hno =>
    exact h.other hs (by rintro ⟨⟩) (by rintro (hpc | hpc) <;> cases hpc) fun _ => hdue.2.2
  | receive hdue he hd =>
    exact h.other hs (by rintro ⟨⟩) (by rintro (hpc | hpc) <;> cases hpc) (by rintro ⟨⟩)
  | manual hdue hdata =>
    exact h.other hs (by rintro ⟨⟩) (by rintro (hpc | hpc) <;> cases hpc) (by rintro ⟨⟩)
  | saveAll hdue hd =>
    exact h.other hs (by rintro ⟨⟩) (by rintro (hpc | hpc) <;> cases hpc) (by rintro ⟨⟩)
  | stopped hdue =>
    refine h.other hs (by rintro ⟨⟩) (fun _ hcur => ?_) (by rintro ⟨⟩)
    have hstopped : w.sm.currentState = .ST_STOPPED := hdue.2.2
    exact absurd (hstopped.symm.trans hcur) (by decide)
  | @scanEnd r next d hpc hd =>
    obtain ⟨hcur, hzero, hone, ht⟩ := h.scanning hpc
    obtain ⟨p, hp, hentry, hhit⟩ := ThreadData.scanEntry_hit hd
    refine ⟨h.run.snoc hs, by rintro ⟨⟩, fun _ hnext _ hne => ?_, by rintro ⟨⟩⟩
    replace hnext : next = .ST_SCAN := hnext
    replace hne : d.squelchHits ≠ 0 := hne
    rcases hhit with ⟨hhears, hhits, hraise⟩ | ⟨-, hnone, -⟩
    · have hlt : w.sm.data.squelchHits + 1 < SQUELCH_TRIGGER_HITS := by
        rw [hnext] at hraise
        by_contra hge
        rw [if_pos (by omega)] at hraise
        cases hraise
      have hstep : HitStep p w (.resume r) _ := ⟨hs, fun r' hr _ => by
        cases hr
        exact ⟨hp, hhears⟩⟩
      show d.squelchHits < _ ∧ ∃ p', d.currentEntry = some p' ∧ Streak s₀ p' (d.squelchHits + 0) _ _
      rw [hhits]
      refine ⟨hlt, p, hp, ?_⟩
      by_cases hfirst : w.sm.data.squelchHits = 0
      · rw [hfirst]
        exact (hone p).snoc hstep rfl
      · rcases hentry with ⟨hor, -⟩ | ⟨-, hsame, -⟩
        · exact absurd (hor.elim id hzero) hfirst
        · obtain ⟨-, p', hp', hstreak⟩ := ht hfirst
          obtain rfl := Option.some.inj (hsame.symm.trans hp')
          exact hstreak.snoc hstep rfl
    · exact absurd hnone hne
  | holdEntry hpc hd =>
    exact h.other hs (by rintro ⟨⟩) (by rintro (hpc | hpc) <;> cases hpc)
      fun _ => h.holding (by rw [hpc]; trivial)
  | holdDecision hpc hd =>
    exact h.other hs (by rintro ⟨⟩) (by rintro (hpc | hpc) <;> cases hpc)
      fun _ => h.holding (by rw [hpc]; trivial)
  | @holdEvent r next hpc =>
    refine h.other hs (by rintro ⟨⟩) (fun _ _ hlast => ?_) (by rintro ⟨⟩)
    have hhold := h.holding (by rw [hpc]; trivial)
    exact absurd (hhold.symm.trans hlast) (by decide)
  | holdQuiet hpc =>
    refine h.other hs (by rintro ⟨⟩) (fun _ hcur => ?_) (by rintro ⟨⟩)
    have hhold := h.holding (by rw [hpc]; trivial)
    exact absurd (hhold.symm.trans hcur) (by decide)
  | @receiveEnd r next d hpc hd =>
    refine h.other hs (by rintro ⟨⟩) (fun _ hcur => ?_) (by rintro ⟨⟩)
    replace hcur : next = .ST_SCAN := hcur
    rcases (ThreadData.receiveEntry_keeps hd).2 with rfl | rfl <;> cases hcur
  | manualEnd hpc => exact h.other hs (by rintro ⟨⟩) (by rintro - ⟨⟩) (by rintro ⟨⟩)
  | saveAllEnd hpc => exact h.other hs (by rintro ⟨⟩) (by rintro - ⟨⟩) (by rintro ⟨⟩)
  | crash hfault =>
    exact h.other hs (by rintro ⟨⟩) (by rintro (hpc | hpc) <;> cases hpc) (by rintro ⟨⟩)

/-! ## Between two `ST_Scan` -/

/-- The start of an `ST_Scan` is the only way into it. -/
theorem pc_ne_scan (hs : Step w l w') (hpc : w.pc ≠ .scan) (hl : l ≠ .activate .ST_SCAN) :
    w'.pc ≠ .scan := by
  rcases step_cases hs with hclient | ⟨a, rfl, hmoves⟩ | ⟨r, rfl, hmoves⟩
  · rwa [hclient.pc]
  · cases hmoves with
    | scan => exact absurd rfl hl
    | _ => rintro ⟨⟩
  · cases hmoves with
    | _ => rintro ⟨⟩

/-- A step from `ST_Scan` that stays there is a client's. -/
theorem data_of_scan (hs : Step w l w') (hpc : w.pc = .scan) (hpc' : w'.pc = .scan) :
    w'.sm.data = w.sm.data := by
  rcases step_cases hs with hclient | ⟨a, rfl, hmoves⟩ | ⟨r, rfl, hmoves⟩
  · exact hclient.data
  · cases hmoves with
    | scan hdue =>
      have hidle := hdue.1
      rw [hpc] at hidle
      cases hidle
    | _ => cases hpc'
  · cases hmoves with
    | _ => cases hpc'

/-- Outside `ST_Scan` no hits are counted. -/
theorem squelchHits_step (hs : Step w l w') (hpc : w.pc ≠ .scan)
    (hzero : w.sm.data.squelchHits = 0) : w'.sm.data.squelchHits = 0 := by
  have hreset : ∀ changed, (w.sm.data.resetHits changed).squelchHits = 0 := by
    intro changed
    simp [ThreadData.resetHits, hzero]
  rcases step_cases hs with hclient | ⟨a, rfl, hmoves⟩ | ⟨r, rfl, hmoves⟩
  · rwa [hclient.data]
  · cases hmoves with
    | load hdue hd =>
      simp only [ThreadData.load, bind_eq_ok, pure_eq_ok] at hd
      obtain ⟨sl, -, sl', -, rfl⟩ := hd
      exact hzero
    | scanEmpty => exact hreset _
    | scan hdue hsome hd =>
      simp only [ThreadData.scanStart, ThreadData.enableAudioOut, bind_eq_ok, pure_eq_ok] at hd
      obtain ⟨d₁, ⟨demod, -, rfl⟩, rfl⟩ := hd
      exact hreset _
    | holdIndex hdue hflag hindex hd =>
      exact (ThreadData.indexEntry_scans hd).1.squelchHits.trans hzero
    | receive hdue he hd => exact (ThreadData.enterState_keeps hd).squelchHits.trans hzero
    | saveAll hdue hd =>
      obtain ⟨state, -, rfl⟩ := ThreadData.saveAll_spec hd
      exact hzero
    | _ => exact hzero
  · cases hmoves with
    | scanEnd hpc' => exact absurd hpc' hpc
    | holdEntry hpc' hd => exact (ThreadData.holdEntry_scans hd).1.squelchHits.trans hzero
    | receiveEnd hpc' hd => exact (ThreadData.receiveEntry_keeps hd).1.squelchHits.trans hzero
    | _ => exact hzero

/-- The hits until the next `ST_Scan` and in it. -/
def Forgotten (pre : List Label) (w : World) : Prop :=
  ((activations pre).count .ST_SCAN = 0 → w.pc ≠ .scan ∧ w.sm.data.squelchHits = 0) ∧
    ((activations pre).count .ST_SCAN = 1 → w.pc = .scan → w.sm.data.squelchHits = 0)

theorem Forgotten.step (h : w.Forgotten pre) (hs : Step w l w') : w'.Forgotten (pre ++ [l]) := by
  obtain ⟨hbefore, hin⟩ := h
  by_cases hscan : l = .activate .ST_SCAN
  · subst hscan
    have hcount : (activations (pre ++ [.activate .ST_SCAN])).count .ST_SCAN =
        (activations pre).count .ST_SCAN + 1 := by
      simp [Label.activated]
    rw [Forgotten, hcount]
    refine ⟨fun hz => absurd hz (Nat.succ_ne_zero _), fun hone _ => ?_⟩
    obtain ⟨hpc, hzero⟩ := hbefore (by omega)
    exact squelchHits_step hs hpc hzero
  · have hcount : (activations (pre ++ [l])).count .ST_SCAN = (activations pre).count .ST_SCAN := by
      cases l <;> simp_all [Label.activated]
    rw [Forgotten, hcount]
    refine ⟨fun hz => ?_, fun hone hpc' => ?_⟩
    · obtain ⟨hpc, hzero⟩ := hbefore hz
      exact ⟨pc_ne_scan hs hpc hscan, squelchHits_step hs hpc hzero⟩
    · have hpc : w.pc = .scan := by
        by_contra hpc
        exact pc_ne_scan hs hpc hscan hpc'
      rw [data_of_scan hs hpc hpc']
      exact hin hone hpc

/-- A client's step that is no commit. -/
theorem quiet_step (hs : Step w l w') (hl : l.client.isSome = true) (hc : ∀ c, l ≠ .commit c) :
    w'.pc = w.pc ∧ w'.sm.data = w.sm.data ∧ w'.sm.toStateMachine = w.sm.toStateMachine ∧
      l.activated = none := by
  cases moves_of_step hs with
  | begin => exact ⟨rfl, rfl, rfl, rfl⟩
  | storeFlag => exact ⟨rfl, rfl, rfl, rfl⟩
  | storeIndex => exact ⟨rfl, rfl, rfl, rfl⟩
  | lookup => exact ⟨rfl, rfl, rfl, rfl⟩
  | ignore => exact ⟨rfl, rfl, rfl, rfl⟩
  | commit => exact absurd rfl (hc _)
  | crash hfault => rcases hfault with ⟨a, rfl, -⟩ | ⟨r, rfl, -⟩ <;> cases hl
  | _ => cases hl

theorem label_cases (l : Label) :
    l.client.isSome = true ∨ (∃ a, l = .activate a) ∨ ∃ r, l = .resume r := by
  cases l with
  | activate a => exact .inr (.inl ⟨a, rfl⟩)
  | resume r => exact .inr (.inr ⟨r, rfl⟩)
  | _ => exact .inl rfl

/-- Without a commit, the next activation is an `ST_Scan` that stays on `p`. -/
def Staying (p : EntryPtr) (pre : List Label) (w : World) : Prop :=
  (activations pre = [] ∧ w.pc = .idle ∧ w.sm.currentState = .ST_SCAN ∧
      w.sm.lastState = .ST_SCAN ∧ w.sm.data.squelchHits ≠ 0 ∧ w.sm.data.currentEntry = some p) ∨
    (activations pre = [.ST_SCAN] ∧ w.pc = .scan ∧ w.sm.stateChanged = false ∧
      w.sm.data.squelchHits ≠ 0 ∧ w.sm.data.currentEntry = some p) ∨
    ∃ rest, activations pre = .ST_SCAN :: rest ∧ (rest = [] → w.pc ≠ .scan)

theorem Staying.step (h : w.Staying p pre) (hs : Step w l w') (hl : ∀ c, l ≠ .commit c) :
    w'.Staying p (pre ++ [l]) := by
  unfold Staying
  rw [activations_append, activations_singleton]
  rcases h with ⟨hnone, hpc, hcur, hlast, hne, hp⟩ | ⟨hone, hpc, hsame, hne, hp⟩ |
    ⟨rest, hacts, hrest⟩
  · rw [hnone]
    rcases label_cases l with hclient | ⟨a, rfl⟩ | ⟨r, rfl⟩
    · obtain ⟨hpc', hdata, hm, hact⟩ := quiet_step hs hclient hl
      refine .inl ⟨by rw [hact]; rfl, hpc'.trans hpc, ?_⟩
      rw [hm, hdata]
      exact ⟨hcur, hlast, hne, hp⟩
    · cases moves_of_step hs with
      | scan hdue hsome hd =>
        simp only [ThreadData.scanStart, ThreadData.enableAudioOut, bind_eq_ok, pure_eq_ok] at hd
        obtain ⟨d₁, ⟨demod, -, rfl⟩, rfl⟩ := hd
        have hsame : w.sm.stateChanged = false := by
          simp [StateMachine.stateChanged, hcur, hlast]
        refine .inr (.inl ⟨rfl, rfl, hsame, ?_, hp⟩)
        show (w.sm.data.resetHits w.sm.stateChanged).squelchHits ≠ 0
        rw [hsame]
        exact hne
      | scanEmpty => exact .inr (.inr ⟨[], rfl, fun _ => by rintro ⟨⟩⟩)
      | crash hfault =>
        rcases hfault with ⟨b, hb, hdue, -⟩ | ⟨r, hr, -⟩
        · cases hb
          obtain rfl := hdue.2.2.symm.trans hcur
          exact .inr (.inr ⟨[], rfl, fun _ => by rintro ⟨⟩⟩)
        · cases hr
      | load hdue => exact absurd (hcur.symm.trans hdue.2.2) (by decide)
      | holdIndex hdue => exact absurd (hcur.symm.trans hdue.2.2) (by decide)
      | hold hdue => exact absurd (hcur.symm.trans hdue.2.2) (by decide)
      | receive hdue => exact absurd (hcur.symm.trans hdue.2.2) (by decide)
      | manual hdue => exact absurd (hcur.symm.trans hdue.2.2) (by decide)
      | saveAll hdue => exact absurd (hcur.symm.trans hdue.2.2) (by decide)
      | stopped hdue => exact absurd (hcur.symm.trans hdue.2.2) (by decide)
    · -- no handler runs
      have hin : w.pc.InHandler := by
        have hp := perform_of_step hs
        simp only [perform, Option.ite_none_right_eq_some] at hp
        exact hp.1
      rw [hpc] at hin
      cases hin
  · rcases label_cases l with hclient | ⟨a, rfl⟩ | ⟨r, rfl⟩
    · obtain ⟨hpc', hdata, hm, hact⟩ := quiet_step hs hclient hl
      refine .inr (.inl ⟨by rw [hone, hact]; rfl, hpc'.trans hpc, ?_⟩)
      rw [hm, hdata]
      exact ⟨hsame, hne, hp⟩
    · exact .inr (.inr ⟨[a], by rw [hone]; rfl, by rintro ⟨⟩⟩)
    · refine .inr (.inr ⟨[], by rw [hone]; rfl, fun _ => ?_⟩)
      cases moves_of_step hs with
      | _ => rintro ⟨⟩
  · refine .inr (.inr ⟨rest ++ l.activated.toList, by rw [hacts]; rfl, fun hnil => ?_⟩)
    obtain ⟨rfl, hl'⟩ := List.append_eq_nil_iff.mp hnil
    refine pc_ne_scan hs (hrest rfl) ?_
    rintro rfl
    cases hl'

/-! ## Debouncing -/

/-- Squelch debouncing in the state `w` that the steps `ls` have reached.  If an
`ST_Scan` ends there
* raising `ST_RECEIVE`, then the last activations were all `ST_Scan` with hits on one
  entry (`received`);
* without a hit, then the count is reset and the next `ST_Scan` takes the next entry
  (`missed`);
* with a hit that is not the last it takes, then, unless a client commits an event,
  the next activation is an `ST_Scan` on the same entry (`kept`). -/
structure Debounced (s₀ : World) (ls : List Label) (w : World) : Prop where
  received : ∀ r w', w.pc = .scan → Step w (.resume r) w' → w'.pc = .idle →
    w'.sm.currentState = .ST_RECEIVE →
      ∃ p, Streak s₀ p SQUELCH_TRIGGER_HITS (ls ++ [.resume r]) w'
  missed : ∀ r w', w.pc = .scan → Step w (.resume r) w' → w'.pc = .idle → (∀ p, ¬Hit p r w') →
    w'.sm.data.squelchHits = 0 ∧ ∀ ls' v r' v', Run Step w' ls' v →
      (activations ls').count .ST_SCAN = 1 → v.pc = .scan → Step v (.resume r') v' →
      v'.pc = .idle → ∃ p, v.sm.data.Takes v'.sm.data p
  kept : ∀ r w' p, w.pc = .scan → Step w (.resume r) w' → w'.pc = .idle → Hit p r w' →
    w'.sm.currentState = .ST_SCAN → ∀ ls' v a, Run Step w' ls' v → (∀ c, .commit c ∉ ls') →
      activations ls' = [a] → a = .ST_SCAN ∧ ∀ r' v', v.pc = .scan → Step v (.resume r') v' →
        v'.pc = .idle → v'.sm.data.currentEntry = some p

/-- The end of an `ST_Scan`. -/
theorem scanEnd_of_step {r : ScannerSM.Reading} (hs : Step w (.resume r) w') (hpc : w.pc = .scan)
    (hpc' : w'.pc = .idle) : ∃ next d,
      w.sm.data.scanEntry w.sm.stateChanged r.signal = .ok (next, d) ∧
        w' = w.go .idle (ScannerSM.raise next { w.sm with data := d }) := by
  cases moves_of_step hs with
  | scanEnd _ hd => exact ⟨_, _, hd, rfl⟩
  | holdEvent hpc₁ => rw [hpc] at hpc₁; cases hpc₁
  | holdQuiet hpc₁ => rw [hpc] at hpc₁; cases hpc₁
  | receiveEnd hpc₁ => rw [hpc] at hpc₁; cases hpc₁
  | manualEnd hpc₁ => rw [hpc] at hpc₁; cases hpc₁
  | saveAllEnd hpc₁ => rw [hpc] at hpc₁; cases hpc₁
  | _ => cases hpc'

theorem counted_start (file : SystemsFile) (demod : Demodulator) :
    Counted (start file demod) [] (start file demod) :=
  ⟨.nil _, by rintro ⟨⟩, by rintro - ⟨⟩, by rintro ⟨⟩⟩

/-- **The hits counted are those of the last activations**, in every run in which no
commit hides a change of state. -/
theorem counted_run {file : SystemsFile} {demod : Demodulator} {ls : List Label} {w : World}
    (h : Run (Guarded Step fun w l => ¬w.Hides l) (start file demod) ls w) :
    Counted (start file demod) ls w := by
  have hr := h.history (I := Counted (start file demod)) (P := fun _ => True)
    (fun pre s l t _ hc hs => hc.step hs.1 hs.2) (fun _ _ => trivial) (counted_start file demod)
  rwa [List.nil_append] at hr

theorem Forgotten.run {ls : List Label} (h : Run Step w ls w') (hpc : w.pc ≠ .scan)
    (hzero : w.sm.data.squelchHits = 0) : w'.Forgotten ls := by
  have hnow : w.Forgotten [] := ⟨fun _ => ⟨hpc, hzero⟩, fun hone => absurd hone (by decide)⟩
  have hr := h.history (I := fun pre w => Forgotten pre w) (P := fun _ => True)
    (fun pre s l t _ hf hs => hf.step hs) (fun _ _ => trivial) hnow
  rwa [List.nil_append] at hr

theorem Staying.run {ls : List Label} (h : Run Step w ls w') (hls : ∀ c, .commit c ∉ ls)
    (hw : w.Staying p []) : w'.Staying p ls := by
  have hr := h.history (I := fun pre w => Staying p pre w) (P := fun l => ∀ c, l ≠ .commit c)
    (fun pre s l t hl hst hs => hst.step hs hl)
    (fun l hl c hc => hls c (hc ▸ hl)) hw
  rwa [List.nil_append] at hr

/-- Where the count is right, debouncing works. -/
theorem Counted.debounces (h : Counted s₀ pre w) : Debounced s₀ pre w := by
  refine ⟨?_, ?_, ?_⟩
  · intro r w' hpc hs hpc' hraised
    obtain ⟨next, d, hd, rfl⟩ := scanEnd_of_step hs hpc hpc'
    obtain ⟨-, hzero, -, ht⟩ := h.scanning hpc
    obtain ⟨p, hp, hentry, hhit⟩ := ThreadData.scanEntry_hit hd
    replace hraised : next = .ST_RECEIVE := hraised
    rcases hhit with ⟨hhears, -, hraise⟩ | ⟨-, -, hscan⟩
    · have hge : SQUELCH_TRIGGER_HITS ≤ w.sm.data.squelchHits + 1 := by
        rw [hraised] at hraise
        by_contra hlt
        rw [if_neg hlt] at hraise
        cases hraise
      have hne : w.sm.data.squelchHits ≠ 0 := by
        intro hz
        rw [hz] at hge
        exact absurd hge (by decide)
      obtain ⟨hlt, p', hp', hstreak⟩ := ht hne
      rcases hentry with ⟨hor, -⟩ | ⟨-, hsame, -⟩
      · exact absurd (hor.elim id hzero) hne
      · obtain rfl := Option.some.inj (hsame.symm.trans hp')
        have htrigger : w.sm.data.squelchHits + 1 = SQUELCH_TRIGGER_HITS := by omega
        rw [htrigger] at hstreak
        refine ⟨p, hstreak.snoc ⟨hs, fun r' hr _ => ?_⟩ rfl⟩
        cases hr
        exact ⟨hp, hhears⟩
    · rw [hraised] at hscan
      cases hscan
  · intro r w' hpc hs hpc' hmiss
    obtain ⟨next, d, hd, rfl⟩ := scanEnd_of_step hs hpc hpc'
    obtain ⟨p, hp, -, hhit⟩ := ThreadData.scanEntry_hit hd
    have hnone : d.squelchHits = 0 := by
      rcases hhit with ⟨hhears, -⟩ | ⟨-, hnone, -⟩
      · exact absurd ⟨hp, hhears⟩ (hmiss p)
      · exact hnone
    refine ⟨hnone, fun ls' v r' v' hrun hone hvpc hvs hvpc' => ?_⟩
    have hzero := (Forgotten.run hrun (by rintro ⟨⟩) hnone).2 hone hvpc
    obtain ⟨next', d', hd', rfl⟩ := scanEnd_of_step hvs hvpc hvpc'
    obtain ⟨p', -, ⟨-, htakes⟩ | ⟨⟨hne, -⟩, -⟩, -⟩ := ThreadData.scanEntry_hit hd'
    · exact ⟨p', htakes⟩
    · exact absurd hzero hne
  · intro r w' p hpc hs hpc' hhit hscan ls' v a hrun hls hacts
    obtain ⟨next, d, hd, rfl⟩ := scanEnd_of_step hs hpc hpc'
    obtain ⟨p', hp', -, hcount⟩ := ThreadData.scanEntry_hit hd
    obtain rfl := Option.some.inj (hhit.1.symm.trans hp')
    have hne : d.squelchHits ≠ 0 := by
      rcases hcount with ⟨-, hhits, -⟩ | ⟨hno, -⟩
      · omega
      · exact absurd hhit.2 hno
    have hstay := Staying.run (p := p) hrun hls
      (.inl ⟨rfl, rfl, hscan, (h.scanning hpc).1, hne, hp'⟩)
    rcases hstay with ⟨hnone, -⟩ | ⟨hone, -, hsame, hvne, hvp⟩ | ⟨rest, hrest, hnot⟩
    · rw [hacts] at hnone
      cases hnone
    · rw [hacts] at hone
      cases hone
      refine ⟨rfl, fun r' v' hvpc hvs hvpc' => ?_⟩
      obtain ⟨next', d', hd', rfl⟩ := scanEnd_of_step hvs hvpc hvpc'
      obtain ⟨p', hp', ⟨hor, -⟩ | ⟨-, hcur, -⟩, -⟩ := ThreadData.scanEntry_hit hd'
      · rcases hor with hz | hchanged
        · exact absurd hz hvne
        · exact absurd (hsame.symm.trans hchanged) (by decide)
      · exact hp'.trans (hcur.symm.trans hvp)
    · rw [hacts] at hrest
      cases hrest
      exact ⟨rfl, fun r' v' hvpc _ _ => absurd hvpc (hnot rfl)⟩

/-- **Squelch debouncing** in every run in which no commit hides a change of state. -/
theorem debounced {file : SystemsFile} {demod : Demodulator} {ls : List Label} {w : World}
    (h : Run (Guarded Step fun w l => ¬w.Hides l) (start file demod) ls w) :
    Debounced (start file demod) ls w := (counted_run h).debounces

/-- Where the calls come whole between the activations, a `startScan` is ignored in
`ST_SCAN`, so no commit hides anything. -/
theorem debounced_of_atomic {file : SystemsFile} {demod : Demodulator} {ls : List Label}
    {w : World} (h : Run (Guarded Step Atomic) (start file demod) ls w) :
    Debounced (start file demod) ls w := by
  refine (counted_run (h.mono_on (I := Calm) ?_ (calm_start file demod))).debounces
  rintro s l t hcalm ⟨hs, hok⟩
  refine ⟨⟨hs, ?_⟩, hcalm.step hs hok⟩
  cases l with
  | commit c =>
    rintro ⟨hcommit, hcur, -⟩
    cases hc : s.clients c with
    | looked call next =>
      rw [hc] at hcommit
      have hnext := hcalm.looked c call next hc
      rw [show next = some .ST_SCAN from hcommit, hcur] at hnext
      cases call <;> cases hnext
    | _ =>
      rw [hc] at hcommit
      cases hcommit
  | _ => exact id

/-! ## A scan that is not debounced -/

/-- An `ST_Scan` with an open squelch. -/
def scanHit : List Label := [.activate .ST_SCAN, .resume (traffic 10000)]

/-- One hit and a hold; then two clients look up their `startScan` in `ST_HOLD`, and
both commit it. -/
def hiddenScan : List Label :=
  scanStarted ++ scanHit ++ [.begin 1 (.holdScan []), .storeFlag 1, .storeIndex 1, .lookup 1,
    .commit 1, .activate .ST_HOLD, .resume (silence 10000), .resume (silence 10000),
    .resume (silence 10000), .begin 0 .startScan, .lookup 0, .begin 1 .startScan, .lookup 1,
    .commit 0, .commit 1]

/-- The scan and 23 hits, with the entry found at the first. -/
theorem debounced_traffic :
    Debounced (start oneChannelFile tunedDemod)
      (scanStarted ++ (List.replicate 23 scanHit).flatten)
      ((start oneChannelFile tunedDemod).after
        (scanStarted ++ (List.replicate 23 scanHit).flatten)) :=
  debounced (guarded_run_after (by decide +kernel))

/-- The hits before the hold still count: 24 more are enough. -/
theorem not_debounced_hidden :
    ∃ ls w, Run Step (start oneChannelFile tunedDemod) ls w ∧
      ¬Debounced (start oneChannelFile tunedDemod) ls w := by
  have hrun := @run_after (hiddenScan ++ (List.replicate 23 scanHit).flatten ++
    [.activate .ST_SCAN]) (start oneChannelFile tunedDemod) (by decide +kernel)
  refine ⟨_, _, hrun, fun h => ?_⟩
  obtain ⟨p, before, after, mid, hsplit, -, -, hacts, -⟩ := h.received (traffic 10000)
    (((start oneChannelFile tunedDemod).after _).after [.resume (traffic 10000)])
    (by decide +kernel) (step_after (by decide +kernel)) (by decide +kernel) (by decide +kernel)
  have hlast : (activations (hiddenScan ++ (List.replicate 23 scanHit).flatten ++
      [.activate .ST_SCAN] ++ [.resume (traffic 10000)])).reverse.take SQUELCH_TRIGGER_HITS =
        List.replicate SQUELCH_TRIGGER_HITS .ST_SCAN := by
    rw [hsplit, activations_append, hacts, List.reverse_append, List.reverse_replicate,
      List.take_left' (List.length_replicate ..)]
  exact absurd hlast (by decide)

end World

end PiScan.Machine

import PiScan.Machine.Context
import PiScan.Machine.Hold

/-!
# One decision per activation

A handler calls `InternalEvent` for the transition it decides on, which
overwrites the event slot and `lastState`.  `raised` lists the events of a run of
steps.

* `Decided.step`: inside a handler nothing has been raised, behind it at most one
  event, with `lastState` the state of the handler;
* `one_decision`: so it is in every run in which no `ST_Receive` finds its entry
  locked out;
* `two_decisions`: a run in which one does.
-/

namespace PiScan.Machine

open Scan Sigproc Runs

/-- The process runs. -/
def Pc.alive : Pc → Bool
  | crashed _ => false
  | _ => true

namespace World

variable {s₀ mid w w' : World} {a : States} {l : Label} {pre : List Label}

/-! ## The events of a run -/

/-- `_currentEntry->isLockedOut()`. -/
def entryLockedOut (w : World) : Bool :=
  match w.sm.data.entry with
  | .ok e => e.isLockedOut
  | .error _ => false

/-- The step calls `InternalEvent`. -/
def raises (w : World) : Label → Bool
  | .activate .ST_SCAN => w.sm.data.systems.size == 0
  | .activate .ST_RECEIVE => w.entryLockedOut
  | .resume _ =>
    match w.pc with
    | .scan | .holdEvent (some _) | .receive | .manual | .saveAll => true
    | _ => false
  | _ => false

/-- The state of the event that a step raises. -/
def raisedBy (w : World) (l : Label) (w' : World) : List States :=
  if w.raises l ∧ w'.pc.alive then [w'.sm.currentState] else []

/-- The states of the events that the handlers raise in the steps `ls`. -/
def raised (w : World) : List Label → List States
  | [] => []
  | l :: ls =>
    match step l w with
    | none => []
    | some w' => w.raisedBy l w' ++ raised w' ls

theorem raised_snoc (h : Run Step mid pre w) (hs : Step w l w') :
    raised mid (pre ++ [l]) = raised mid pre ++ w.raisedBy l w' := by
  induction h with
  | nil s =>
    have hstep : step l s = some w' := hs
    simp [raised, hstep]
  | @cons s t u k ls hk _ ih =>
    have hstep : step k s = some t := hk
    simp only [List.cons_append, raised, hstep, ih hs, List.append_assoc]

theorem raisedBy_of_not {l : Label} (h : w.raises l = false) : w.raisedBy l w' = [] := by
  simp [raisedBy, h]

/-! ## Since the last activation -/

/-- An `ST_Receive` starts on an entry that is locked out. -/
def ReceivesLocked (w : World) (l : Label) : Prop :=
  l = .activate .ST_RECEIVE ∧ w.entryLockedOut = true

instance (w : World) (l : Label) : Decidable (w.ReceivesLocked l) :=
  inferInstanceAs (Decidable (_ ∧ _))

/-- What the handler of `a`, which has started in `mid`, has decided by now. -/
structure Decided (a : States) (mid : World) (pre : List Label) (w : World) : Prop where
  run : Run Step mid pre w
  single : (raised mid pre).length ≤ 1
  inside : w.pc.InHandler → raised mid pre = [] ∧ w.sm.currentState = a ∧
    w.sm.eventGenerated = false
  outside : w.pc.Unlocked → (∀ c, .commit c ∉ pre) → w.sm.eventGenerated = true →
    raised mid pre = [w.sm.currentState] ∧ w.sm.lastState = a

/-- The handler has started and has raised nothing. -/
theorem decided_start (hs : Step mid (.activate a) w)
    (hraises : mid.raisedBy (.activate a) w = []) (hcur : w.sm.currentState = a)
    (hquiet : w.sm.eventGenerated = false) : Decided a mid [.activate a] w := by
  have hnone : raised mid [.activate a] = [] := by
    have hrun := raised_snoc (.nil mid) hs
    rwa [hraises] at hrun
  refine ⟨.single hs, by rw [hnone]; exact Nat.zero_le _, fun _ => ⟨hnone, hcur, hquiet⟩, ?_⟩
  intro _ _ hg
  rw [hquiet] at hg
  cases hg

/-- An activation. -/
theorem decided_activate (hs : Step mid (.activate a) w) (hok : ¬mid.ReceivesLocked (.activate a)) :
    Decided a mid [.activate a] w := by
  cases moves_of_step hs with
  | load hdue hd => exact decided_start hs rfl hdue.2.2 rfl
  | scanEmpty hdue hempty =>
    have hraised : raised mid [.activate .ST_SCAN] = [.ST_MANUAL] := by
      have hrun := raised_snoc (.nil mid) hs
      simpa [raised, raisedBy, raises, hempty, Pc.alive, go, StateMachine.internalEvent,
        StateMachine.endHandler] using hrun
    refine ⟨.single hs, by rw [hraised]; exact Nat.le_refl _, by rintro ⟨⟩, fun _ _ _ => ?_⟩
    exact ⟨hraised, hdue.2.2⟩
  | scan hdue hsome hd =>
    refine decided_start hs (raisedBy_of_not ?_) hdue.2.2 rfl
    simpa [raises] using hsome
  | holdIndex hdue hflag hindex hd => exact decided_start hs rfl hdue.2.2 rfl
  | hold hdue hno => exact decided_start hs rfl hdue.2.2 rfl
  | @receive e d hdue he hd =>
    have hfree : e.isLockedOut = false := by
      by_contra hlocked
      exact hok ⟨rfl, by simpa [entryLockedOut, he] using hlocked⟩
    have hraises : mid.raises (.activate .ST_RECEIVE) = false := by
      simp [raises, entryLockedOut, he, hfree]
    refine decided_start hs (raisedBy_of_not hraises) ?_ ?_
    · simp [go, ScannerSM.raiseIfLocked, hfree, ScannerSM.take, hdue.2.2]
    · simp [go, ScannerSM.raiseIfLocked, hfree, ScannerSM.take]
  | manual hdue hdata => exact decided_start hs rfl hdue.2.2 rfl
  | saveAll hdue hd => exact decided_start hs rfl hdue.2.2 rfl
  | stopped hdue => exact decided_start hs rfl hdue.2.2 rfl
  | crash hfault =>
    have hnone : raised mid [.activate a] = [] := by
      have hrun := raised_snoc (.nil mid) hs
      simpa [raised, raisedBy, Pc.alive] using hrun
    exact ⟨.single hs, by rw [hnone]; exact Nat.zero_le _, by rintro ⟨⟩,
      by rintro (hpc | hpc) <;> cases hpc⟩

/-- A step that raises nothing and stays outside the handlers, or inside them. -/
theorem Decided.quiet (h : Decided a mid pre w) (hs : Step w l w')
    (hraises : w.raisedBy l w' = []) (hpc : w'.pc.InHandler → w.pc.InHandler)
    (hu : w'.pc.Unlocked → w.pc.Unlocked)
    (hm : w'.sm.toStateMachine = w.sm.toStateMachine) : Decided a mid (pre ++ [l]) w' := by
  have hsame : raised mid (pre ++ [l]) = raised mid pre := by
    rw [raised_snoc h.run hs, hraises, List.append_nil]
  refine ⟨h.run.snoc hs, by rw [hsame]; exact h.single, fun hin => ?_, fun hu' hcommit => ?_⟩
  · rw [hsame, hm]
    exact h.inside (hpc hin)
  · rw [hsame, hm]
    exact h.outside (hu hu') fun c hc => hcommit c (List.mem_append_left _ hc)

/-- The end of a handler, which raises one event. -/
theorem Decided.raise (h : Decided a mid pre w) {r : ScannerSM.Reading} {next : States}
    {m : ScannerSM} (hs : Step w (.resume r) (w.go .idle (m.raise next)))
    (hraises : w.raises (.resume r) = true) (hin : w.pc.InHandler)
    (hm : m.toStateMachine = w.sm.toStateMachine) :
    Decided a mid (pre ++ [.resume r]) (w.go .idle (m.raise next)) := by
  obtain ⟨hnone, hcur, -⟩ := h.inside hin
  have hone : raised mid (pre ++ [.resume r]) = [next] := by
    rw [raised_snoc h.run hs, hnone, raisedBy, if_pos ⟨hraises, rfl⟩]
    rfl
  refine ⟨h.run.snoc hs, by rw [hone]; exact Nat.le_refl _, by rintro ⟨⟩, fun _ _ _ => ?_⟩
  refine ⟨hone, ?_⟩
  show m.currentState = a
  rw [hm, hcur]

/-- What the steps up to the next activation keep. -/
theorem Decided.step (h : Decided a mid pre w) (hs : Step w l w') (hl : l.activated = none) :
    Decided a mid (pre ++ [l]) w' := by
  have hmoves := moves_of_step hs
  cases hmoves with
  | begin hc => exact h.quiet hs rfl id id rfl
  | storeFlag hc => exact h.quiet hs rfl id id rfl
  | storeIndex hc => exact h.quiet hs rfl id id rfl
  | lookup hc => exact h.quiet hs rfl id id rfl
  | ignore hc => exact h.quiet hs rfl id id rfl
  | @commit c call next hc hu =>
    have hsame : raised mid (pre ++ [.commit c]) = raised mid pre := by
      rw [raised_snoc h.run hs, raisedBy_of_not rfl, List.append_nil]
    refine ⟨h.run.snoc hs, by rw [hsame]; exact h.single, fun hin => ?_, fun _ hcommit => ?_⟩
    · have hin' : w.pc.InHandler := hin
      rcases hu with hu | hu <;> rw [hu] at hin' <;> cases hin'
    · exact absurd (List.mem_append_right _ (List.mem_singleton_self _)) (hcommit c)
  | @scanEnd r next d hpc hd =>
    exact h.raise hs (by simp [raises, hpc]) (by rw [hpc]; trivial) rfl
  | @holdEntry r update found d hpc hd =>
    refine h.quiet hs (raisedBy_of_not (by simp [raises, hpc]))
      (fun _ => by rw [hpc]; trivial) ?_ rfl
    rintro (hu | hu) <;> cases hu
  | @holdDecision r found next hpc hd =>
    refine h.quiet hs (raisedBy_of_not (by simp [raises, hpc]))
      (fun _ => by rw [hpc]; trivial) ?_ rfl
    rintro (hu | hu) <;> cases hu
  | @holdEvent r next hpc =>
    exact h.raise hs (by simp [raises, hpc]) (by rw [hpc]; trivial) rfl
  | @holdQuiet r hpc =>
    obtain ⟨hnone, hcur, hquiet⟩ := h.inside (by rw [hpc]; trivial)
    have hsame : raised mid (pre ++ [.resume r]) = [] := by
      rw [raised_snoc h.run hs, hnone, raisedBy_of_not (by simp [raises, hpc]), List.append_nil]
    refine ⟨h.run.snoc hs, by rw [hsame]; exact Nat.zero_le _, by rintro ⟨⟩, fun _ _ hg => ?_⟩
    have hg' : w.sm.eventGenerated = true := hg
    rw [hquiet] at hg'
    cases hg'
  | @receiveEnd r next d hpc hd =>
    exact h.raise hs (by simp [raises, hpc]) (by rw [hpc]; trivial) rfl
  | manualEnd hpc => exact h.raise hs (by simp [raises, hpc]) (by rw [hpc]; trivial) rfl
  | saveAllEnd hpc => exact h.raise hs (by simp [raises, hpc]) (by rw [hpc]; trivial) rfl
  | crash hfault =>
    have hsame : raised mid (pre ++ [l]) = raised mid pre := by
      rw [raised_snoc h.run hs, raisedBy, if_neg fun h => Bool.noConfusion h.2, List.append_nil]
    exact ⟨h.run.snoc hs, by rw [hsame]; exact h.single, by rintro ⟨⟩,
      by rintro (hpc | hpc) <;> cases hpc⟩
  | _ => cases hl

theorem mem_of_activations {ls : List Label} (h : activations ls = []) :
    ∀ l ∈ ls, l.activated = none := by
  intro l hl
  by_contra hsome
  obtain ⟨a, ha⟩ := Option.ne_none_iff_exists'.mp hsome
  have hmem : a ∈ activations ls := List.mem_filterMap.mpr ⟨l, hl, ha⟩
  rw [h] at hmem
  cases hmem

/-- **One activation**, up to the next one. -/
theorem decided_run {after : List Label}
    (h : Run (Guarded Step fun w l => ¬w.ReceivesLocked l) mid (.activate a :: after) w)
    (hnone : activations after = []) : Decided a mid (.activate a :: after) w := by
  cases h with
  | cons hs hr =>
    exact (hr.of_guarded).history (I := Decided a mid) (P := fun l => l.activated = none)
      (fun pre s l t hl hd hs => hd.step hs hl)
      (mem_of_activations hnone) (decided_activate hs.1 hs.2)

end World

/-! ## Broadcasts -/

namespace ThreadData

variable {d d' : ThreadData}

theorem enterState_unsent {audio : Bool} {X : ContextState}
    (h : d.enterState audio X false = .ok d') : d'.sent = d.sent := by
  simp only [enterState, bind_eq_ok] at h
  obtain ⟨d₁, h₁, h₂⟩ := h
  have hsent : d₁.sent = d.sent := enableAudioOut_sent h₁
  rw [← Except.ok.inj h₂]
  exact hsent

theorem holdEntry_unsent {signal found : Bool} (h : d.holdEntry false signal = .ok (found, d')) :
    d'.sent = d.sent := by
  simp only [holdEntry, bind_eq_ok] at h
  obtain ⟨d₁, h₁, d₂, h₂, h₃⟩ := h
  exact (entrySignal_sent h₃).trans ((enterState_unsent h₂).trans (skipDummies_sent h₁))

theorem scanEntry_unsent {signal : Bool} {next : States}
    (h : d.scanEntry false signal = .ok (next, d')) : d'.sent = d.sent := by
  simp only [scanEntry, bind_eq_ok, Prod.exists] at h
  obtain ⟨d₁, h₁, d₂, h₂, found, d₃, h₃, h₄⟩ := h
  obtain rfl := Except.ok.inj h₁
  have hnext : d₂.sent = d.sent := by
    unfold onlyIf at h₂
    split at h₂
    · exact nextEntry_sent h₂
    · rw [← Except.ok.inj h₂]
  have hd₃ : d₃.sent = d.sent := (entrySignal_sent h₃).trans hnext
  split at h₄
  · obtain ⟨-, rfl⟩ := Prod.mk.inj (Except.ok.inj h₄)
    exact hd₃
  · obtain ⟨-, rfl⟩ := Prod.mk.inj (Except.ok.inj h₄)
    exact hd₃

end ThreadData

namespace World

variable {s₀ mid w w' : World} {a b : States} {l : Label} {pre : List Label}

/-- `ST_Hold` takes an index, for which it sends a context in any case. -/
def TakesIndex (w : World) (b : States) : Prop :=
  b = .ST_HOLD ∧ w.sm.externalHold = true ∧ 0 < w.sm.holdIndex.length

/-- The handler that has started in `mid` has sent nothing and sees no change. -/
structure Unsent (mid w : World) : Prop where
  sent : w.sm.data.sent = mid.sm.data.sent
  inside : w.pc.InHandler → w.sm.stateChanged = false
  update : ∀ update, w.pc = .hold update → update = false

theorem unsent_activate (hs : Step mid (.activate b) w) (hsame : mid.sm.stateChanged = false)
    (hindex : ¬mid.TakesIndex b) (hok : ¬mid.ReceivesLocked (.activate b)) : Unsent mid w := by
  cases moves_of_step hs with
  | load hdue hd =>
    simp only [ThreadData.load, bind_eq_ok, pure_eq_ok] at hd
    obtain ⟨sl, -, sl', -, rfl⟩ := hd
    exact ⟨rfl, by rintro ⟨⟩, by rintro u ⟨⟩⟩
  | scanEmpty => exact ⟨rfl, by rintro ⟨⟩, by rintro u ⟨⟩⟩
  | scan hdue hsome hd =>
    simp only [ThreadData.scanStart, bind_eq_ok, pure_eq_ok] at hd
    obtain ⟨d₁, hd₁, rfl⟩ := hd
    have hsent : d₁.sent = (mid.sm.data.resetHits mid.sm.stateChanged).sent :=
      ThreadData.enableAudioOut_sent hd₁
    exact ⟨hsent, fun _ => hsame, by rintro u ⟨⟩⟩
  | holdIndex hdue hflag hlen hd => exact absurd ⟨rfl, hflag, hlen⟩ hindex
  | hold hdue hno =>
    refine ⟨rfl, fun _ => hsame, fun u hu => ?_⟩
    cases hu
    exact hsame
  | @receive e d hdue he hd =>
    have hfree : e.isLockedOut = false := by
      by_contra hlocked
      exact hok ⟨rfl, by simpa [entryLockedOut, he] using hlocked⟩
    have hraise : mid.sm.take.raiseIfLocked e.isLockedOut = mid.sm.take := by
      rw [hfree]
      rfl
    rw [hraise] at hd
    have hquiet : mid.sm.take.stateChanged = false := hsame
    rw [hquiet] at hd
    refine ⟨ThreadData.enterState_unsent hd, fun _ => ?_, by rintro u ⟨⟩⟩
    rw [hraise]
    exact hsame
  | manual hdue hdata => exact ⟨rfl, fun _ => hsame, by rintro u ⟨⟩⟩
  | saveAll hdue hd =>
    obtain ⟨state, -, rfl⟩ := ThreadData.saveAll_spec hd
    exact ⟨rfl, fun _ => hsame, by rintro u ⟨⟩⟩
  | stopped hdue => exact ⟨rfl, by rintro ⟨⟩, by rintro u ⟨⟩⟩
  | crash hfault => exact ⟨rfl, by rintro ⟨⟩, by rintro u ⟨⟩⟩

theorem Unsent.step (h : Unsent mid w) (hs : Step w l w') (hl : l.activated = none) :
    Unsent mid w' := by
  obtain ⟨hsent, hinside, hupdate⟩ := h
  cases moves_of_step hs with
  | begin hc => exact ⟨hsent, hinside, hupdate⟩
  | storeFlag hc => exact ⟨hsent, hinside, hupdate⟩
  | storeIndex hc => exact ⟨hsent, hinside, hupdate⟩
  | lookup hc => exact ⟨hsent, hinside, hupdate⟩
  | ignore hc => exact ⟨hsent, hinside, hupdate⟩
  | commit hc hu =>
    refine ⟨hsent, fun hin => ?_, hupdate⟩
    have hin' : w.pc.InHandler := hin
    rcases hu with hu | hu <;> rw [hu] at hin' <;> cases hin'
  | @scanEnd r next d hpc hd =>
    rw [hinside (by rw [hpc]; trivial)] at hd
    exact ⟨(ThreadData.scanEntry_unsent hd).trans hsent, by rintro ⟨⟩, by rintro u ⟨⟩⟩
  | @holdEntry r update found d hpc hd =>
    rw [hupdate update hpc] at hd
    exact ⟨(ThreadData.holdEntry_unsent hd).trans hsent,
      fun _ => hinside (by rw [hpc]; trivial), by rintro u ⟨⟩⟩
  | holdDecision hpc hd =>
    exact ⟨hsent, fun _ => hinside (by rw [hpc]; trivial), by rintro u ⟨⟩⟩
  | holdEvent hpc => exact ⟨hsent, by rintro ⟨⟩, by rintro u ⟨⟩⟩
  | holdQuiet hpc => exact ⟨hsent, by rintro ⟨⟩, by rintro u ⟨⟩⟩
  | receiveEnd hpc hd =>
    exact ⟨(ThreadData.receiveEntry_sent hd).trans hsent, by rintro ⟨⟩, by rintro u ⟨⟩⟩
  | manualEnd hpc => exact ⟨hsent, by rintro ⟨⟩, by rintro u ⟨⟩⟩
  | saveAllEnd hpc => exact ⟨hsent, by rintro ⟨⟩, by rintro u ⟨⟩⟩
  | crash hfault => exact ⟨hsent, by rintro ⟨⟩, by rintro u ⟨⟩⟩
  | _ => cases hl

theorem unsent_run {after : List Label}
    (h : Run (Guarded Step fun w l => ¬w.ReceivesLocked l) mid (.activate b :: after) w)
    (hnone : activations after = []) (hsame : mid.sm.stateChanged = false)
    (hindex : ¬mid.TakesIndex b) : Unsent mid w := by
  cases h with
  | cons hs hr =>
    exact (hr.of_guarded).invariant_on (P := fun l => l.activated = none)
      (fun s l t hl hu hs => hu.step hs hl) (mem_of_activations hnone)
      (unsent_activate hs.1 hsame hindex hs.2)

/-! ## Every run -/

/-- One decision per activation, in the state `w` that the steps `ls` have reached.
The last activation, which started in `mid`,
* has raised at most one event (`single`);
* is followed, unless a client commits, by that of the state it has raised, with its
  own state in `lastState` (`taken`), which for an entry that is locked out in
  `ST_Receive` is `ST_SCAN` (`resumed`);
* has sent a context, without a commit before it and an index to take, only where the
  state is another than that of the activation before it (`changed`). -/
structure OneDecision (s₀ : World) (ls : List Label) (w : World) : Prop where
  single : ∀ before after mid a, ls = before ++ .activate a :: after → activations after = [] →
    Run Step s₀ before mid → (raised mid (.activate a :: after)).length ≤ 1
  taken : ∀ before after mid a b, ls = before ++ .activate a :: after → activations after = [] →
    (∀ c, .commit c ∉ after) → Run Step s₀ before mid → w.Due b →
      raised mid (.activate a :: after) = [b] ∧ w.sm.lastState = a
  resumed : ∀ before after mid b, ls = before ++ .activate .ST_RECEIVE :: after →
    activations after = [] → (∀ c, .commit c ∉ after) → Run Step s₀ before mid →
      mid.entryLockedOut = true → w.Due b → b = .ST_SCAN
  changed : ∀ before between after mid a b,
    ls = (before ++ .activate a :: between) ++ .activate b :: after → activations between = [] →
      (∀ c, .commit c ∉ between) → activations after = [] →
      Run Step s₀ (before ++ .activate a :: between) mid → ¬mid.TakesIndex b →
      w.sm.data.sent ≠ mid.sm.data.sent → a ≠ b

/-- The run from a state that its labels lead to. -/
theorem run_from {Ok : World → Label → Prop} {before after : List Label}
    (h : Run (Guarded Step Ok) s₀ (before ++ after) w) (hmid : Run Step s₀ before mid) :
    Run (Guarded Step Ok) mid after w := by
  obtain ⟨mid', hbefore, hafter⟩ := h.split before
  obtain rfl := hbefore.of_guarded.unique step_unique hmid
  exact hafter

/-- **One decision per activation**, in every run in which no `ST_Receive` starts on an
entry that is locked out. -/
theorem one_decision {file : SystemsFile} {demod : Demodulator} {ls : List Label} {w : World}
    (h : Run (Guarded Step fun w l => ¬w.ReceivesLocked l) (start file demod) ls w) :
    OneDecision (start file demod) ls w := by
  refine ⟨?_, ?_, ?_, ?_⟩
  · rintro before after mid a rfl hnone hmid
    exact (decided_run (run_from h hmid) hnone).single
  · rintro before after mid a b rfl hnone hcommit hmid ⟨hpc, hg, rfl⟩
    refine (decided_run (run_from h hmid) hnone).outside (.inl hpc) (fun c hc => ?_) hg
    rcases List.mem_cons.mp hc with hc | hc
    · cases hc
    · exact hcommit c hc
  · rintro before after mid b rfl hnone hcommit hmid hlocked hdue
    have hr := run_from h hmid
    cases hr with
    | cons hs _ => exact absurd ⟨rfl, hlocked⟩ hs.2
  · rintro before between after mid a b rfl hbetween hcommit hafter hmid hindex hsent rfl
    refine hsent (unsent_run (run_from h hmid) hafter ?_ hindex).sent
    -- the handler before has left its own state in `lastState`
    obtain ⟨mid', hmid', -⟩ := hmid.split before
    obtain ⟨t, ht, hlast⟩ := h.split (before ++ .activate a :: between)
    obtain rfl := ht.of_guarded.unique step_unique hmid
    cases hlast with
    | cons hs _ =>
      have hdue : t.Due a := by
        have hp := perform_of_step hs.1
        simp only [perform, Option.ite_none_right_eq_some] at hp
        exact hp.1
      have hd := (decided_run (run_from ht hmid') hbetween).outside (.inl hdue.1) (fun c hc => ?_)
        hdue.2.1
      · simp [StateMachine.stateChanged, hd.2, hdue.2.2]
      · rcases List.mem_cons.mp hc with hc | hc
        · cases hc
        · exact hcommit c hc

/-- A transmission during a hold, on an entry that is not locked out. -/
theorem one_decision_transmission :
    OneDecision (start oneChannelFile tunedDemod)
      (scanStarted ++ promptHold ++ [.commit 1] ++ transmission)
      ((start oneChannelFile tunedDemod).after
        (scanStarted ++ promptHold ++ [.commit 1] ++ transmission)) :=
  one_decision (guarded_run_after (by decide +kernel))

/-- A systems file with one channel, which is locked out. -/
def lockedChannelFile : SystemsFile :=
  (SystemList.empty.addSystem (((AnalogSystem.new "link" false).setSysIndex 0).addEntry
    (Entry.fmChannel 64 446006250 "uplink" true 2000))).writeToFile

/-- A hold on the channel by its index, and a transmission on it. -/
def lockedHold : List Label :=
  [.activate .ST_LOAD, .begin 0 (.holdScan [0, 0]), .storeFlag 0, .storeIndex 0, .lookup 0,
    .commit 0, .activate .ST_HOLD, .resume (traffic 10000), .resume (traffic 10000),
    .resume (traffic 10000), .activate .ST_RECEIVE, .resume (traffic 10000)]

/-- **Two decisions**: `ST_Receive` resumes the scan and then stays. -/
theorem two_decisions :
    ∃ ls w, Run Step (start lockedChannelFile tunedDemod) ls w ∧
      ¬OneDecision (start lockedChannelFile tunedDemod) ls w := by
  have hrun := @run_after lockedHold (start lockedChannelFile tunedDemod) (by decide +kernel)
  refine ⟨_, _, hrun, fun h => ?_⟩
  have hdecided := h.single (lockedHold.take 10) [.resume (traffic 10000)] _ .ST_RECEIVE rfl rfl
    (run_after (by decide +kernel))
  exact absurd hdecided (by decide +kernel)

end World

end PiScan.Machine

import PiScan.Cubic.ModemHandover
import PiScan.Lib.FlagCell

/-!
# The frequency of a modem

`setFrequency` raises its flag before it stores the value, and the thread lowers the flag
after it has copied the value.

* `cell_step`: the frequency, its flag and the thread are a value handed over by a flag;
* `retunes`: as long as no call overlaps the two stores of the thread, `getFrequency`
  answers the frequency of the call that was over last, and the thread's next pass takes it;
* `retune_lost`: a call that overlaps them is lost, until another one is made.
-/

namespace PiScan.Cubic.DemodulatorPreThread

open Runs FlagCell SDRPostThread

variable {F : Type}

def Call.freq : Call → Option Int
  | .setFrequency freq => some freq
  | .setDemodType _ | .setSampleRate _ | .setBandwidth _ | .setAudioSampleRate _ => none

def PreStep.phase : PreStep F → Phase
  | .testFrequency _ => .test
  | .copyFrequency _ => .copy
  | .clearFrequency _ => .clear
  | .pop | .rates _ | .test _ | .command _ _ | .push _ _ | .shift _ | .send _ | .pushPost _ _
  | .drain _ => .away

/-- A call of `setFrequency` begins. -/
def Label.Begins : Label F → Prop
  | .call (.setFrequency _) => True
  | _ => False

namespace State

variable {s t : State F} {l : Label F} {inp : DemodulatorThreadIQData F}

/-- What a caller reads if nothing happens between its two loads. -/
def getFrequency (s : State F) : Int :=
  if s.frequencyChanged then s.newFrequency else s.currentFrequency

def cell (s : State F) : Cell Int :=
  ⟨s.currentFrequency, s.newFrequency, s.frequencyChanged, s.pending.filterMap Call.freq,
    s.step.phase⟩

def stored : Option Call → Act Int
  | some (.setFrequency freq) => .store freq
  | _ => .other

def act (s : State F) : Label F → Act Int
  | .call (.setFrequency freq) => .raise freq
  | .finish i => stored s.pending[i]?
  | .block _ => .arrive
  | .pre =>
    match s.step with
    | .testFrequency _ => .test
    | .copyFrequency _ => .copy
    | .clearFrequency _ => .clear
    | _ => .other
  | .call _ | .rates _ _ _ | .resample _ | .work | .demodulate => .other

theorem mem_calls {freq : Int} : freq ∈ s.cell.calls ↔ Call.setFrequency freq ∈ s.pending := by
  simp only [cell, List.mem_filterMap]
  constructor
  · rintro ⟨c, hc, hfreq⟩
    cases c with
    | setFrequency freq' =>
      cases hfreq
      exact hc
    | setDemodType | setSampleRate | setBandwidth | setAudioSampleRate => cases hfreq
  · intro hc
    exact ⟨_, hc, rfl⟩

theorem phase_eq_clear : s.step.phase = .clear ↔ ∃ inp, s.step = .clearFrequency inp := by
  cases s.step <;> simp [PreStep.phase]

theorem cell_congr (hcurrent : t.currentFrequency = s.currentFrequency)
    (hnew : t.newFrequency = s.newFrequency) (hchanged : t.frequencyChanged = s.frequencyChanged)
    (hpending : t.pending = s.pending) (hphase : t.step.phase = s.step.phase) :
    t.cell = s.cell := by
  unfold cell
  rw [hcurrent, hnew, hchanged, hpending, hphase]

theorem cell_other (h : t.cell = s.cell) : Cell.Step s.cell .other t.cell := by
  rw [h]
  exact .other _

theorem cell_begin (s : State F) (c : Call) :
    Cell.Step s.cell (s.act (.call c)) (s.begin c).cell := by
  cases c with
  | setFrequency freq =>
    have hcalls : (s.begin (.setFrequency freq)).cell =
        { s.cell with raised := true, calls := s.cell.calls ++ [freq] } := by
      simp [cell, begin, List.filterMap_append, Call.freq]
    rw [hcalls]
    exact .raise _ freq
  | setDemodType | setSampleRate | setBandwidth | setAudioSampleRate =>
    exact cell_other (by simp [cell, begin, List.filterMap_append, Call.freq])

theorem cell_finish {i : Nat} {c : Call} (hc : s.pending[i]? = some c) :
    Cell.Step s.cell (stored (some c)) (s.finish i c).cell := by
  obtain ⟨hi, hget⟩ := List.getElem?_eq_some_iff.mp hc
  have hsplit : s.pending = s.pending.take i ++ c :: s.pending.drop (i + 1) := by
    rw [← hget, ← List.drop_eq_getElem_cons hi, List.take_append_drop]
  have herase : s.pending.eraseIdx i = s.pending.take i ++ s.pending.drop (i + 1) :=
    List.eraseIdx_eq_take_drop_succ ..
  have hcalls : s.cell.calls = (s.pending.take i).filterMap Call.freq ++
      (c.freq.toList ++ (s.pending.drop (i + 1)).filterMap Call.freq) := by
    have hmap := congrArg (List.filterMap Call.freq) hsplit
    rw [List.filterMap_append, List.filterMap_cons] at hmap
    rw [show s.cell.calls = s.pending.filterMap Call.freq from rfl, hmap]
    cases c.freq <;> rfl
  have hleft : (s.pending.eraseIdx i).filterMap Call.freq =
      (s.pending.take i).filterMap Call.freq ++
        (s.pending.drop (i + 1)).filterMap Call.freq := by
    rw [herase, List.filterMap_append]
  cases c with
  | setFrequency freq =>
    have hperm : s.cell.calls.Perm (freq :: (s.pending.eraseIdx i).filterMap Call.freq) := by
      rw [hcalls, hleft]
      exact List.perm_middle
    exact .store _ freq _ hperm
  | setDemodType | setSampleRate | setBandwidth | setAudioSampleRate =>
    refine cell_other ?_
    have hsame : (s.pending.eraseIdx i).filterMap Call.freq = s.cell.calls :=
      hleft.trans hcalls.symm
    simp only [cell, finish] at hsame ⊢
    rw [hsame]

theorem cell_test (hs : s.step = .test inp) (ht : s.test inp = .ok t) : t.cell = s.cell := by
  obtain ⟨cmd, rfl⟩ | rfl := test_cases ht
  · exact cell_congr rfl rfl rfl rfl (by rw [hs]; rfl)
  · exact cell_congr rfl rfl rfl rfl (by rw [hs]; rfl)

theorem cell_shift (hs : s.step = .shift inp) : (s.shift inp).cell = s.cell := by
  unfold State.shift
  dsimp only
  split_ifs <;> exact cell_congr rfl rfl rfl rfl (by rw [hs]; rfl)

theorem cell_send {numWritten : Nat} (hs : s.step = .send inp)
    (ht : s.send inp numWritten = .ok t) : t.cell = s.cell := by
  obtain ⟨resamp, rfl⟩ | rfl := send_cases ht
  · exact cell_congr rfl rfl rfl rfl (by rw [hs]; rfl)
  · exact cell_congr rfl rfl rfl rfl (by rw [hs]; rfl)

theorem cell_takeResult {result : Result} (ht : s.takeResult inp result = .ok t) :
    t.cell = s.cell := by
  obtain ⟨a, b, c, d, e, f, g, i, j, k, rfl⟩ := takeResult_eq ht
  rfl

theorem cell_pre (h : s.pre = some (.ok t)) : Cell.Step s.cell (s.act .pre) t.cell := by
  cases hs : s.step with
  | pop | rates | send => simp [State.pre, hs] at h
  | testFrequency inp =>
    simp only [State.pre, act, hs, Option.some.injEq, Except.ok.injEq] at h ⊢
    subst h
    have hcell : (s.goto (if s.frequencyChanged then PreStep.copyFrequency inp
        else .rates inp)).cell =
          { s.cell with phase := if s.cell.raised then .copy else .away } := by
      unfold cell goto
      cases s.frequencyChanged <;> rfl
    rw [hcell]
    exact .test _ (by simp [cell, hs, PreStep.phase])
  | copyFrequency inp =>
    simp only [State.pre, act, hs, Option.some.injEq, Except.ok.injEq] at h ⊢
    subst h
    exact .copy _ (by simp [cell, hs, PreStep.phase])
  | clearFrequency inp =>
    simp only [State.pre, act, hs, Option.some.injEq, Except.ok.injEq] at h ⊢
    subst h
    exact .clear _ (by simp [cell, hs, PreStep.phase])
  | test inp =>
    simp only [State.pre, act, hs, Option.some.injEq] at h ⊢
    exact cell_other (cell_test hs h)
  | command inp cmd =>
    simp only [State.pre, act, hs, Option.some.injEq, Except.ok.injEq] at h ⊢
    subst h
    cases cmd with
    | _ => exact cell_other (cell_congr rfl rfl rfl rfl (by rw [hs]; rfl))
  | push inp command =>
    simp only [State.pre, act, hs] at h ⊢
    split at h
    · cases h
      refine cell_other ?_
      unfold State.pushed
      cases command.cmd with
      | _ => exact cell_congr rfl rfl rfl rfl (by rw [hs]; rfl)
    · cases h
  | shift inp =>
    simp only [State.pre, act, hs, Option.some.injEq, Except.ok.injEq] at h ⊢
    subst h
    exact cell_other (cell_shift hs)
  | pushPost inp resamp =>
    simp only [State.pre, act, hs] at h ⊢
    split at h
    · cases h
      exact cell_other (cell_congr rfl rfl rfl rfl (by rw [hs]; rfl))
    · cases h
  | drain inp =>
    simp only [State.pre, act, hs] at h ⊢
    split at h
    · cases h
      exact cell_other (cell_congr rfl rfl rfl rfl (by rw [hs]; rfl))
    · next result results hres =>
      have hcell := cell_takeResult (Option.some.inj h)
      exact cell_other (hcell.trans (cell_congr rfl rfl rfl rfl (by rw [hs])))

theorem cell_work (h : s.work = some (.ok t)) : t.cell = s.cell := by
  unfold State.work at h
  split at h
  · split at h
    · cases h
    · cases h
      rfl
  · cases h
    rfl
  · next batch hw =>
    split at h
    · cases h
      rfl
    · next command hlead =>
      cases hb : s.worker.build s.heap batch command with
      | error f =>
        rw [hb] at h
        cases h
      | ok r =>
        rw [hb] at h
        cases h
        rfl
  · split at h
    · cases h
      rfl
    · cases h

/-- **The threads hand the frequency over by its flag.** -/
theorem cell_step (h : Step s l t) : Cell.Step s.cell (s.act l) t.cell := by
  unfold Step at h
  cases l with
  | call c =>
    cases h
    exact cell_begin s c
  | finish i =>
    simp only [next, Option.map_eq_some_iff] at h
    obtain ⟨c, hc, ht⟩ := h
    cases ht
    simp only [act, hc]
    exact cell_finish hc
  | block inp =>
    simp only [next] at h
    split at h
    · next hs =>
      cases h
      exact .arrive _ (by simp [cell, hs, PreStep.phase])
    · cases h
  | rates rate rate' rate'' =>
    simp only [next] at h
    split at h
    · next inp hs =>
      cases h
      unfold takeAudioSampleRate takeSampleRate
      split_ifs <;> exact cell_other (cell_congr rfl rfl rfl rfl (by rw [hs]; rfl))
    · cases h
  | resample numWritten =>
    simp only [next] at h
    split at h
    · next inp hs => exact cell_other (cell_send hs (Option.some.inj h))
    · cases h
  | pre => exact cell_pre h
  | work => exact cell_other (cell_work h)
  | demodulate =>
    simp only [next] at h
    split at h
    · cases h
    · next inp rest hq =>
      cases hd : s.demodulator.demodulate s.heap inp with
      | error f =>
        rw [hd] at h
        cases h
      | ok r =>
        rw [hd] at h
        cases h
        exact cell_other rfl

/-! ## Calls that the thread takes over, and calls that it loses -/

/-- No call of `setFrequency` is between its stores where the thread copies the frequency,
and none begins before the thread has lowered the flag. -/
def Apart (s : State F) (l : Label F) : Prop := s.cell.Apart (s.act l)

/-- No step of a call of `setFrequency`. -/
def Quiet (s : State F) (l : Label F) : Prop := Cell.Quiet (s.act l)

theorem kept_of_run {ls : List (Label F)} (h : Run (Guarded Step Apart) start ls s) :
    s.cell.Kept := by
  refine h.invariant (I := fun s => s.cell.Kept) ?_ ⟨fun hne => absurd rfl hne, fun _ => rfl⟩
  rintro u l t hu ⟨hstep, happart⟩
  exact hu.step (cell_step hstep) happart

/-- **The frequency asked for last is the one that the modem gets.**  As long as no call of
`setFrequency` overlaps the stores with which the thread takes a frequency over,
`getFrequency` answers the frequency stored last, and a pass of the thread that begins with
no call under way goes on with it. -/
theorem retunes {ls : List (Label F)} (h : Run (Guarded Step Apart) start ls s) :
    s.getFrequency = s.newFrequency ∧
      ∀ (ls' : List (Label F)) (t : State F), (∃ inp, s.step = .testFrequency inp) →
        Run (Guarded Step Quiet) s ls' t → t.step.phase = .away →
          t.currentFrequency = s.newFrequency := by
  have hkept := kept_of_run h
  refine ⟨hkept.read, ?_⟩
  rintro ls' t ⟨inp, hs⟩ hrun haway
  have htest : s.cell.phase = .test := by simp [cell, hs, PreStep.phase]
  have htaken : t.cell.Taken s.cell.value := by
    refine hrun.invariant (I := fun u => u.cell.Taken s.cell.value) ?_ (hkept.taken htest)
    rintro u l t hu ⟨hstep, hquiet⟩
    exact hu.step (cell_step hstep) hquiet
  exact htaken.away haway

instance (s : State F) (l : Label F) : Decidable (s.Apart l) :=
  inferInstanceAs (Decidable (s.cell.Apart (s.act l)))

instance (s : State F) (l : Label F) : Decidable (s.Quiet l) :=
  inferInstanceAs (Decidable (Cell.Quiet (s.act l)))

/-- The state after the steps `ls`, if all of them can be taken, meet `Ok` and do not fail. -/
def guardedAfter (Ok : State F → Label F → Prop) [∀ s l, Decidable (Ok s l)] (s : State F) :
    List (Label F) → Option (State F)
  | [] => some s
  | l :: ls =>
    if Ok s l then
      match s.next l with
      | some (.ok t) => guardedAfter Ok t ls
      | _ => none
    else none

theorem run_of_guardedAfter {Ok : State F → Label F → Prop} [∀ s l, Decidable (Ok s l)]
    {ls : List (Label F)} (h : s.guardedAfter Ok ls = some t) : Run (Guarded Step Ok) s ls t := by
  induction ls generalizing s with
  | nil =>
    cases h
    exact .nil _
  | cons l ls ih =>
    simp only [guardedAfter] at h
    split at h
    · next hok =>
      split at h
      · next u hu => exact .cons ⟨hu, hok⟩ (ih h)
      · cases h
    · cases h

/-- The thread takes over the frequency of a call that was over before its pass. -/
theorem retunes_first :
    ∃ s t : State Int, s.getFrequency = 100000000 ∧
      Run (Guarded Step Quiet) s [.pre, .pre, .pre] t ∧ t.currentFrequency = 100000000 := by
  let block : DemodulatorThreadIQData Int := ⟨100000000, 48000, []⟩
  have hafter : ∃ s t : State Int,
      (start : State Int).guardedAfter Apart
        [.call (.setFrequency 100000000), .finish 0, .block block] = some s ∧
      s.guardedAfter Quiet [.pre, .pre, .pre] = some t ∧ s.step = .testFrequency block ∧
      s.newFrequency = 100000000 ∧ t.step.phase = .away := ⟨_, _, rfl, rfl, rfl, rfl, rfl⟩
  obtain ⟨s, t, hs, ht, htest, hnew, haway⟩ := hafter
  obtain ⟨hget, htake⟩ := retunes (run_of_guardedAfter hs)
  have hrun := run_of_guardedAfter ht
  exact ⟨s, t, hget.trans hnew, hrun, (htake _ t ⟨block, htest⟩ hrun haway).trans hnew⟩

theorem stored_ne_raise (c : Option Call) (freq : Int) : stored c ≠ .raise freq := by
  unfold stored
  split <;> simp

theorem act_ne_raise (s : State F) (hl : ¬ Label.Begins l) (freq : Int) :
    s.act l ≠ .raise freq := by
  cases l with
  | call c =>
    cases c with
    | setFrequency freq => exact absurd trivial hl
    | setDemodType | setSampleRate | setBandwidth | setAudioSampleRate => simp [act]
  | finish i => exact stored_ne_raise _ freq
  | pre =>
    unfold act
    dsimp only
    split <;> simp
  | block | rates | resample | work | demodulate => simp [act]

/-- **A retune can be lost.**  The thread has copied the frequency while a call of
`setFrequency` was under way.  Until another one is made, the modem stays where it was: in
every run, once the call is over and the flag is lowered, `getFrequency` answers the
frequency of before. -/
theorem retune_lost {ls : List (Label F)} {freq : Int} (hs : s.step = .clearFrequency inp)
    (hcall : Call.setFrequency freq ∈ s.pending)
    (honly : ∀ freq', Call.setFrequency freq' ∈ s.pending → freq' = freq)
    (h : Run Step s ls t) (hls : ∀ l ∈ ls, ¬ Label.Begins l) :
    t.currentFrequency = s.currentFrequency ∧
      ((∀ freq', Call.setFrequency freq' ∉ t.pending) → (∀ inp, t.step ≠ .clearFrequency inp) →
        t.newFrequency = freq ∧ t.getFrequency = s.currentFrequency) := by
  have hmissed : s.cell.Missed s.currentFrequency freq := by
    refine ⟨rfl, .inl (by simp [cell, hs, PreStep.phase]), ?_, ?_⟩
    · intro b hb
      exact honly b (mem_calls.mp hb)
    · intro hnil
      have hin := mem_calls.mpr hcall
      rw [hnil] at hin
      cases hin
  have ht : t.cell.Missed s.currentFrequency freq := by
    refine h.invariant_on (I := fun u => u.cell.Missed s.currentFrequency freq)
      (P := fun l => ¬ Label.Begins l) ?_ hls hmissed
    intro u l t hl hu hstep
    exact hu.step (cell_step hstep) (u.act_ne_raise hl)
  refine ⟨ht.current, fun hover hstep => ht.read ?_ ?_⟩
  · rw [List.eq_nil_iff_forall_not_mem]
    intro b hb
    exact hover b (mem_calls.mp hb)
  · intro hclear
    obtain ⟨inp, hinp⟩ := phase_eq_clear.mp hclear
    exact hstep inp hinp

/-- The first call is taken over, and the second waits between its stores while the thread
takes it for one more of the first. -/
def overlappingCalls : List (Label Int) :=
  [.call (.setFrequency 100000000), .finish 0, .block ⟨100000000, 48000, []⟩, .pre, .pre, .pre,
    .rates 44100 0 0, .pre, .pre, .resample 0, .pre,
    .call (.setFrequency 100001000), .block ⟨100000000, 48000, []⟩, .pre, .pre]

/-- The second call is over, and the modem stays with the first. -/
theorem retune_lost_second :
    ∃ s t : State Int, Run Step start overlappingCalls s ∧ Run Step s [.finish 0, .pre] t ∧
      t.newFrequency = 100001000 ∧ t.getFrequency = 100000000 := by
  have hafter : ∃ s t : State Int,
      (start : State Int).after overlappingCalls = some s ∧
      s.after [.finish 0, .pre] = some t ∧
      s.step = .clearFrequency ⟨100000000, 48000, []⟩ ∧
      s.pending = [.setFrequency 100001000] ∧ s.currentFrequency = 100000000 ∧
      t.pending = [] ∧ t.step = .rates ⟨100000000, 48000, []⟩ :=
    ⟨_, _, rfl, rfl, rfl, rfl, rfl, rfl, rfl⟩
  obtain ⟨s, t, hs, ht, hclear, hpending, hcurrent, hover, hstep⟩ := hafter
  have hcall : Call.setFrequency 100001000 ∈ s.pending := by
    rw [hpending]
    exact List.mem_singleton_self _
  have honly : ∀ freq', Call.setFrequency freq' ∈ s.pending → freq' = 100001000 := by
    intro freq' hmem
    rw [hpending, List.mem_singleton] at hmem
    cases hmem
    rfl
  have hlost := retune_lost hclear hcall honly (run_of_after ht) (by simp [Label.Begins])
  obtain ⟨hnew, hget⟩ := hlost.2 (by simp [hover]) (by simp [hstep])
  exact ⟨s, t, run_of_after hs, run_of_after ht, hnew, hget.trans hcurrent⟩

end State

end PiScan.Cubic.DemodulatorPreThread

import PiScan.Cubic.ModemHandover

/-!
# The worker's queues

The thread waits where the command queue is full, its worker where the results are.  The
thread takes its results at the end of a pass of its loop, but a block that is too far from
the frequency of the modem ends the pass before, and if its sample rate is a new one, with a
further command behind it.

* `load`: the results that there are or that will come of the commands under way;
* `Paced.step`: a block adds at most one, and where the thread has found no result left
  there are at most three;
* `stuck_undrained`: so the two wait for each other only behind a hundred blocks in a row
  whose passes ended before the results;
* `stuck_far_blocks`: as they do behind a hundred and three such blocks.
-/

namespace PiScan.Cubic.DemodulatorPreThread

open Runs SDRPostThread

variable {F : Type}

/-- A step of the threads of the modem, which needs no caller and no new block. -/
def Label.Internal : Label F → Prop
  | .rates _ _ _ | .resample _ | .pre | .work | .demodulate => True
  | .call _ | .finish _ | .block _ => False

def PreStep.inHand : PreStep F → Nat
  | .push _ _ => 1
  | _ => 0

/-- The blocks whose command has not been made: the one in hand, before that point. -/
def PreStep.early : PreStep F → Nat
  | .testFrequency _ | .copyFrequency _ | .clearFrequency _ | .rates _ | .test _
  | .command _ _ => 1
  | _ => 0

def Batch.size (batch : Batch) : Nat :=
  if batch.filterCommand.isSome ∨ batch.demodCommand.isSome then 1 else 0

def WorkStep.size : WorkStep → Nat
  | .pop batch | .empty batch | .build batch => batch.size
  | .push _ => 1

theorem Batch.size_le (batch : Batch) : batch.size ≤ 1 := by
  unfold size
  split <;> omega

theorem Batch.size_take (batch : Batch) (command : Command) : (batch.take command).size = 1 := by
  unfold take
  split <;> simp [size]

theorem Batch.size_of_leading {batch : Batch} {command : Command}
    (h : batch.leading = some command) : batch.size = 1 := by
  rcases leading_cases h with hd | ⟨-, hf⟩
  · simp [size, hd]
  · simp [size, hf]

theorem WorkStep.size_le (step : WorkStep) : step.size ≤ 1 := by
  cases step with
  | push result => exact Nat.le_refl 1
  | pop batch | empty batch | build batch => exact batch.size_le

namespace State

variable {s t : State F}

/-- The results that wait for the thread, and those to come of commands under way. -/
def load (s : State F) : Nat :=
  s.workerResults.length + s.worker.step.size + s.workerQueue.length + s.step.inHand

structure Paced (s : State F) : Prop where
  queue : s.workerQueue.length ≤ WORKER_QUEUE_ITEMS
  results : s.workerResults.length ≤ WORKER_RESULTS_ITEMS
  load : s.load + s.step.early ≤ 3 + s.undrained

theorem paced_start : (start : State F).Paced :=
  ⟨Nat.zero_le _, Nat.zero_le _, Nat.zero_le _⟩

/-- The thread goes on where nothing but its own variables changes. -/
theorem Paced.move (h : s.Paced) (hq : t.workerQueue = s.workerQueue)
    (hr : t.workerResults = s.workerResults) (hw : t.worker = s.worker)
    (hu : t.undrained = s.undrained)
    (hstep : t.step.inHand + t.step.early ≤ s.step.inHand + s.step.early) : t.Paced := by
  have hload := h.load
  unfold State.load at hload
  refine ⟨by rw [hq]; exact h.queue, by rw [hr]; exact h.results, ?_⟩
  unfold State.load
  rw [hq, hr, hw, hu]
  omega

/-- A step of the worker, which makes no load. -/
theorem Paced.work (h : s.Paced) (hq : t.workerQueue.length ≤ WORKER_QUEUE_ITEMS)
    (hr : t.workerResults.length ≤ WORKER_RESULTS_ITEMS) (hstep : t.step = s.step)
    (hu : t.undrained = s.undrained)
    (hload : t.workerResults.length + t.worker.step.size + t.workerQueue.length ≤
      s.workerResults.length + s.worker.step.size + s.workerQueue.length) : t.Paced := by
  have hs := h.load
  unfold State.load at hs
  refine ⟨hq, hr, ?_⟩
  unfold State.load
  rw [hstep, hu]
  omega

theorem build_size {w : Worker} {h : Heap} {batch : Batch} {command : Command}
    {r : Heap × Worker} (hb : w.build h batch command = .ok r) : r.2.step.size = 1 := by
  unfold Worker.build at hb
  simp only [bind, Except.bind] at hb
  split at hb
  · cases hb
  · split at hb
    · cases hb
    · split at hb
      · cases hb
      · cases hb
        rfl

theorem Paced.begin (h : s.Paced) (c : Call) : (s.begin c).Paced := by
  cases c with
  | _ => exact h.move rfl rfl rfl rfl (Nat.le_refl _)

theorem Paced.finish (h : s.Paced) (i : Nat) (c : Call) : (s.finish i c).Paced := by
  cases c with
  | _ => exact h.move rfl rfl rfl rfl (Nat.le_refl _)

theorem Paced.takeResult (h : s.Paced) {inp : DemodulatorThreadIQData F} {result : Result}
    (ht : s.takeResult inp result = .ok t) : t.Paced := by
  obtain ⟨a, b, c, d, e, f, g, i, j, k, rfl⟩ := takeResult_eq ht
  exact h.move rfl rfl rfl rfl (Nat.le_refl _)

theorem Paced.test (h : s.Paced) {inp : DemodulatorThreadIQData F} (hs : s.step = .test inp)
    (ht : s.test inp = .ok t) : t.Paced := by
  obtain ⟨cmd, rfl⟩ | rfl := test_cases ht
  · exact h.move rfl rfl rfl rfl (by rw [hs]; exact Nat.le_refl _)
  · exact h.move rfl rfl rfl rfl (by rw [hs]; exact Nat.zero_le _)

/-- The command goes from the hand of the thread to the queue. -/
theorem Paced.pushed (h : s.Paced) {inp : DemodulatorThreadIQData F} {command : Command}
    (hs : s.step = .push inp command) (hroom : s.workerQueue.length < WORKER_QUEUE_ITEMS) :
    (s.pushed inp command).Paced := by
  have hload := h.load
  unfold State.load at hload
  rw [hs] at hload
  simp only [PreStep.inHand, PreStep.early] at hload
  have hlen : (s.workerQueue ++ [command]).length = s.workerQueue.length + 1 := by simp
  have hpaced : ({ s with workerQueue := s.workerQueue ++ [command], step := .shift inp } :
      State F).Paced := by
    refine ⟨by rw [hlen]; exact hroom, h.results, ?_⟩
    unfold State.load
    rw [hlen]
    simp only [PreStep.inHand, PreStep.early]
    omega
  unfold State.pushed
  cases command.cmd with
  | MAKE_DEMOD => exact hpaced.move rfl rfl rfl rfl (Nat.le_refl _)
  | BUILD_FILTERS => exact hpaced

theorem Paced.shift (h : s.Paced) (inp : DemodulatorThreadIQData F) : (s.shift inp).Paced := by
  have hmove : ∀ u : State F, u.workerQueue = s.workerQueue →
      u.workerResults = s.workerResults → u.worker = s.worker → u.undrained = s.undrained →
      u.step.inHand + u.step.early = 0 → u.Paced := by
    intro u hq hr hw hu hz
    exact h.move hq hr hw hu (by rw [hz]; exact Nat.zero_le _)
  unfold State.shift
  dsimp only
  split_ifs <;> exact hmove _ rfl rfl rfl rfl rfl

/-- The thread has no result left: two commands and the one of the worker are what is under
way at most. -/
theorem Paced.drained (h : s.Paced) (hres : s.workerResults = []) :
    ({ s with step := .pop, undrained := 0 } : State F).Paced := by
  have hsize := s.worker.step.size_le
  have hqueue := h.queue
  refine ⟨h.queue, h.results, ?_⟩
  unfold State.load
  rw [hres]
  simp only [PreStep.inHand, PreStep.early, List.length_nil, WORKER_QUEUE_ITEMS] at hqueue ⊢
  omega

theorem Paced.popResult (h : s.Paced) {result : Result} {results : List Result}
    (hres : s.workerResults = result :: results) : { s with workerResults := results }.Paced := by
  have hresults := h.results
  have hload := h.load
  unfold State.load at hload
  rw [hres, List.length_cons] at hresults hload
  refine ⟨h.queue, Nat.le_of_succ_le hresults, ?_⟩
  unfold State.load
  dsimp only
  omega

theorem Paced.pre (h : s.Paced) (hstep : s.pre = some (.ok t)) : t.Paced := by
  unfold State.pre at hstep
  split at hstep
  · next inp hs =>
    cases hstep
    refine h.move rfl rfl rfl rfl ?_
    rw [hs]
    show PreStep.inHand (ite _ _ _) + PreStep.early (ite _ _ _) ≤ 1
    split <;> exact Nat.le_refl _
  · next inp hs =>
    cases hstep
    exact h.move rfl rfl rfl rfl (by rw [hs]; exact Nat.le_refl _)
  · next inp hs =>
    cases hstep
    exact h.move rfl rfl rfl rfl (by rw [hs]; exact Nat.le_refl _)
  · next inp hs => exact h.test hs (Option.some.inj hstep)
  · next inp cmd hs =>
    cases hstep
    cases cmd with
    | _ => exact h.move rfl rfl rfl rfl (by rw [hs]; exact Nat.le_refl _)
  · next inp command hs =>
    split at hstep
    · next hroom =>
      cases hstep
      exact h.pushed hs hroom
    · cases hstep
  · next inp hs =>
    cases hstep
    exact h.shift inp
  · next inp resamp hs =>
    split at hstep
    · cases hstep
      exact h.move rfl rfl rfl rfl (by rw [hs]; exact Nat.le_refl _)
    · cases hstep
  · next inp hs =>
    split at hstep
    · next hres =>
      cases hstep
      exact h.drained hres
    · next result results hres => exact (h.popResult hres).takeResult (Option.some.inj hstep)
  · cases hstep
  · cases hstep
  · cases hstep

theorem Paced.workStep (h : s.Paced) (hstep : s.work = some (.ok t)) : t.Paced := by
  unfold State.work at hstep
  split at hstep
  · next batch hw =>
    split at hstep
    · cases hstep
    · next command commands hq =>
      cases hstep
      have hqueue := h.queue
      rw [hq, List.length_cons] at hqueue
      refine h.work (by dsimp only; omega) h.results rfl rfl ?_
      rw [hq, hw, List.length_cons]
      simp only [WorkStep.size, Batch.size_take]
      omega
  · next batch hw =>
    cases hstep
    refine h.work h.queue h.results rfl rfl ?_
    rw [hw]
    dsimp only
    split <;> exact Nat.le_refl _
  · next batch hw =>
    split at hstep
    · cases hstep
      refine h.work h.queue h.results rfl rfl ?_
      simp [WorkStep.size, Batch.size]
    · next command hlead =>
      cases hb : s.worker.build s.heap batch command with
      | error f =>
        rw [hb] at hstep
        cases hstep
      | ok r =>
        rw [hb] at hstep
        cases hstep
        refine h.work h.queue h.results rfl rfl ?_
        have hsize := build_size hb
        have hbatch := Batch.size_of_leading hlead
        rw [hw]
        dsimp only [WorkStep.size] at hsize ⊢
        omega
  · next result hw =>
    split at hstep
    · next hroom =>
      cases hstep
      refine h.work h.queue ?_ rfl rfl ?_
      · simp only [List.length_append, List.length_singleton]
        exact hroom
      · rw [hw]
        simp [WorkStep.size, Batch.size]
    · cases hstep

/-- What a step does to the load. -/
theorem Paced.step {l : Label F} (h : s.Paced) (hstep : Step s l t) : t.Paced := by
  unfold Step at hstep
  cases l with
  | call c =>
    cases hstep
    exact h.begin c
  | finish i =>
    simp only [next, Option.map_eq_some_iff] at hstep
    obtain ⟨c, -, hc⟩ := hstep
    cases hc
    exact h.finish i c
  | block inp =>
    simp only [next] at hstep
    split at hstep
    · next hs =>
      cases hstep
      have hload := h.load
      unfold State.load at hload
      rw [hs] at hload
      simp only [PreStep.inHand, PreStep.early] at hload
      refine ⟨h.queue, h.results, ?_⟩
      unfold State.load
      simp only [PreStep.inHand, PreStep.early]
      omega
    · cases hstep
  | rates rate rate' rate'' =>
    simp only [next] at hstep
    split at hstep
    · next inp hs =>
      cases hstep
      obtain ⟨a, b, c, d, heq⟩ := takeRates_eq s inp rate rate' rate''
      rw [heq]
      exact h.move rfl rfl rfl rfl (by rw [hs]; exact Nat.le_refl _)
    · cases hstep
  | resample numWritten =>
    simp only [next] at hstep
    split at hstep
    · next inp hs =>
      obtain ⟨resamp, rfl⟩ | rfl := send_cases (Option.some.inj hstep)
      · exact h.move rfl rfl rfl rfl (by rw [hs]; exact Nat.le_refl _)
      · exact h.move rfl rfl rfl rfl (by rw [hs]; exact Nat.le_refl _)
    · cases hstep
  | pre => exact h.pre hstep
  | work => exact h.workStep hstep
  | demodulate =>
    simp only [next] at hstep
    split at hstep
    · cases hstep
    · next inp rest hq =>
      cases hd : s.demodulator.demodulate s.heap inp with
      | error f =>
        rw [hd] at hstep
        cases hstep
      | ok r =>
        rw [hd] at hstep
        cases hstep
        exact h.move rfl rfl rfl rfl (Nat.le_refl _)

theorem paced_of_run {ls : List (Label F)} (h : Run Step start ls s) : s.Paced :=
  h.invariant (I := Paced) (fun _ _ _ hp hstep => hp.step hstep) paced_start

/-! ## Where the threads cannot go on -/

/-- None of the threads can take a step, though there is a block in hand. -/
def Stuck (s : State F) : Prop :=
  s.step ≠ .pop ∧ ∀ l : Label F, l.Internal → ∀ t, ¬ Step s l t

/-- The thread waits at the full command queue, its worker at the full results, and there is
no block for the demodulator thread. -/
def Jammed (s : State F) : Prop :=
  s.step.inHand = 1 ∧ s.worker.step.results.length = 1 ∧
    WORKER_QUEUE_ITEMS ≤ s.workerQueue.length ∧ WORKER_RESULTS_ITEMS ≤ s.workerResults.length ∧
    s.iqOutputQueue.length = 0

instance (s : State F) : Decidable s.Jammed := inferInstanceAs (Decidable (_ ∧ _))

theorem inHand_eq_one {step : PreStep F} :
    step.inHand = 1 ↔ ∃ inp command, step = .push inp command := by
  cases step <;> simp [PreStep.inHand]

theorem results_eq_one {step : WorkStep} :
    step.results.length = 1 ↔ ∃ result, step = .push result := by
  cases step <;> simp [WorkStep.results]

theorem Jammed.next_none (h : s.Jammed) {l : Label F} (hl : l.Internal ∨ ∃ inp, l = .block inp) :
    s.next l = none := by
  obtain ⟨hhand, hresult, hqueue, hresults, hidle⟩ := h
  obtain ⟨inp, command, hs⟩ := inHand_eq_one.mp hhand
  obtain ⟨result, hw⟩ := results_eq_one.mp hresult
  cases l with
  | call c => simp [Label.Internal] at hl
  | finish i => simp [Label.Internal] at hl
  | block inp => simp [next, hs]
  | rates rate rate' rate'' => simp [next, hs]
  | resample numWritten => simp [next, hs]
  | pre => simp [next, State.pre, hs, Nat.not_lt.mpr hqueue]
  | work => simp [next, State.work, hw, Nat.not_lt.mpr hresults]
  | demodulate => simp [next, List.eq_nil_of_length_eq_zero hidle]

theorem Jammed.stuck (h : s.Jammed) : s.Stuck := by
  constructor
  · intro hpop
    have hhand := h.1
    rw [hpop] at hhand
    cases hhand
  · intro l hl t ht
    unfold Step at ht
    rw [h.next_none (.inl hl)] at ht
    cases ht

/-- A caller, and there is nobody else, does not help. -/
theorem Jammed.step {l : Label F} (h : s.Jammed) (hstep : Step s l t) : t.Jammed := by
  unfold Step at hstep
  have hnone : l.Internal → s.next l = none := fun hl => h.next_none (.inl hl)
  cases l with
  | call c =>
    cases hstep
    cases c with
    | _ => exact h
  | finish i =>
    simp only [next, Option.map_eq_some_iff] at hstep
    obtain ⟨c, -, hc⟩ := hstep
    cases hc
    cases c with
    | _ => exact h
  | block inp =>
    rw [h.next_none (.inr ⟨inp, rfl⟩)] at hstep
    cases hstep
  | rates | resample | pre | work | demodulate =>
    rw [hnone trivial] at hstep
    cases hstep

theorem Fine.step {l : Label F} (h : Fine (s.next l)) (hn : s.next l ≠ none) :
    ∃ t, Step s l t := by
  obtain ⟨e, he⟩ := Option.ne_none_iff_exists'.mp hn
  obtain ⟨t, rfl, -⟩ := h e he
  exact ⟨t, he⟩

theorem queue_full (hpre : s.pre = none) {inp : DemodulatorThreadIQData F} {command : Command}
    (hs : s.step = .push inp command) : WORKER_QUEUE_ITEMS ≤ s.workerQueue.length := by
  by_contra hroom
  simp [State.pre, hs, Nat.lt_of_not_le hroom] at hpre

theorem results_full (hwork : s.work = none) (hqueue : s.workerQueue ≠ []) :
    s.worker.step.results.length = 1 ∧ WORKER_RESULTS_ITEMS ≤ s.workerResults.length := by
  unfold State.work at hwork
  split at hwork
  · split at hwork
    · next hempty => exact absurd hempty hqueue
    · cases hwork
  · cases hwork
  · split at hwork
    · cases hwork
    · cases hwork
  · next result hw =>
    split at hwork
    · cases hwork
    · next hroom => exact ⟨by rw [hw]; rfl, Nat.le_of_not_lt hroom⟩

/-- There is no other way to be stuck. -/
theorem Sound.jammed (h : s.Sound) (hstuck : s.Stuck) : s.Jammed := by
  obtain ⟨hpop, hno⟩ := hstuck
  have hnone : ∀ l : Label F, l.Internal → l.Positive → s.next l = none := by
    intro l hl hpos
    by_contra hn
    obtain ⟨t, ht⟩ := Fine.step (h.fine hpos) hn
    exact hno l hl t ht
  have hpre : s.pre = none := hnone .pre trivial trivial
  have hwork : s.work = none := hnone .work trivial trivial
  have hdemod : s.next .demodulate = none := hnone .demodulate trivial trivial
  have hidle : s.iqOutputQueue.length = 0 := by
    simp only [next] at hdemod
    split at hdemod
    · next hq => rw [hq, List.length_nil]
    · cases hdemod
  have hpush : ∃ inp command, s.step = .push inp command := by
    cases hs : s.step with
    | pop => exact absurd hs hpop
    | testFrequency inp => simp [State.pre, hs] at hpre
    | copyFrequency inp => simp [State.pre, hs] at hpre
    | clearFrequency inp => simp [State.pre, hs] at hpre
    | rates inp =>
      have hrates := hnone (.rates 0 0 0) trivial trivial
      simp [next, hs] at hrates
    | test inp => simp [State.pre, hs] at hpre
    | command inp cmd => simp [State.pre, hs] at hpre
    | push inp command => exact ⟨inp, command, rfl⟩
    | shift inp => simp [State.pre, hs] at hpre
    | send inp =>
      have hsend := hnone (.resample 0) trivial trivial
      simp [next, hs] at hsend
    | pushPost inp resamp => simp [State.pre, hs, hidle, IQ_OUTPUT_ITEMS] at hpre
    | drain inp =>
      simp only [State.pre, hs] at hpre
      split at hpre
      · cases hpre
      · cases hpre
  obtain ⟨inp, command, hs⟩ := hpush
  have hqueue := queue_full hpre hs
  have hne : s.workerQueue ≠ [] := by
    intro hempty
    rw [hempty] at hqueue
    exact absurd hqueue (by decide)
  obtain ⟨hresult, hresults⟩ := results_full hwork hne
  exact ⟨by rw [hs]; rfl, hresult, hqueue, hresults, hidle⟩

/-- **The thread and its worker wait for each other** only at full queues, and only where
the thread has taken more than a hundred blocks since it last came to the end of its
results; and then no call of a setter helps. -/
theorem stuck_undrained {ls : List (Label F)} (h : Run Step start ls s)
    (hpos : ∀ l ∈ ls, l.Positive) (hstuck : s.Stuck) :
    s.Jammed ∧ 100 < s.undrained ∧
      ∀ (ls' : List (Label F)) (t : State F), Run Step s ls' t → t.Stuck := by
  have hjam := (sound_of_run h hpos).jammed hstuck
  refine ⟨hjam, ?_, ?_⟩
  · obtain ⟨hhand, hresult, hq, hr, -⟩ := hjam
    obtain ⟨result, hw⟩ := results_eq_one.mp hresult
    have hload := (paced_of_run h).load
    unfold State.load at hload
    rw [hhand, hw] at hload
    simp only [WorkStep.size] at hload
    unfold WORKER_QUEUE_ITEMS at hq
    unfold WORKER_RESULTS_ITEMS at hr
    omega
  · intro ls' t hrun
    exact (hrun.invariant (I := Jammed) (fun _ _ _ hj hstep => hj.step hstep) hjam).stuck

/-- A block from another centre and at another rate: a pass of the thread with a command and
without a look at the results. -/
def farBlock : List (Label Int) :=
  [.block ⟨300000000, 96000, []⟩, .pre, .rates 44100 0 0, .pre, .pre, .pre, .pre]

/-- A hundred results, one in the hand of the worker, two commands in the queue and one in
the hand of the thread. -/
def farBlocks : List (Label Int) :=
  firstBlocks ++ [.pre, .demodulate, .work, .work, .work, .work] ++
    (List.replicate 99 (farBlock ++ [.work, .work, .work, .work])).flatten ++
    farBlock ++ [.work, .work, .work] ++ farBlock ++ farBlock ++ farBlock.take 5

/-- A hundred and three blocks are enough. -/
theorem stuck_far_blocks :
    ∃ s : State Int, Run Step start farBlocks s ∧ s.Stuck ∧ 100 < s.undrained := by
  have hafter : ((start : State Int).after farBlocks).any (fun s => decide s.Jammed) = true := by
    decide +kernel
  obtain ⟨s, hs, hjam⟩ := (Option.any_eq_true _ _).mp hafter
  have hrun := run_of_after hs
  have hstuck := (of_decide_eq_true hjam).stuck
  exact ⟨s, hrun, hstuck, (stuck_undrained hrun (by decide +kernel) hstuck).2.1⟩

end State

end PiScan.Cubic.DemodulatorPreThread

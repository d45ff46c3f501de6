import Mathlib.Data.List.ReduceOption
import PiScan.Lib.Run

/-!
# Playing the audio of the modems

`audioCallback` of `audio/AudioThread.cpp` fills the buffer of the audio device from
the input queues of the bound threads, and hands the same audio to the RTSP stream.

* `playSamples_pending`: the loop over the frames plays what the thread holds, in order;
* `plays_in_order`: over any run the samples played are among those pushed, in their
  order and none twice;
* `plays_all`: of mono inputs at the rate of the device none is left out, and no frame
  between two samples is silent;
* `audioCallback_mono`: with mono inputs the stream gets what the device plays.
-/

namespace PiScan.Cubic

open Runs

/-- The arithmetic of `float` and `double` that the mixer uses. -/
structure Floats (F : Type) where
  zero : F
  one : F
  two : F
  add : F → F → F
  mul : F → F → F
  inv : F → F
  less : F → F → Bool

structure AudioThreadInput (F : Type) where
  sampleRate : Nat
  channels : Nat
  peak : F
  data : List F
  deriving DecidableEq, Repr

/-- What the callback uses of a bound `AudioThread`. -/
structure AudioThread (F : Type) where
  inputQueue : List (AudioThreadInput F)
  currentInput : Option (AudioThreadInput F)
  audioQueuePtr : Nat
  gain : F
  active : Bool
  terminated : Bool

namespace AudioThread

variable {F : Type} (fl : Floats F)

/-! ## One thread -/

/-- The loops over `n` samples: the samples that are mixed in, `none` where an empty
input is silent, and `mixPeak`. -/
def playSamples : Nat → AudioThread F → F → AudioThread F × List (Option F) × F
  | 0, s, mixPeak => (s, [], mixPeak)
  | n + 1, s, mixPeak =>
    match s.currentInput with
    | none => (s, [], mixPeak)
    | some input =>
      if input.data.length ≤ s.audioQueuePtr then
        match s.inputQueue with
        | [] => ({ s with currentInput := none, audioQueuePtr := 0 }, [], mixPeak)
        | input :: queue =>
          let srcPeak := fl.mul input.peak s.gain
          let r := playSamples n
            { s with inputQueue := queue, currentInput := some input, audioQueuePtr := 1 }
            (if fl.less mixPeak srcPeak then srcPeak else mixPeak)
          (r.1, input.data[0]? :: r.2.1, r.2.2)
      else
        let r := playSamples n { s with audioQueuePtr := s.audioQueuePtr + 1 } mixPeak
        (r.1, input.data[s.audioQueuePtr]? :: r.2.1, r.2.2)

/-- The loop over inputs of another sample rate. -/
def skipInputs (sampleRate : Nat) :
    List (AudioThreadInput F) → Option (AudioThreadInput F) × List (AudioThreadInput F)
  | [] => (none, [])
  | input :: queue =>
    if input.sampleRate = sampleRate then (some input, queue) else skipInputs sampleRate queue

/-- An input of another sample rate is replaced, unless there is none to replace it. -/
def matchRate (sampleRate : Nat) (input : AudioThreadInput F) (s : AudioThread F) :
    AudioThread F :=
  if input.sampleRate = sampleRate then s
  else
    match s.inputQueue with
    | [] => { s with audioQueuePtr := 0 }
    | queue =>
      let r := skipInputs sampleRate queue
      { s with currentInput := r.1, inputQueue := r.2, audioQueuePtr := 0 }

/-- The part of one bound thread in a callback of `nBufferFrames` frames: what it mixes in,
by the channels of its input.  `flushed` is a `setActive` between the test of the queue
and the lock. -/
def playThread (sampleRate nBufferFrames : Nat) (flushed : Bool) (s : AudioThread F) :
    AudioThread F × Option (Nat × List (Option F) × F) :=
  if s.terminated || s.inputQueue.isEmpty || !s.active then (s, none)
  else
    let s := if flushed then { s with inputQueue := [] } else s
    match s.currentInput with
    | none =>
      match s.inputQueue with
      | [] => ({ s with audioQueuePtr := 0 }, none)
      | input :: queue =>
        ({ s with inputQueue := queue, currentInput := some input, audioQueuePtr := 0 }, none)
    | some input =>
      let s := s.matchRate sampleRate input
      match s.currentInput with
      | none => (s, none)
      | some input =>
        if input.channels = 0 ∨ input.data.length = 0 then
          match s.inputQueue with
          | [] => (s, none)
          | input :: queue =>
            ({ s with inputQueue := queue, currentInput := some input, audioQueuePtr := 0 }, none)
        else
          let n := if input.channels = 1 then nBufferFrames else input.channels * nBufferFrames
          let r := playSamples fl n s (fl.mul input.peak s.gain)
          (r.1, some (input.channels, r.2.1, r.2.2))

def push (input : AudioThreadInput F) (s : AudioThread F) : AudioThread F :=
  { s with inputQueue := s.inputQueue ++ [input] }

/-- `setActive`, which clears any inputs. -/
def setActive (active : Bool) (s : AudioThread F) : AudioThread F :=
  { s with inputQueue := [], active := active }

def setGain (gain : F) (s : AudioThread F) : AudioThread F :=
  let gain := if fl.less gain fl.zero then fl.zero else gain
  { s with gain := if fl.less fl.two gain then fl.two else gain }

/-- The end of `run`. -/
def terminate (s : AudioThread F) : AudioThread F :=
  { s with inputQueue := [], currentInput := none, terminated := true }

/-- The samples that the thread holds and has not played. -/
def pending (s : AudioThread F) : List F :=
  (s.currentInput.elim [] fun input => input.data.drop s.audioQueuePtr) ++
    s.inputQueue.flatMap AudioThreadInput.data

/-- **The loop over the frames** plays the first samples that the thread holds. -/
theorem playSamples_pending (n : Nat) (s : AudioThread F) (mixPeak : F) :
    (playSamples fl n s mixPeak).2.1.reduceOption ++ (playSamples fl n s mixPeak).1.pending =
      s.pending := by
  induction n generalizing s mixPeak with
  | zero => rfl
  | succ n ih =>
    unfold playSamples
    split
    · rfl
    · next input hinput =>
      split
      · next hend =>
        have hdone : s.pending = s.inputQueue.flatMap AudioThreadInput.data := by
          simp only [pending, hinput, Option.elim_some, List.drop_eq_nil_of_le hend, List.nil_append]
        rw [hdone]
        split
        · next hqueue =>
          simp only [pending, hqueue]
          rfl
        · next input' queue hqueue =>
          dsimp only
          rw [hqueue, List.flatMap_cons]
          cases hdata : input'.data with
          | nil =>
            rw [List.getElem?_nil, List.reduceOption_cons_of_none, ih]
            simp only [pending, Option.elim_some, hdata, List.drop_nil]
          | cons x xs =>
            rw [List.getElem?_cons_zero, List.reduceOption_cons_of_some, List.cons_append, ih]
            simp only [pending, Option.elim_some, hdata, List.drop_succ_cons, List.drop_zero,
              List.cons_append]
      · next hmore =>
        have hlt : s.audioQueuePtr < input.data.length := by omega
        dsimp only
        rw [List.getElem?_eq_getElem hlt, List.reduceOption_cons_of_some, List.cons_append, ih]
        simp only [pending, hinput, Option.elim_some]
        rw [List.drop_eq_getElem_cons hlt, List.cons_append]

theorem skipInputs_sublist (sampleRate : Nat) (queue : List (AudioThreadInput F)) :
    ((skipInputs sampleRate queue).1.elim [] AudioThreadInput.data ++
      (skipInputs sampleRate queue).2.flatMap AudioThreadInput.data).Sublist
        (queue.flatMap AudioThreadInput.data) := by
  induction queue with
  | nil => exact .slnil
  | cons input queue ih =>
    unfold skipInputs
    split
    · exact .refl _
    · exact ih.trans (List.sublist_append_right ..)

theorem matchRate_sublist {sampleRate : Nat} {input : AudioThreadInput F} {s : AudioThread F}
    (hok : input.sampleRate = sampleRate ∨ s.inputQueue ≠ []) :
    (s.matchRate sampleRate input).pending.Sublist s.pending := by
  unfold matchRate
  split
  · exact .refl _
  · next hne =>
    split
    · next hnil => exact absurd hnil (hok.resolve_left hne)
    · have hskip := skipInputs_sublist sampleRate s.inputQueue
      refine List.Sublist.trans ?_ (List.sublist_append_right ..)
      cases hfound : (skipInputs sampleRate s.inputQueue).1 with
      | none =>
        rw [hfound] at hskip
        simpa only [pending, hfound, Option.elim_none] using hskip
      | some input =>
        rw [hfound] at hskip
        simpa only [pending, hfound, Option.elim_some, List.drop_zero] using hskip

/-- The samples of one thread in a callback. -/
def mixed (r : Option (Nat × List (Option F) × F)) : List F :=
  r.elim [] fun m => m.2.1.reduceOption

/-- No `setActive` empties the queue when the input is of another rate. -/
def Undisturbed (s : AudioThread F) (sampleRate : Nat) (flushed : Bool) : Prop :=
  flushed = true → ∀ input, s.currentInput = some input → input.sampleRate = sampleRate

/-- **One callback** plays samples that the thread holds, in order, and keeps others. -/
theorem playThread_sublist {sampleRate n : Nat} {flushed : Bool} {s : AudioThread F}
    (h : s.Undisturbed sampleRate flushed) :
    (mixed (playThread fl sampleRate n flushed s).2 ++
      (playThread fl sampleRate n flushed s).1.pending).Sublist s.pending := by
  unfold playThread
  split
  · exact .refl _
  · next hplays =>
    have hflush : (if flushed then { s with inputQueue := [] } else s).pending.Sublist s.pending := by
      split
      · simp only [pending, List.flatMap_nil]
        exact (List.Sublist.refl _).append (List.nil_sublist _)
      · exact .refl _
    have hcurrent : (if flushed then { s with inputQueue := [] } else s).currentInput =
        s.currentInput := by
      split <;> rfl
    have hok : ∀ input, s.currentInput = some input → input.sampleRate = sampleRate ∨
        (if flushed then { s with inputQueue := [] } else s).inputQueue ≠ [] := by
      intro input hinput
      cases hf : flushed with
      | true => exact .inl (h hf input hinput)
      | false =>
        right
        intro hnil
        simp only [Bool.false_eq_true, if_false] at hnil
        simp [hnil] at hplays
    dsimp only
    generalize (if flushed then { s with inputQueue := [] } else s) = u at *
    refine List.Sublist.trans ?_ hflush
    split
    · next hnone =>
      split
      · simp [mixed, pending, hnone]
      · next input queue hqueue => simp [mixed, pending, hnone, hqueue]
    · next input hinput =>
      refine List.Sublist.trans ?_ (matchRate_sublist (hok input (hcurrent ▸ hinput)))
      generalize u.matchRate sampleRate input = v
      split
      · exact .refl _
      · next input' hinput' =>
        split
        · split
          · exact .refl _
          · next next queue hqueue =>
            simp only [mixed, pending, Option.elim_none, Option.elim_some, List.nil_append, hqueue,
              hinput', List.drop_zero, List.flatMap_cons]
            exact List.sublist_append_right ..
        · simp only [mixed, Option.elim_some]
          rw [playSamples_pending]

/-! ## Runs -/

inductive Label (F : Type)
  | push (input : AudioThreadInput F)
  | setActive (active : Bool)
  | setGain (gain : F)
  | terminate
  | callback (sampleRate nBufferFrames : Nat) (flushed : Bool)

/-- A thread, and what it has mixed in at each callback. -/
structure State (F : Type) where
  thread : AudioThread F
  log : List (List (Option F))

def next (s : State F) : Label F → State F
  | .push input => { s with thread := s.thread.push input }
  | .setActive active => { s with thread := s.thread.setActive active }
  | .setGain gain => { s with thread := s.thread.setGain fl gain }
  | .terminate => { s with thread := s.thread.terminate }
  | .callback sampleRate n flushed =>
    let r := playThread fl sampleRate n flushed s.thread
    { thread := r.1, log := s.log ++ [r.2.elim [] fun m => m.2.1] }

def Step (s : State F) (l : Label F) (t : State F) : Prop := t = next fl s l

def init (gain : F) : State F where
  thread :=
    { inputQueue := [], currentInput := none, audioQueuePtr := 0, gain := gain, active := true
      terminated := false }
  log := []

/-- All samples that have been played. -/
def played (s : State F) : List F := s.log.flatten.reduceOption

/-- The samples that are pushed at a step. -/
def pushed : Label F → List F
  | .push input => input.data
  | _ => []

def Calm (s : State F) : Label F → Prop
  | .callback sampleRate _ flushed => s.thread.Undisturbed sampleRate flushed
  | _ => True

theorem played_snoc (s : State F) (t : AudioThread F) (r : Option (Nat × List (Option F) × F)) :
    played { thread := t, log := s.log ++ [r.elim [] fun m => m.2.1] } = played s ++ mixed r := by
  unfold played mixed
  rw [List.flatten_append, List.reduceOption_append]
  cases r with
  | none => rfl
  | some m => simp

/-- What is played and what is held are among what was, and what is pushed. -/
theorem step_sublist {s t : State F} {l : Label F} (h : Step fl s l t) (hl : Calm s l) :
    (played t ++ t.thread.pending).Sublist (played s ++ s.thread.pending ++ pushed l) := by
  subst h
  rw [List.append_assoc]
  cases l with
  | push input =>
    refine .append (.refl _) ?_
    simp [next, AudioThread.push, pending, pushed]
  | setActive active =>
    refine .append (.refl _) ?_
    simp [next, AudioThread.setActive, pending, pushed]
  | setGain gain => simp [next, AudioThread.setGain, pending, pushed, played]
  | terminate =>
    refine .append (.refl _) ?_
    simp [next, AudioThread.terminate, pending, pushed]
  | callback sampleRate n flushed =>
    simp only [next, pushed, List.append_nil]
    rw [played_snoc, List.append_assoc]
    exact .append (.refl _) (playThread_sublist fl hl)

/-- **In order, none twice.**  Over any run of pushes, callbacks and `setActive`s the
samples that a thread has played are among those pushed, in their order and each at
most once; as long as the queue is not cleared between the test and the lock of a
callback while the current input is of another rate. -/
theorem plays_in_order {gain : F} {ls : List (Label F)} {s : State F}
    (h : Run (Guarded (Step fl) Calm) (init gain) ls s) :
    (played s).Sublist (ls.flatMap pushed) := by
  have hsub : (played s ++ s.thread.pending).Sublist (([] ++ ls).flatMap pushed) := by
    refine h.history (I := fun pre s => (played s ++ s.thread.pending).Sublist (pre.flatMap pushed))
      (P := fun _ => True) ?_ (fun _ _ => trivial) .slnil
    rintro pre s l t - hi ⟨hstep, hok⟩
    rw [List.flatMap_append, List.flatMap_singleton]
    exact (step_sublist fl hstep hok).trans (hi.append (.refl _))
  exact (List.sublist_append_left ..).trans hsub

/-- An input of the device's rate with one channel, which is not empty. -/
def Mono (sampleRate : Nat) (input : AudioThreadInput F) : Prop :=
  input.sampleRate = sampleRate ∧ input.channels = 1 ∧ input.data ≠ []

/-- Only such inputs are pushed, callbacks are at the device's rate without a flush, and the
thread stays active; the gain may change. -/
def Steady (sampleRate : Nat) : Label F → Prop
  | .push input => Mono sampleRate input
  | .setGain _ => True
  | .callback rate _ flushed => rate = sampleRate ∧ flushed = false
  | .setActive _ | .terminate => False

/-- The thread plays, and holds only such inputs. -/
structure Plays (sampleRate : Nat) (s : AudioThread F) : Prop where
  active : s.active = true
  running : s.terminated = false
  current : ∀ input, s.currentInput = some input → Mono sampleRate input
  queue : ∀ input ∈ s.inputQueue, Mono sampleRate input

/-- The loop over the frames leaves no frame silent. -/
theorem playSamples_plays {sampleRate : Nat} (n : Nat) {s : AudioThread F} (mixPeak : F)
    (h : Plays sampleRate s) :
    Plays sampleRate (playSamples fl n s mixPeak).1 ∧ none ∉ (playSamples fl n s mixPeak).2.1 := by
  induction n generalizing s mixPeak with
  | zero => exact ⟨h, List.not_mem_nil⟩
  | succ n ih =>
    unfold playSamples
    split
    · exact ⟨h, List.not_mem_nil⟩
    · split
      · split
        · exact ⟨⟨h.active, h.running, fun _ hnone => (by cases hnone), h.queue⟩, List.not_mem_nil⟩
        · next input queue hqueue =>
          have hmono := h.queue input (by simp [hqueue])
          obtain ⟨hplays, hsound⟩ := ih
            (if fl.less mixPeak (fl.mul input.peak s.gain) then fl.mul input.peak s.gain else mixPeak)
            (s := ⟨queue, some input, 1, s.gain, s.active, s.terminated⟩)
            ⟨h.active, h.running, fun _ hsome => Option.some.inj hsome ▸ hmono,
              fun i hi => h.queue i (by simp [hqueue, hi])⟩
          refine ⟨hplays, ?_⟩
          intro hm
          rcases List.mem_cons.mp hm with hsilent | hm
          · have hempty := List.getElem?_eq_none_iff.mp hsilent.symm
            exact hmono.2.2 (List.eq_nil_of_length_eq_zero (by omega))
          · exact hsound hm
      · next input hinput hmore =>
        obtain ⟨hplays, hsound⟩ := ih mixPeak
          (s := ⟨s.inputQueue, s.currentInput, s.audioQueuePtr + 1, s.gain, s.active, s.terminated⟩)
          ⟨h.active, h.running, h.current, h.queue⟩
        refine ⟨hplays, ?_⟩
        intro hm
        rcases List.mem_cons.mp hm with hsilent | hm
        · have hend := List.getElem?_eq_none_iff.mp hsilent.symm
          omega
        · exact hsound hm

/-- One callback of a thread that plays leaves nothing out. -/
theorem playThread_plays {sampleRate : Nat} (n : Nat) {s : AudioThread F}
    (h : Plays sampleRate s) :
    Plays sampleRate (playThread fl sampleRate n false s).1 ∧
      mixed (playThread fl sampleRate n false s).2 ++
        (playThread fl sampleRate n false s).1.pending = s.pending ∧
      none ∉ (playThread fl sampleRate n false s).2.elim [] (fun m => m.2.1) := by
  unfold playThread
  simp only [Bool.false_eq_true, if_false]
  split
  · exact ⟨h, rfl, List.not_mem_nil⟩
  · split
    · next hnone =>
      split
      · exact ⟨⟨h.active, h.running, h.current, h.queue⟩, by simp [mixed, pending, hnone],
          List.not_mem_nil⟩
      · next input queue hqueue =>
        have hmono := h.queue input (by simp [hqueue])
        exact ⟨⟨h.active, h.running, fun _ hsome => Option.some.inj hsome ▸ hmono,
          fun i hi => h.queue i (by simp [hqueue, hi])⟩,
          by simp [mixed, pending, hnone, hqueue], List.not_mem_nil⟩
    · next input hinput =>
      have hmono := h.current input hinput
      have hmatch : s.matchRate sampleRate input = s := if_pos hmono.1
      rw [hmatch, hinput]
      dsimp only
      rw [if_neg]
      · obtain ⟨hplays, hsound⟩ := playSamples_plays fl
          (if input.channels = 1 then n else input.channels * n) (fl.mul input.peak s.gain) h
        exact ⟨hplays, playSamples_pending fl _ s _, hsound⟩
      · rintro (hzero | hempty)
        · rw [hmono.2.1] at hzero
          cases hzero
        · exact hmono.2.2 (List.eq_nil_of_length_eq_zero hempty)

/-- **Nothing left out.**  Where only mono inputs of the device's rate that are not empty
are pushed, whatever the sizes of the inputs and of the callbacks, the samples played
and those still held are all that were pushed, in order, and no frame of a callback is
silent before the last that it plays. -/
theorem plays_all {sampleRate : Nat} {gain : F} {ls : List (Label F)} {s : State F}
    (h : Run (Step fl) (init gain) ls s) (hls : ∀ l ∈ ls, Steady sampleRate l) :
    played s ++ s.thread.pending = ls.flatMap pushed ∧ ∀ frames ∈ s.log, none ∉ frames := by
  have hsound : (Plays sampleRate s.thread ∧ ∀ frames ∈ s.log, none ∉ frames) ∧
      played s ++ s.thread.pending = ([] ++ ls).flatMap pushed := by
    refine h.history (I := fun pre s => (Plays sampleRate s.thread ∧
      ∀ frames ∈ s.log, none ∉ frames) ∧ played s ++ s.thread.pending = pre.flatMap pushed)
      (P := Steady sampleRate) ?_ hls ?_
    · rintro pre s l t hl ⟨⟨hplays, hlog⟩, hall⟩ rfl
      rw [List.flatMap_append, List.flatMap_singleton, ← hall]
      cases l with
      | push input =>
        refine ⟨⟨⟨hplays.active, hplays.running, hplays.current, ?_⟩, hlog⟩, ?_⟩
        · intro i hi
          rcases List.mem_append.mp hi with hi | hi
          · exact hplays.queue i hi
          · rw [List.mem_singleton.mp hi]
            exact hl
        · simp [next, AudioThread.push, pending, pushed, played]
      | setActive active => exact absurd hl id
      | terminate => exact absurd hl id
      | setGain gain =>
        refine ⟨⟨⟨hplays.active, hplays.running, hplays.current, hplays.queue⟩, hlog⟩, ?_⟩
        simp [next, AudioThread.setGain, pending, pushed, played]
      | callback rate n flushed =>
        obtain ⟨rfl, rfl⟩ := hl
        obtain ⟨hplays', hexact, hsound⟩ := playThread_plays fl n hplays
        refine ⟨⟨hplays', ?_⟩, ?_⟩
        · intro frames hm
          rcases List.mem_append.mp hm with hm | hm
          · exact hlog frames hm
          · rw [List.mem_singleton.mp hm]
            exact hsound
        · simp only [next, pushed, List.append_nil]
          rw [played_snoc, List.append_assoc, hexact]
    · exact ⟨⟨⟨rfl, rfl, fun _ hnone => (by cases hnone), fun _ hm => (by cases hm)⟩,
        fun _ hm => (by cases hm)⟩, rfl⟩
  exact ⟨hsound.2, hsound.1.2⟩

/-- Whole numbers for the samples of an example. -/
def whole : Floats Int where
  zero := 0
  one := 1
  two := 2
  add := (· + ·)
  mul := (· * ·)
  inv := id
  less a b := a < b

/-- Two inputs in callbacks of two frames; the first callback only fetches an input. -/
theorem plays_two_inputs :
    ∃ s : State Int, played s = [7, 8, 9] ∧ played s ++ s.thread.pending = [7, 8, 9] := by
  have hrun : ∃ s, Run (Step whole) (init 1)
      [.push ⟨8000, 1, 0, [7, 8]⟩, .callback 8000 2 false, .push ⟨8000, 1, 0, [9]⟩,
        .callback 8000 4 false] s ∧ played s = [7, 8, 9] :=
    ⟨_, .cons rfl <| .cons rfl <| .cons rfl <| .single rfl, by decide⟩
  obtain ⟨s, hs, hplayed⟩ := hrun
  have hsteady : ∀ l ∈ [Label.push ⟨8000, 1, (0 : Int), [7, 8]⟩, .callback 8000 2 false,
      .push ⟨8000, 1, 0, [9]⟩, .callback 8000 4 false], Steady 8000 l := by
    simp [Steady, Mono]
  exact ⟨s, hplayed, (plays_all whole hs hsteady).1⟩

/-- An input of another rate is passed over. -/
theorem plays_one_rate : ∃ s : State Int, played s = [9] ∧ (played s).Sublist [7, 8, 9] := by
  have hrun : ∃ s, Run (Guarded (Step whole) Calm) (init 1)
      [.push ⟨48000, 1, 0, [7, 8]⟩, .push ⟨8000, 1, 0, [9]⟩, .callback 8000 2 false,
        .callback 8000 2 false] s ∧ played s = [9] :=
    ⟨_, .cons ⟨rfl, trivial⟩ <| .cons ⟨rfl, trivial⟩ <| .cons ⟨rfl, nofun⟩ <|
      .single ⟨rfl, nofun⟩, by decide⟩
  obtain ⟨s, hs, hplayed⟩ := hrun
  exact ⟨s, hplayed, plays_in_order whole hs⟩

/-! ## The mixer -/

/-- A sample for both channels of a frame of `out`. -/
def addMono (gain : F) : List F → List (Option F) → List F
  | left :: right :: out, x :: frames =>
    match x with
    | none => left :: right :: addMono gain out frames
    | some v =>
      fl.add left (fl.mul v gain) :: fl.add right (fl.mul v gain) :: addMono gain out frames
  | out, _ => out

/-- A sample for every place of `out`. -/
def addInterleaved (gain : F) : List F → List (Option F) → List F
  | y :: out, x :: samples =>
    match x with
    | none => y :: addInterleaved gain out samples
    | some v => fl.add y (fl.mul v gain) :: addInterleaved gain out samples
  | out, _ => out

/-- The loop over the bound threads; the flag is that of `playThread`. -/
def mixThreads (sampleRate nBufferFrames : Nat) :
    List (Bool × AudioThread F) → List F → F → List (AudioThread F) × List F × F
  | [], out, peak => ([], out, peak)
  | (flushed, s) :: threads, out, peak =>
    let r := playThread fl sampleRate nBufferFrames flushed s
    let rest :=
      match r.2 with
      | none => mixThreads sampleRate nBufferFrames threads out peak
      | some (channels, frames, mixPeak) =>
        mixThreads sampleRate nBufferFrames threads
          (if channels = 1 then addMono fl s.gain out frames
            else addInterleaved fl s.gain out frames)
          (fl.add peak mixPeak)
    (r.1 :: rest.1, rest.2)

/-- What goes to the RTSP stream: every second value. -/
def batch : List F → List F
  | left :: _ :: out => left :: batch out
  | _ => []

/-- `audioCallback` of a controller that runs: the threads, the buffer of the device and
the batch for the stream. -/
def audioCallback (sampleRate nBufferFrames : Nat) (threads : List (Bool × AudioThread F)) :
    List (AudioThread F) × List F × List F :=
  let r := mixThreads fl sampleRate nBufferFrames threads
    (List.replicate (nBufferFrames * 2) fl.zero) fl.zero
  let out := if fl.less fl.one r.2.2 then r.2.1.map (fl.mul · (fl.inv r.2.2)) else r.2.1
  (r.1, out, batch out)

/-- Both channels of `n` frames are the same. -/
def Doubled (n : Nat) (out : List F) : Prop :=
  ∃ mix : List F, mix.length = n ∧ out = mix.flatMap fun x => [x, x]

/-- All inputs of the thread have one channel. -/
def OneChannel (s : AudioThread F) : Prop :=
  (∀ input, s.currentInput = some input → input.channels = 1) ∧
    ∀ input ∈ s.inputQueue, input.channels = 1

theorem doubled_addMono {n : Nat} {out : List F} (h : Doubled n out) (gain : F)
    (frames : List (Option F)) : Doubled n (addMono fl gain out frames) := by
  obtain ⟨mix, rfl, rfl⟩ := h
  induction mix generalizing frames with
  | nil => exact ⟨[], rfl, by simp [addMono]⟩
  | cons x mix ih =>
    cases frames with
    | nil => exact ⟨x :: mix, rfl, by simp [addMono]⟩
    | cons y frames =>
      obtain ⟨mix', hlen, hmix⟩ := ih frames
      simp only [List.flatMap_cons, List.cons_append, List.nil_append, addMono, hmix]
      cases y with
      | none => exact ⟨x :: mix', by simp [hlen], rfl⟩
      | some v => exact ⟨fl.add x (fl.mul v gain) :: mix', by simp [hlen], rfl⟩

theorem batch_doubled (mix : List F) : batch (mix.flatMap fun x => [x, x]) = mix := by
  induction mix with
  | nil => rfl
  | cons x mix ih => simp only [List.flatMap_cons, List.cons_append, List.nil_append, batch, ih]

theorem mem_of_skipInputs {sampleRate : Nat} {queue : List (AudioThreadInput F)}
    {input : AudioThreadInput F}
    (h : (skipInputs sampleRate queue).1 = some input ∨ input ∈ (skipInputs sampleRate queue).2) :
    input ∈ queue := by
  induction queue with
  | nil => rcases h with h | h <;> cases h
  | cons i queue ih =>
    unfold skipInputs at h
    split at h
    · rcases h with h | h
      · cases h
        exact List.mem_cons_self ..
      · exact List.mem_cons_of_mem _ h
    · exact List.mem_cons_of_mem _ (ih h)

theorem OneChannel.matchRate {s : AudioThread F} (h : OneChannel s) (sampleRate : Nat)
    (input : AudioThreadInput F) : OneChannel (s.matchRate sampleRate input) := by
  unfold AudioThread.matchRate
  split
  · exact h
  · split
    · exact h
    · exact ⟨fun i hi => h.2 i (mem_of_skipInputs (.inl hi)),
        fun i hi => h.2 i (mem_of_skipInputs (.inr hi))⟩

/-- The next input of the queue is taken. -/
theorem OneChannel.take {s : AudioThread F} (h : OneChannel s) {input : AudioThreadInput F}
    {queue : List (AudioThreadInput F)} (hqueue : s.inputQueue = input :: queue) (ptr : Nat) :
    OneChannel { s with
      inputQueue := queue, currentInput := some input, audioQueuePtr := ptr } :=
  ⟨fun _ hi => Option.some.inj hi ▸ h.2 input (by simp [hqueue]),
    fun i hi => h.2 i (by simp [hqueue, hi])⟩

theorem OneChannel.playSamples (n : Nat) {s : AudioThread F} (h : OneChannel s) (mixPeak : F) :
    OneChannel (playSamples fl n s mixPeak).1 := by
  induction n generalizing s mixPeak with
  | zero => exact h
  | succ n ih =>
    unfold AudioThread.playSamples
    split
    · exact h
    · split
      · split
        · exact ⟨fun _ hnone => (by cases hnone), h.2⟩
        · next hqueue => exact ih (h.take hqueue 1) _
      · exact ih (s := { s with audioQueuePtr := s.audioQueuePtr + 1 }) ⟨h.1, h.2⟩ _

theorem OneChannel.playThread {s : AudioThread F} (h : OneChannel s) (sampleRate n : Nat)
    (flushed : Bool) :
    OneChannel (playThread fl sampleRate n flushed s).1 ∧
      ∀ m, (playThread fl sampleRate n flushed s).2 = some m → m.1 = 1 := by
  have hflush : OneChannel (if flushed then { s with inputQueue := [] } else s) := by
    split
    · exact ⟨h.1, fun _ hi => (by cases hi)⟩
    · exact h
  unfold AudioThread.playThread
  dsimp only
  generalize (if flushed then { s with inputQueue := [] } else s) = u at *
  split
  · exact ⟨h, fun _ hm => (by cases hm)⟩
  · split
    · split
      · exact ⟨⟨hflush.1, hflush.2⟩, fun _ hm => (by cases hm)⟩
      · next hqueue => exact ⟨hflush.take hqueue 0, fun _ hm => (by cases hm)⟩
    · next input _ =>
      have hmatch := hflush.matchRate sampleRate input
      generalize u.matchRate sampleRate input = v at *
      split
      · exact ⟨hmatch, fun _ hm => (by cases hm)⟩
      · next input' hinput =>
        split
        · split
          · exact ⟨hmatch, fun _ hm => (by cases hm)⟩
          · next hqueue => exact ⟨hmatch.take hqueue 0, fun _ hm => (by cases hm)⟩
        · refine ⟨hmatch.playSamples fl _ _, ?_⟩
          intro m hm
          cases hm
          exact hmatch.1 input' hinput

theorem mixThreads_mono (sampleRate n : Nat) {threads : List (Bool × AudioThread F)}
    (h : ∀ p ∈ threads, OneChannel p.2) {out : List F} (hout : Doubled n out) (peak : F) :
    (∀ s ∈ (mixThreads fl sampleRate n threads out peak).1, OneChannel s) ∧
      Doubled n (mixThreads fl sampleRate n threads out peak).2.1 := by
  induction threads generalizing out peak with
  | nil => exact ⟨fun _ hm => (by cases hm), hout⟩
  | cons p threads ih =>
    obtain ⟨flushed, s⟩ := p
    have hs : OneChannel s := h (flushed, s) (List.mem_cons_self ..)
    obtain ⟨hnext, hone⟩ := hs.playThread fl sampleRate n flushed
    have hrest : ∀ p ∈ threads, OneChannel p.2 := fun p hp => h p (List.mem_cons_of_mem _ hp)
    unfold mixThreads
    dsimp only
    split
    · obtain ⟨hthreads, hdoubled⟩ := ih hrest hout peak
      refine ⟨?_, hdoubled⟩
      intro t ht
      rcases List.mem_cons.mp ht with rfl | ht
      · exact hnext
      · exact hthreads t ht
    · next channels frames mixPeak hplayed =>
      rw [if_pos (hone _ hplayed)]
      obtain ⟨hthreads, hdoubled⟩ :=
        ih hrest (doubled_addMono fl hout s.gain frames) (fl.add peak mixPeak)
      refine ⟨?_, hdoubled⟩
      intro t ht
      rcases List.mem_cons.mp ht with rfl | ht
      · exact hnext
      · exact hthreads t ht

/-- **The stream hears what the device plays.**  Where the inputs of the bound threads
have one channel, whatever their rates and sizes, the batch for the RTSP stream has one
value for every frame, both channels of the device play just that value, and the inputs
left over have one channel again. -/
theorem audioCallback_mono (sampleRate n : Nat) {threads : List (Bool × AudioThread F)}
    (h : ∀ p ∈ threads, OneChannel p.2) :
    (audioCallback fl sampleRate n threads).2.2.length = n ∧
      (audioCallback fl sampleRate n threads).2.1 =
        (audioCallback fl sampleRate n threads).2.2.flatMap (fun x => [x, x]) ∧
      ∀ s ∈ (audioCallback fl sampleRate n threads).1, OneChannel s := by
  have hzero : Doubled n (List.replicate (n * 2) fl.zero) := by
    refine ⟨List.replicate n fl.zero, List.length_replicate .., ?_⟩
    induction n with
    | zero => rfl
    | succ n ih =>
      rw [Nat.add_mul, List.replicate_add, ih, Nat.one_mul, List.replicate_succ' (n := n),
        List.flatMap_append]
      rfl
  obtain ⟨hthreads, mix, hlen, hmix⟩ := mixThreads_mono fl sampleRate n h hzero fl.zero
  unfold audioCallback
  dsimp only
  generalize mixThreads fl sampleRate n threads (List.replicate (n * 2) fl.zero) fl.zero = r at *
  have hnormal : ∃ mix : List F, mix.length = n ∧
      (if fl.less fl.one r.2.2 then r.2.1.map (fl.mul · (fl.inv r.2.2)) else r.2.1) =
        mix.flatMap fun x => [x, x] := by
    split
    · refine ⟨mix.map (fl.mul · (fl.inv r.2.2)), by rw [List.length_map, hlen], ?_⟩
      rw [hmix, List.map_flatMap, List.flatMap_map]
      rfl
    · exact ⟨mix, hlen, hmix⟩
  obtain ⟨out, hlen', hout⟩ := hnormal
  rw [hout, batch_doubled]
  exact ⟨hlen', rfl, hthreads⟩

/-- Two threads, one of them with nothing to play. -/
theorem audioCallback_two :
    (audioCallback whole 8000 2
      [(false, ⟨[⟨8000, 1, 0, [5]⟩], some ⟨8000, 1, 0, [7]⟩, 0, 2, true, false⟩),
        (false, ⟨[], none, 0, 1, true, false⟩)]).2 = ([14, 14, 10, 10], [14, 10]) ∧
    (audioCallback whole 8000 2
      [(false, ⟨[⟨8000, 1, 0, [5]⟩], some ⟨8000, 1, 0, [7]⟩, 0, 2, true, false⟩),
        (false, ⟨[], none, 0, 1, true, false⟩)]).2.2.length = 2 :=
  ⟨by decide, (audioCallback_mono whole 8000 2 (by simp [OneChannel])).1⟩

end AudioThread

end PiScan.Cubic

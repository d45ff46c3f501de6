import Mathlib.Data.List.Forall2
import PiScan.Lib.Run

/-!
# Reading the device

`SDRThread::readStream` cuts what the device returns into batches of `numElems`
samples for the `IQDataOutput` queue.  The device answers in chunks of its own size,
so what is too much for one batch waits in `overflowBuffer` for the next.

* `copySamples_eq`: the copying loop, as what it leaves in the buffer;
* `Reading.step`: what one step does to the samples in hand;
* `conserves`: over any run the samples of the batches and those in hand are those
  the device returned, each once and in their order, and no access is out of bounds;
* `batches_whole`: a batch that the queue gets is whole rows of its channels, unless the
  device failed it;
* `stops_blocked`: `stopSystem` is called only after fifty reads in a row that gave the
  queue no batch, empty reads included.
-/

namespace PiScan.Cubic

open Runs

/-- `liquid_float_complex`. -/
structure Complex (F : Type) where
  real : F
  imag : F
  deriving DecidableEq, Repr

/-- `SDRThreadIQData`. -/
structure SDRThreadIQData (F : Type) where
  frequency : Int
  sampleRate : Nat
  dcCorrected : Bool
  numChannels : Nat
  data : List (Complex F)

namespace SDRThread

variable {F : Type}

/-! ## Buffers -/

/-- The sample in two floats of the device; `swap` is `iq_swap`. -/
def sample (swap : Bool) (a b : F) : Complex F := if swap then ⟨b, a⟩ else ⟨a, b⟩

/-- `data.resize`. -/
def resize (zero : Complex F) (data : List (Complex F)) (n : Nat) : List (Complex F) :=
  data.take n ++ List.replicate (n - data.length) zero

def assureBufferMinSize (zero : Complex F) (data : List (Complex F)) (minSize : Nat) :
    List (Complex F) :=
  if data.length < minSize then resize zero data minSize else data

/-- `::memcpy` and `::memmove` of `n` samples from `src[i]` on to the beginning of
`dst`; `none` is an access out of bounds. -/
def copyBlock (dst src : List (Complex F)) (i n : Nat) : Option (List (Complex F)) :=
  if i + n ≤ src.length ∧ n ≤ dst.length then some ((src.drop i).take n ++ dst.drop n) else none

/-- One pass of the copying loops. -/
def copySample (swap : Bool) (pp : List F) (start : Nat) (data : List (Complex F)) (i : Nat) :
    Option (List (Complex F)) :=
  match pp[2 * i]?, pp[2 * i + 1]? with
  | some a, some b =>
    if start + i < data.length then some (data.set (start + i) (sample swap a b)) else none
  | _, _ => none

/-- `for (int i = 0; i < n; i++)` -/
def copySamples (swap : Bool) (pp : List F) (start n : Nat) (data : List (Complex F)) :
    Option (List (Complex F)) :=
  (List.range n).foldlM (copySample swap pp start) data

/-- The floats of the device two by two. -/
def pairs : List F → List (F × F)
  | [] => []
  | [_] => []
  | a :: b :: pp => (a, b) :: pairs pp

def samples (swap : Bool) (ps : List (F × F)) : List (Complex F) :=
  ps.map fun p => sample swap p.1 p.2

theorem length_pairs (pp : List F) : (pairs pp).length = pp.length / 2 := by
  induction pp using pairs.induct with
  | case1 => simp [pairs]
  | case2 a => simp [pairs]
  | case3 a b pp ih =>
    simp only [pairs, List.length_cons, ih]
    omega

theorem pairs_drop (pp : List F) (n : Nat) : pairs (pp.drop (n * 2)) = (pairs pp).drop n := by
  induction n generalizing pp with
  | zero => simp
  | succ n ih =>
    match pp with
    | [] => simp [pairs]
    | [a] => simp [pairs, show (n + 1) * 2 = n * 2 + 1 + 1 by omega]
    | a :: b :: pp =>
      rw [show (n + 1) * 2 = n * 2 + 1 + 1 by omega, List.drop_succ_cons, List.drop_succ_cons, ih]
      rfl

theorem getElem?_of_pairs {pp : List F} {i : Nat} {p : F × F} (h : (pairs pp)[i]? = some p) :
    pp[2 * i]? = some p.1 ∧ pp[2 * i + 1]? = some p.2 := by
  induction pp using pairs.induct generalizing i with
  | case1 => simp [pairs] at h
  | case2 a => simp [pairs] at h
  | case3 a b pp ih =>
    cases i with
    | zero =>
      simp only [pairs, List.getElem?_cons_zero, Option.some.injEq] at h
      subst h
      exact ⟨rfl, rfl⟩
    | succ i =>
      simp only [pairs, List.getElem?_cons_succ] at h
      exact ih h

theorem length_assureBufferMinSize (zero : Complex F) (data : List (Complex F)) (n : Nat) :
    (assureBufferMinSize zero data n).length = max data.length n := by
  unfold assureBufferMinSize resize
  split
  · simp only [List.length_append, List.length_take, List.length_replicate]
    omega
  · omega

/-- What a buffer holds is kept when it grows. -/
theorem take_assureBufferMinSize (zero : Complex F) {data : List (Complex F)} (n : Nat) {k : Nat}
    (h : k ≤ data.length) : (assureBufferMinSize zero data n).take k = data.take k := by
  unfold assureBufferMinSize resize
  split
  · next hlt =>
    rw [List.take_of_length_le (by omega : data.length ≤ n), List.take_append_of_le_length h]
  · rfl

theorem copyBlock_eq (dst src : List (Complex F)) (i n : Nat) (hsrc : i + n ≤ src.length)
    (hdst : n ≤ dst.length) :
    ∃ dst', copyBlock dst src i n = some dst' ∧ dst'.length = dst.length ∧
      dst'.take n = (src.drop i).take n := by
  refine ⟨_, if_pos ⟨hsrc, hdst⟩, ?_, ?_⟩
  · simp only [List.length_append, List.length_take, List.length_drop]
    omega
  · rw [List.take_append_of_le_length (by simp; omega), List.take_take, Nat.min_self]

/-- **The copying loop** puts `n` samples behind the first `start`. -/
theorem copySamples_eq (swap : Bool) (pp : List F) (start n : Nat)
    (data : List (Complex F)) (hpp : 2 * n ≤ pp.length) (hdata : start + n ≤ data.length) :
    ∃ data', copySamples swap pp start n data = some data' ∧ data'.length = data.length ∧
      data'.take (start + n) = data.take start ++ samples swap ((pairs pp).take n) := by
  induction n with
  | zero => exact ⟨data, rfl, rfl, by simp [samples]⟩
  | succ n ih =>
    obtain ⟨mid, hmid, hlen, htake⟩ := ih (by omega) (by omega)
    have hn : n < (pairs pp).length := by
      rw [length_pairs]
      omega
    obtain ⟨hfst, hsnd⟩ := getElem?_of_pairs (List.getElem?_eq_getElem hn)
    have hroom : start + n < mid.length := by omega
    refine ⟨mid.set (start + n) (sample swap (pairs pp)[n].1 (pairs pp)[n].2), ?_, ?_, ?_⟩
    · unfold copySamples at hmid ⊢
      rw [List.range_succ, List.foldlM_append, hmid]
      simp only [Option.bind_eq_bind, Option.bind_some, List.foldlM_cons, List.foldlM_nil,
        copySample, hfst, hsnd, if_pos hroom]
      rfl
    · rw [List.length_set, hlen]
    · rw [← Nat.add_assoc, List.take_add_one, List.take_set_of_le (Nat.le_refl _), htake,
        List.getElem?_set_self hroom, List.take_add_one, List.getElem?_eq_getElem hn]
      simp only [samples, Option.toList_some, List.map_append, List.map_cons, List.map_nil,
        List.append_assoc]

/-! ## The thread -/

/-- Where `readStream` is.  After `reading` the loop test comes next, after `spilling`
the second half of a chunk that is too long.  `answer` is the last answer of the device
in this call, the value of `readStreamCode`, which is 0 before the device is asked. -/
inductive Phase (F : Type)
  | idle
  | reading (nRead : Nat) (dataOut : List (Complex F)) (answer : Option Int)
  | spilling (nRead : Nat) (dataOut : List (Complex F)) (answer : Option Int) (pp : List F)
      (numNewOverflow : Nat)
  | posting (nRead : Nat) (dataOut : List (Complex F)) (answer : Option Int)
  | outOfBounds

/-- How a call of `readStream` ends: with a batch that the queue takes, a batch that it does
not take, or no sample at all.  A change of the sample rate drops the overflow. -/
inductive Event (F : Type)
  | delivered (batch : SDRThreadIQData F) (answer : Option Int)
  | discarded (data : List (Complex F))
  | nothing
  | cleared (data : List (Complex F))

def Event.data : Event F → List (Complex F)
  | .delivered batch _ => batch.data
  | .discarded data => data
  | .nothing => []
  | .cleared data => data

def Event.isDelivered : Event F → Bool
  | .delivered _ _ => true
  | _ => false

/-- A call that gave the queue no batch. -/
def Event.isBlocked : Event F → Bool
  | .discarded _ | .nothing => true
  | _ => false

/-- The end of a call with `nRead` samples that the queue does not get. -/
def Event.ofLost (nRead : Nat) (dataOut : List (Complex F)) : Event F :=
  if nRead = 0 then .nothing else .discarded (dataOut.take nRead)

@[simp] theorem Event.data_delivered (batch : SDRThreadIQData F) (answer : Option Int) :
    (Event.delivered batch answer).data = batch.data := rfl

@[simp] theorem Event.data_discarded (data : List (Complex F)) :
    (Event.discarded data).data = data := rfl

@[simp] theorem Event.data_cleared (data : List (Complex F)) :
    (Event.cleared data).data = data := rfl

@[simp] theorem Event.data_ofLost (nRead : Nat) (dataOut : List (Complex F)) :
    (Event.ofLost nRead dataOut).data = dataOut.take nRead := by
  unfold Event.ofLost
  split
  · next hzero => rw [hzero, List.take_zero, Event.data]
  · rfl

theorem Event.isBlocked_ofLost (nRead : Nat) (dataOut : List (Complex F)) :
    (Event.ofLost nRead dataOut).isBlocked = true ∧
      (Event.ofLost nRead dataOut).isDelivered = false := by
  unfold Event.ofLost
  split <;> exact ⟨rfl, rfl⟩

structure State (F : Type) where
  frequency : Int
  sampleRate : Nat
  rateChanged : Bool
  iqSwap : Bool
  stopping : Bool
  hasHardwareDC : Bool
  numChannels : Nat
  numElems : Nat
  mtuElems : Nat
  overflowBuffer : List (Complex F)
  numOverflow : Nat
  blockedAttempts : Nat
  stopSystem : Nat
  phase : Phase F
  log : List (Event F)

inductive Label (F : Type)
  | setSampleRate (rate : Nat)
  | setFrequency (freq : Int)
  | setIQSwap (swap : Bool)
  | terminate
  | updateSettings (rate streamMTU : Nat)
  | getBuffer (data : List (Complex F))
  | leave
  | readStream (code : Int) (pp : List F)
  | spill
  | post (full accepted terminated : Bool)

def CHANNELIZER_RATE_MAX : Nat := 500000

def TARGET_DISPLAY_FPS : Nat := 60

/-- The quotients are exact in `double`: rounding up and down agree with the integers. -/
def getOptimalChannelCount (sampleRate : Nat) : Nat :=
  if sampleRate ≤ CHANNELIZER_RATE_MAX then 1
  else
    let optimalCount := (sampleRate + (CHANNELIZER_RATE_MAX - 1)) / CHANNELIZER_RATE_MAX
    max (if optimalCount % 2 = 1 then optimalCount - 1 else optimalCount) 2

def getOptimalElementCount (numChannels sampleRate fps : Nat) : Nat :=
  (sampleRate / fps + (numChannels - 1)) / numChannels * numChannels

namespace State

variable [Zero F]

def goto (s : State F) (phase : Phase F) : State F := { s with phase := phase }

/-- The state in which `init` leaves the thread, at a sample rate of the device. -/
def init (frequency : Int) (hasHardwareDC : Bool) (rate streamMTU : Nat) : State F :=
  let numChannels := getOptimalChannelCount rate
  let numElems := getOptimalElementCount numChannels rate TARGET_DISPLAY_FPS
  let mtuElems := if streamMTU = 0 then numElems else streamMTU
  { frequency := frequency, sampleRate := rate, rateChanged := false, iqSwap := false
    stopping := false, hasHardwareDC := hasHardwareDC, numChannels := numChannels
    numElems := numElems, mtuElems := mtuElems
    overflowBuffer := List.replicate mtuElems ⟨0, 0⟩, numOverflow := 0
    blockedAttempts := 0, stopSystem := 0, phase := .idle, log := [] }

/-- The branch `rate_changed` of `updateSettings`. -/
def updateRate (s : State F) (rate streamMTU : Nat) : State F :=
  let numChannels := getOptimalChannelCount rate
  let numElems := getOptimalElementCount numChannels rate TARGET_DISPLAY_FPS
  let mtuElems := if streamMTU = 0 then numElems else streamMTU
  { s with
    sampleRate := rate, rateChanged := false, numChannels := numChannels, numElems := numElems
    mtuElems := mtuElems, overflowBuffer := resize ⟨0, 0⟩ s.overflowBuffer mtuElems
    numOverflow := 0, log := s.log ++ [.cleared (s.overflowBuffer.take s.numOverflow)] }

/-- Steps 0 and 1 of `readStream`; `data` is what the recycled buffer still holds. -/
def beginBatch (s : State F) (data : List (Complex F)) : State F :=
  let dataOut := assureBufferMinSize ⟨0, 0⟩ data s.numElems
  if 0 < s.numOverflow then
    let nOverflow := min s.numOverflow s.numElems
    let dataOut := assureBufferMinSize ⟨0, 0⟩ dataOut nOverflow
    match copyBlock dataOut s.overflowBuffer 0 nOverflow with
    | none => s.goto .outOfBounds
    | some dataOut =>
      let left := s.numOverflow - nOverflow
      if 0 < left then
        match copyBlock s.overflowBuffer s.overflowBuffer nOverflow left with
        | none => s.goto .outOfBounds
        | some overflowBuffer =>
          { s with overflowBuffer := overflowBuffer, numOverflow := left
                   phase := .reading nOverflow dataOut none }
      else { s with numOverflow := left, phase := .reading nOverflow dataOut none }
  else s.goto (.reading 0 dataOut none)

/-- The device has answered with `code`, and for a positive code with the floats `pp`. -/
def readChunk (s : State F) (nRead : Nat) (dataOut : List (Complex F)) (code : Int)
    (pp : List F) : State F :=
  if code ≤ 0 then s.goto (.posting nRead dataOut (some code))
  else
    let n := code.toNat
    if s.numElems < nRead + n then
      let nRequested := s.numElems - nRead
      let dataOut := assureBufferMinSize ⟨0, 0⟩ dataOut (nRead + nRequested)
      match copySamples s.iqSwap pp nRead nRequested dataOut with
      | none => s.goto .outOfBounds
      | some dataOut =>
        s.goto (.spilling (nRead + nRequested) dataOut (some code) (pp.drop (nRequested * 2))
          (n - nRequested))
    else
      let dataOut := assureBufferMinSize ⟨0, 0⟩ dataOut (nRead + n)
      match copySamples s.iqSwap pp nRead n dataOut with
      | none => s.goto .outOfBounds
      | some dataOut => s.goto (.reading (nRead + n) dataOut (some code))

/-- The rest of the chunk goes to the overflow buffer. -/
def spillChunk (s : State F) (nRead : Nat) (dataOut : List (Complex F)) (answer : Option Int)
    (pp : List F) (numNewOverflow : Nat) : State F :=
  let overflowBuffer :=
    assureBufferMinSize ⟨0, 0⟩ s.overflowBuffer (s.numOverflow + numNewOverflow)
  match copySamples s.iqSwap pp s.numOverflow numNewOverflow overflowBuffer with
  | none => s.goto .outOfBounds
  | some overflowBuffer =>
    { s with overflowBuffer := overflowBuffer, numOverflow := s.numOverflow + numNewOverflow
             phase := .reading nRead dataOut answer }

/-- Step 3 of `readStream`; `terminated` is a `terminate` of another thread between
the two tests of `stopping`. -/
def postBatch (s : State F) (nRead : Nat) (dataOut : List (Complex F)) (answer : Option Int)
    (full accepted terminated : Bool) : State F :=
  if 0 < nRead ∧ s.stopping = false ∧ full = false then
    let data := resize ⟨0, 0⟩ dataOut nRead
    if accepted then
      { s with
        blockedAttempts := 0, phase := .idle
        log := s.log ++ [.delivered ⟨s.frequency, s.sampleRate, s.hasHardwareDC, s.numChannels,
          data⟩ answer] }
    else
      { s with
        blockedAttempts := s.blockedAttempts + 1, phase := .idle
        log := s.log ++ [.discarded data] }
  else if s.stopping || terminated then
    { s with stopping := true, phase := .idle, log := s.log ++ [.ofLost nRead dataOut] }
  else
    { s with
      blockedAttempts := s.blockedAttempts + 1
      stopSystem := if 50 ≤ s.blockedAttempts + 1 then s.stopSystem + 1 else s.stopSystem
      phase := .idle, log := s.log ++ [.ofLost nRead dataOut] }

def next (s : State F) : Label F → Option (State F)
  | .setSampleRate rate => some { s with sampleRate := rate, rateChanged := true }
  | .setFrequency freq =>
    some { s with frequency := if freq < s.sampleRate / 2 then s.sampleRate / 2 else freq }
  | .setIQSwap swap => some { s with iqSwap := swap }
  | .terminate => some { s with stopping := true }
  | .updateSettings rate streamMTU =>
    match s.phase with
    | .idle => if s.rateChanged then some (s.updateRate rate streamMTU) else none
    | _ => none
  | .getBuffer data =>
    match s.phase with
    | .idle => some (s.beginBatch data)
    | _ => none
  | .leave =>
    match s.phase with
    | .reading nRead dataOut answer =>
      if s.numElems ≤ nRead ∨ s.stopping then some (s.goto (.posting nRead dataOut answer))
      else none
    | _ => none
  | .readStream code pp =>
    match s.phase with
    | .reading nRead dataOut _ =>
      if nRead < s.numElems then some (s.readChunk nRead dataOut code pp) else none
    | _ => none
  | .spill =>
    match s.phase with
    | .spilling nRead dataOut answer pp n => some (s.spillChunk nRead dataOut answer pp n)
    | _ => none
  | .post full accepted terminated =>
    match s.phase with
    | .posting nRead dataOut answer =>
      some (s.postBatch nRead dataOut answer full accepted terminated)
    | _ => none

def Step (s : State F) (l : Label F) (t : State F) : Prop := s.next l = some t

/-! ## The samples in hand -/

/-- The samples of the batch under way, and those of the overflow buffer behind them. -/
def kept (s : State F) : List (Complex F) :=
  match s.phase with
  | .reading nRead dataOut _ | .spilling nRead dataOut _ _ _ | .posting nRead dataOut _ =>
    dataOut.take nRead ++ s.overflowBuffer.take s.numOverflow
  | .idle | .outOfBounds => s.overflowBuffer.take s.numOverflow

/-- All samples that have been stored, in the order of the batches. -/
def held (s : State F) : List (Complex F) := s.log.flatMap Event.data ++ s.kept

/-- What is still in the buffer of the device. -/
def pending (s : State F) : List (F × F) :=
  match s.phase with
  | .spilling _ _ _ pp n => (pairs pp).take n
  | _ => []

/-- The samples that the device returns at a step. -/
def arrived : Label F → List (F × F)
  | .readStream code pp => (pairs pp).take code.toNat
  | _ => []

/-- The buffers are large enough for what `readStream` does next. -/
def PhaseFits (s : State F) : Phase F → Prop
  | .idle => True
  | .reading nRead dataOut _ =>
    nRead ≤ s.numElems ∧ s.numElems ≤ dataOut.length ∧ (nRead < s.numElems → s.numOverflow = 0)
  | .spilling nRead dataOut _ pp n =>
    nRead = s.numElems ∧ s.numElems ≤ dataOut.length ∧ s.numOverflow = 0 ∧ 2 * n ≤ pp.length ∧
      n ≤ s.mtuElems
  | .posting nRead dataOut answer =>
    nRead ≤ dataOut.length ∧
      (nRead = s.numElems ∨ (∃ code ≤ 0, answer = some code) ∨ s.stopping = true)
  | .outOfBounds => False

structure Fits (s : State F) : Prop where
  overflow : s.numOverflow ≤ s.overflowBuffer.length
  chunk : s.numOverflow ≤ s.mtuElems
  phase : s.PhaseFits s.phase

/-- A step stores what was pending or arrives, up to what is then pending. -/
def Stores (s t : State F) (ps : List (F × F)) : Prop :=
  ∃ done, s.pending ++ ps = done ++ t.pending ∧ t.held = s.held ++ samples s.iqSwap done

/-- The device returns no more samples than it was asked for, and all of them. -/
def Answers (s : State F) : Label F → Prop
  | .readStream code pp => code ≤ s.mtuElems ∧ 2 * code ≤ pp.length
  | _ => True

variable {s t : State F}

omit [Zero F] in
theorem Stores.of_held (hpending : s.pending = t.pending) (hheld : t.held = s.held) :
    Stores s t [] :=
  ⟨[], by simp [hpending], by simp [hheld, samples]⟩

theorem beginBatch_spec (h : s.Fits) (hphase : s.phase = .idle) (data : List (Complex F)) :
    (s.beginBatch data).Fits ∧ Stores s (s.beginBatch data) [] := by
  have hlen := length_assureBufferMinSize (⟨0, 0⟩ : Complex F) data s.numElems
  have hpending : s.pending = [] := by simp only [pending, hphase]
  have hfit := h.overflow
  have hchunk := h.chunk
  unfold beginBatch
  split
  · next hover =>
    have hlen' := length_assureBufferMinSize (⟨0, 0⟩ : Complex F)
      (assureBufferMinSize ⟨0, 0⟩ data s.numElems) (min s.numOverflow s.numElems)
    obtain ⟨dataOut, hcopy, hout, htake⟩ := copyBlock_eq (assureBufferMinSize ⟨0, 0⟩
      (assureBufferMinSize ⟨0, 0⟩ data s.numElems) (min s.numOverflow s.numElems))
      s.overflowBuffer 0 (min s.numOverflow s.numElems) (by omega) (by rw [hlen']; omega)
    simp only [hcopy]
    rw [hlen', hlen] at hout
    rw [List.drop_zero] at htake
    split
    · next hleft =>
      -- more overflow than one batch: the batch is full and the rest moves to the front
      obtain ⟨overflowBuffer, hmove, hmoved, hrest⟩ := copyBlock_eq s.overflowBuffer
        s.overflowBuffer (min s.numOverflow s.numElems)
        (s.numOverflow - min s.numOverflow s.numElems) (by omega) (by omega)
      simp only [hmove]
      refine ⟨⟨?_, ?_, ?_, ?_, ?_⟩, .of_held hpending ?_⟩
      · simp only
        omega
      · simp only
        omega
      · simp only
        omega
      · simp only
        omega
      · intro hlt
        simp only at hlt
        omega
      · simp only [held, kept, hphase]
        rw [htake, hrest, ← List.take_add]
        congr 3
        omega
    · next hleft =>
      refine ⟨⟨?_, ?_, ?_, ?_, ?_⟩, .of_held hpending ?_⟩
      · simp only
        omega
      · simp only
        omega
      · simp only
        omega
      · simp only
        omega
      · intro _
        simp only
        omega
      · simp only [held, kept, hphase]
        rw [htake, show s.numOverflow - min s.numOverflow s.numElems = 0 by omega,
          show min s.numOverflow s.numElems = s.numOverflow by omega, List.take_zero,
          List.append_nil]
  · next hover =>
    refine ⟨⟨hfit, hchunk, Nat.zero_le _, ?_, ?_⟩, .of_held hpending ?_⟩
    · simp only [goto]
      omega
    · intro _
      simp only [goto]
      omega
    · simp only [held, kept, hphase, goto, List.take_zero, List.nil_append]

theorem readChunk_spec {nRead : Nat} {dataOut : List (Complex F)} {answer : Option Int}
    {code : Int} {pp : List F} (h : s.Fits) (hphase : s.phase = .reading nRead dataOut answer)
    (hlt : nRead < s.numElems) (hanswer : Answers s (.readStream code pp)) :
    (s.readChunk nRead dataOut code pp).Fits ∧
      Stores s (s.readChunk nRead dataOut code pp) (arrived (.readStream code pp)) := by
  obtain ⟨hcode, hpp⟩ := hanswer
  have hfit := h.overflow
  have hchunk := h.chunk
  have hpending : s.pending = [] := by simp only [pending, hphase]
  obtain ⟨hle, hroom, hempty⟩ : nRead ≤ s.numElems ∧ s.numElems ≤ dataOut.length ∧
      (nRead < s.numElems → s.numOverflow = 0) := by
    have hp := h.phase
    rw [hphase] at hp
    exact hp
  have hzero := hempty hlt
  unfold readChunk Stores
  rw [hpending, List.nil_append]
  split
  · next hneg =>
    refine ⟨⟨hfit, hchunk, Nat.le_trans hle hroom, .inr (.inl ⟨code, hneg, rfl⟩)⟩, ⟨[], ?_, ?_⟩⟩
    · simp only [arrived, pending, goto, Int.toNat_of_nonpos hneg, List.take_zero,
        List.append_nil]
    · simp only [held, kept, hphase, goto, samples, List.map_nil, List.append_nil]
  · next hpos =>
    dsimp only
    split
    · next hover =>
      have hlen := length_assureBufferMinSize (⟨0, 0⟩ : Complex F) dataOut
        (nRead + (s.numElems - nRead))
      obtain ⟨out, hcopy, hout, htake⟩ := copySamples_eq s.iqSwap pp nRead
        (s.numElems - nRead)
        (assureBufferMinSize ⟨0, 0⟩ dataOut (nRead + (s.numElems - nRead))) (by omega)
        (by rw [hlen]; omega)
      simp only [hcopy]
      rw [take_assureBufferMinSize _ _ (by omega)] at htake
      refine ⟨⟨hfit, hchunk, by simp only [goto]; omega, by simp only [goto]; omega, hzero, ?_,
        by simp only [goto]; omega⟩, ⟨(pairs pp).take (s.numElems - nRead), ?_, ?_⟩⟩
      · rw [List.length_drop]
        omega
      · simp only [arrived, pending, goto]
        rw [pairs_drop, ← List.take_add]
        congr 1
        omega
      · simp only [held, kept, hphase, goto]
        rw [htake, hzero, List.take_zero, List.append_nil, List.append_nil, List.append_assoc]
    · next hover =>
      have hlen := length_assureBufferMinSize (⟨0, 0⟩ : Complex F) dataOut (nRead + code.toNat)
      obtain ⟨out, hcopy, hout, htake⟩ := copySamples_eq s.iqSwap pp nRead code.toNat
        (assureBufferMinSize ⟨0, 0⟩ dataOut (nRead + code.toNat)) (by omega)
        (by rw [hlen]; omega)
      simp only [hcopy]
      rw [take_assureBufferMinSize _ _ (by omega)] at htake
      refine ⟨⟨hfit, hchunk, by simp only [goto]; omega, by simp only [goto]; omega,
        fun _ => hzero⟩, ⟨(pairs pp).take code.toNat, ?_, ?_⟩⟩
      · simp only [arrived, pending, goto, List.append_nil]
      · simp only [held, kept, hphase, goto]
        rw [htake, hzero, List.take_zero, List.append_nil, List.append_nil, List.append_assoc]

theorem spillChunk_spec {nRead n : Nat} {dataOut : List (Complex F)} {answer : Option Int}
    {pp : List F} (h : s.Fits) (hphase : s.phase = .spilling nRead dataOut answer pp n) :
    (s.spillChunk nRead dataOut answer pp n).Fits ∧
      Stores s (s.spillChunk nRead dataOut answer pp n) [] := by
  have hfit := h.overflow
  obtain ⟨hfull, hroom, hzero, hpp, hchunk⟩ : nRead = s.numElems ∧ s.numElems ≤ dataOut.length ∧
      s.numOverflow = 0 ∧ 2 * n ≤ pp.length ∧ n ≤ s.mtuElems := by
    have hp := h.phase
    rw [hphase] at hp
    exact hp
  have hlen := length_assureBufferMinSize (⟨0, 0⟩ : Complex F) s.overflowBuffer
    (s.numOverflow + n)
  obtain ⟨out, hcopy, hout, htake⟩ := copySamples_eq s.iqSwap pp s.numOverflow n
    (assureBufferMinSize ⟨0, 0⟩ s.overflowBuffer (s.numOverflow + n)) hpp
    (by rw [hlen]; omega)
  rw [take_assureBufferMinSize _ _ hfit, hzero, List.take_zero, List.nil_append] at htake
  unfold spillChunk
  simp only [hcopy]
  refine ⟨⟨?_, ?_, ?_, ?_, ?_⟩, ⟨(pairs pp).take n, ?_, ?_⟩⟩
  · simp only
    omega
  · simp only
    omega
  · simp only
    omega
  · exact hroom
  · intro hlt
    simp only at hlt
    omega
  · simp only [pending, hphase]
  · simp only [held, kept, hphase]
    rw [hzero, htake, List.take_zero, List.append_nil, List.append_assoc]

theorem postBatch_spec {nRead : Nat} {dataOut : List (Complex F)} {answer : Option Int}
    (h : s.Fits) (hphase : s.phase = .posting nRead dataOut answer)
    (full accepted terminated : Bool) :
    (s.postBatch nRead dataOut answer full accepted terminated).Fits ∧
      Stores s (s.postBatch nRead dataOut answer full accepted terminated) [] := by
  have hle : nRead ≤ dataOut.length := by
    have hp := h.phase
    rw [hphase] at hp
    exact hp.1
  have hdata : resize ⟨0, 0⟩ dataOut nRead = dataOut.take nRead := by
    rw [resize, Nat.sub_eq_zero_of_le hle, List.replicate_zero, List.append_nil]
  have hpending : s.pending = [] := by simp only [pending, hphase]
  unfold postBatch
  rw [hdata]
  split_ifs
  all_goals
    refine ⟨⟨h.overflow, h.chunk, trivial⟩, .of_held hpending ?_⟩
    simp [held, kept, hphase]

theorem updateRate_spec (hphase : s.phase = .idle) (rate streamMTU : Nat) :
    (s.updateRate rate streamMTU).Fits ∧ Stores s (s.updateRate rate streamMTU) [] := by
  have hpending : s.pending = [] := by simp only [pending, hphase]
  refine ⟨⟨Nat.zero_le _, Nat.zero_le _, ?_⟩, .of_held (t := s.updateRate rate streamMTU) ?_ ?_⟩
  · simp only [updateRate, hphase, PhaseFits]
  · simp only [pending, updateRate, hphase]
  · simp [held, kept, updateRate, hphase]

/-! ## Steps -/

/-- `init` and `updateSettings` choose whole rows of channels. -/
theorem dvd_getOptimalElementCount (numChannels rate fps : Nat) :
    numChannels ∣ getOptimalElementCount numChannels rate fps := Nat.dvd_mul_left ..

/-- What the steps of other threads and those inside `readStream` leave alone. -/
def SameLog (s t : State F) : Prop :=
  t.log = s.log ∧ t.blockedAttempts = s.blockedAttempts ∧ t.stopSystem = s.stopSystem ∧
    t.numChannels = s.numChannels ∧ t.numElems = s.numElems

theorem sameLog_beginBatch (data : List (Complex F)) :
    SameLog s (s.beginBatch data) ∧ (s.beginBatch data).iqSwap = s.iqSwap := by
  unfold beginBatch
  dsimp only
  repeat' (first | split | exact ⟨⟨rfl, rfl, rfl, rfl, rfl⟩, rfl⟩)

theorem sameLog_readChunk (nRead : Nat) (dataOut : List (Complex F)) (code : Int)
    (pp : List F) :
    SameLog s (s.readChunk nRead dataOut code pp) ∧
      (s.readChunk nRead dataOut code pp).iqSwap = s.iqSwap := by
  unfold readChunk
  dsimp only
  repeat' (first | split | exact ⟨⟨rfl, rfl, rfl, rfl, rfl⟩, rfl⟩)

theorem sameLog_spillChunk (nRead : Nat) (dataOut : List (Complex F)) (answer : Option Int)
    (pp : List F) (n : Nat) :
    SameLog s (s.spillChunk nRead dataOut answer pp n) ∧
      (s.spillChunk nRead dataOut answer pp n).iqSwap = s.iqSwap := by
  unfold spillChunk
  dsimp only
  split <;> exact ⟨⟨rfl, rfl, rfl, rfl, rfl⟩, rfl⟩

theorem iqSwap_postBatch (nRead : Nat) (dataOut : List (Complex F)) (answer : Option Int)
    (full accepted terminated : Bool) :
    (s.postBatch nRead dataOut answer full accepted terminated).iqSwap = s.iqSwap := by
  unfold postBatch
  dsimp only
  split_ifs <;> rfl

/-- **What a step does to the log**: nothing, unless the sample rate changes or a batch
ends. -/
theorem step_log {l : Label F} (h : Step s l t) :
    SameLog s t ∨ (∃ rate streamMTU, t = s.updateRate rate streamMTU) ∨
      ∃ nRead dataOut answer full accepted terminated, s.phase = .posting nRead dataOut answer ∧
        t = s.postBatch nRead dataOut answer full accepted terminated := by
  cases l with
  | setSampleRate | setFrequency | setIQSwap | terminate =>
    cases h
    exact .inl ⟨rfl, rfl, rfl, rfl, rfl⟩
  | updateSettings rate streamMTU =>
    simp only [Step, next] at h
    split at h <;> try split at h
    all_goals cases h
    exact .inr (.inl ⟨rate, streamMTU, rfl⟩)
  | getBuffer data =>
    simp only [Step, next] at h
    split at h <;> cases h
    exact .inl (sameLog_beginBatch data).1
  | leave =>
    simp only [Step, next] at h
    split at h <;> try split at h
    all_goals cases h
    exact .inl ⟨rfl, rfl, rfl, rfl, rfl⟩
  | readStream code pp =>
    simp only [Step, next] at h
    split at h <;> try split at h
    all_goals cases h
    exact .inl (sameLog_readChunk ..).1
  | spill =>
    simp only [Step, next] at h
    split at h <;> cases h
    exact .inl (sameLog_spillChunk ..).1
  | post full accepted terminated =>
    simp only [Step, next] at h
    split at h <;> cases h
    next hphase => exact .inr (.inr ⟨_, _, _, _, _, _, hphase, rfl⟩)

/-- Only `setIQSwap` changes the order of the floats. -/
theorem step_iqSwap {l : Label F} (h : Step s l t) :
    t.iqSwap = s.iqSwap ∨ l = .setIQSwap t.iqSwap := by
  cases l with
  | setIQSwap swap =>
    cases h
    exact .inr rfl
  | setSampleRate | setFrequency | terminate =>
    cases h
    exact .inl rfl
  | updateSettings rate streamMTU =>
    simp only [Step, next] at h
    split at h <;> try split at h
    all_goals cases h
    exact .inl rfl
  | getBuffer data =>
    simp only [Step, next] at h
    split at h <;> cases h
    exact .inl (sameLog_beginBatch data).2
  | leave =>
    simp only [Step, next] at h
    split at h <;> try split at h
    all_goals cases h
    exact .inl rfl
  | readStream code pp =>
    simp only [Step, next] at h
    split at h <;> try split at h
    all_goals cases h
    exact .inl (sameLog_readChunk ..).2
  | spill =>
    simp only [Step, next] at h
    split at h <;> cases h
    exact .inl (sameLog_spillChunk ..).2
  | post full accepted terminated =>
    simp only [Step, next] at h
    split at h <;> cases h
    exact .inl (iqSwap_postBatch ..)

/-- **What a step does to the samples.** -/
theorem step_stores {l : Label F} (h : Step s l t) (hl : Answers s l) (hfit : s.Fits) :
    t.Fits ∧ Stores s t (arrived l) := by
  have hsame : ∀ {t : State F}, t.phase = s.phase → t.overflowBuffer = s.overflowBuffer →
      t.numOverflow = s.numOverflow → t.log = s.log → Stores s t [] := by
    intro t hphase hbuffer hover hlog
    refine .of_held ?_ ?_
    · simp only [pending, hphase]
    · simp only [held, kept, hphase, hbuffer, hover, hlog]
  cases l with
  | setSampleRate | setFrequency | setIQSwap =>
    cases h
    exact ⟨⟨hfit.overflow, hfit.chunk, hfit.phase⟩, hsame rfl rfl rfl rfl⟩
  | terminate =>
    cases h
    refine ⟨⟨hfit.overflow, hfit.chunk, ?_⟩, hsame rfl rfl rfl rfl⟩
    have hp := hfit.phase
    revert hp
    simp only
    cases s.phase with
    | posting nRead dataOut answer => exact fun hp => ⟨hp.1, .inr (.inr rfl)⟩
    | _ => exact id
  | updateSettings rate streamMTU =>
    simp only [Step, next] at h
    split at h <;> try split at h
    all_goals cases h
    next hphase _ => exact updateRate_spec hphase rate streamMTU
  | getBuffer data =>
    simp only [Step, next] at h
    split at h <;> cases h
    next hphase => exact beginBatch_spec hfit hphase data
  | leave =>
    simp only [Step, next] at h
    split at h <;> try split at h
    all_goals cases h
    next nRead dataOut answer hphase hleave =>
      have hp := hfit.phase
      rw [hphase] at hp
      refine ⟨⟨hfit.overflow, hfit.chunk, Nat.le_trans hp.1 hp.2.1, ?_⟩, .of_held ?_ ?_⟩
      · rcases hleave with hfull | hstop
        · exact .inl (Nat.le_antisymm hp.1 hfull)
        · exact .inr (.inr hstop)
      · simp only [pending, goto, hphase]
      · simp only [held, kept, goto, hphase]
  | readStream code pp =>
    simp only [Step, next] at h
    split at h <;> try split at h
    all_goals cases h
    next nRead dataOut answer hphase hlt => exact readChunk_spec hfit hphase hlt hl
  | spill =>
    simp only [Step, next] at h
    split at h <;> cases h
    next hphase => exact spillChunk_spec hfit hphase
  | post full accepted terminated =>
    simp only [Step, next] at h
    split at h <;> cases h
    next hphase => exact postBatch_spec hfit hphase full accepted terminated

/-- `x` is the sample in the two floats `p`, in an order that `P` allows. -/
def Stored (P : Bool → Prop) (x : Complex F) (p : F × F) : Prop :=
  ∃ swap, P swap ∧ x = sample swap p.1 p.2

/-- Every sample that has arrived, `ps`, is stored once and in its place, or pending. -/
def Accounted (P : Bool → Prop) (s : State F) (ps : List (F × F)) : Prop :=
  ∃ done, ps = done ++ s.pending ∧ List.Forall₂ (Stored P) s.held done

omit [Zero F] in
theorem forall₂_samples {P : Bool → Prop} {swap : Bool} (hswap : P swap) (ps : List (F × F)) :
    List.Forall₂ (Stored P) (samples swap ps) ps := by
  induction ps with
  | nil => exact .nil
  | cons p ps ih => exact .cons ⟨swap, hswap, rfl⟩ ih

omit [Zero F] in
theorem Accounted.stores {P : Bool → Prop} {ps qs : List (F × F)} (h : s.Accounted P ps)
    (hswap : P s.iqSwap) (hstores : Stores s t qs) : t.Accounted P (ps ++ qs) := by
  obtain ⟨done, rfl, hdone⟩ := h
  obtain ⟨new, hnew, hheld⟩ := hstores
  refine ⟨done ++ new, ?_, ?_⟩
  · rw [List.append_assoc, hnew, List.append_assoc]
  · rw [hheld]
    exact List.rel_append hdone (forall₂_samples hswap new)

/-- **The samples are conserved.**  Whatever the other threads change meanwhile, after
any number of batches each sample that the device has returned is in one place, in its
order: in a batch, dropped at a change of the sample rate, in hand, or still to be
copied from the device's buffer.  `P` is any property of the values of `iq_swap`. -/
theorem conserves {P : Bool → Prop} {frequency : Int} {dc : Bool} {rate streamMTU : Nat}
    {ls : List (Label F)}
    (h : Run (Guarded Step Answers) (init frequency dc rate streamMTU) ls s)
    (hinit : P false) (hswaps : ∀ swap, .setIQSwap swap ∈ ls → P swap) :
    s.Fits ∧ s.Accounted P (ls.flatMap arrived) := by
  have hsound : (P s.iqSwap ∧ s.Fits) ∧ s.Accounted P (([] ++ ls).flatMap arrived) := by
    refine h.history (I := fun pre s => (P s.iqSwap ∧ s.Fits) ∧ s.Accounted P (pre.flatMap arrived))
      (P := fun l => ∀ swap, l = .setIQSwap swap → P swap) ?_ ?_ ?_
    · rintro pre s l t hl ⟨⟨hswap, hfit⟩, hacc⟩ ⟨hstep, hok⟩
      obtain ⟨hfit', hstores⟩ := step_stores hstep hok hfit
      refine ⟨⟨?_, hfit'⟩, ?_⟩
      · rcases step_iqSwap hstep with heq | heq
        · rw [heq]
          exact hswap
        · exact hl _ heq
      · rw [List.flatMap_append, List.flatMap_singleton]
        exact hacc.stores hswap hstores
    · rintro l hl swap rfl
      exact hswaps swap hl
    · exact ⟨⟨hinit, ⟨Nat.zero_le _, Nat.zero_le _, trivial⟩⟩, [], rfl, by simp [held, kept, init]⟩
  exact ⟨hsound.1.2, hsound.2⟩

/-- One long answer: the second sample waits for the next batch. -/
theorem conserves_spill :
    ∃ s : State Int, s.held = [⟨1, 2⟩, ⟨3, 4⟩] ∧ s.Accounted (· = false) [(1, 2), (3, 4)] := by
  have hrun : ∃ s, Run (Guarded Step Answers) (init 0 false 60 4)
      [.getBuffer [], .readStream 2 [1, 2, 3, 4], .spill, .leave, .post false true false] s ∧
      s.held = [⟨(1 : Int), 2⟩, ⟨3, 4⟩] :=
    ⟨_, .cons ⟨rfl, trivial⟩ <| .cons ⟨rfl, show (2 : Int) ≤ 4 by decide, by simp⟩ <|
      .cons ⟨rfl, trivial⟩ <| .cons ⟨rfl, trivial⟩ <| .single ⟨rfl, trivial⟩, rfl⟩
  obtain ⟨s, hs, hheld⟩ := hrun
  refine ⟨s, hheld, ?_⟩
  exact (conserves (P := (· = false)) hs rfl (by simp)).2

/-! ## The batches -/

/-- From some point of the log on, and up to where `after` begins, the queue got no batch
in at least `n` calls. -/
def Blocked (log after : List (Event F)) (n : Nat) : Prop :=
  ∃ before since, log = before ++ since ++ after ∧ (∀ e ∈ since, e.isDelivered = false) ∧
    n ≤ since.countP Event.isBlocked

omit [Zero F] in
theorem Blocked.snoc {log : List (Event F)} {n : Nat} (h : Blocked log [] n) {e : Event F}
    (he : e.isDelivered = false) :
    Blocked (log ++ [e]) [] (n + if e.isBlocked then 1 else 0) := by
  obtain ⟨before, since, rfl, hsince, hn⟩ := h
  refine ⟨before, since ++ [e], by simp, ?_, ?_⟩
  · intro e' he'
    rcases List.mem_append.mp he' with hm | hm
    · exact hsince e' hm
    · rw [List.mem_singleton.mp hm]
      exact he
  · rw [List.countP_append, List.countP_singleton]
    omega

omit [Zero F] in
theorem Blocked.append {log after es : List (Event F)} {n : Nat} (h : Blocked log after n) :
    Blocked (log ++ es) (after ++ es) n := by
  obtain ⟨before, since, rfl, hsince, hn⟩ := h
  exact ⟨before, since, by rw [List.append_assoc _ after], hsince, hn⟩

omit [Zero F] in
theorem Blocked.mono {log after : List (Event F)} {m n : Nat} (h : Blocked log after n)
    (hle : m ≤ n) : Blocked log after m := by
  obtain ⟨before, since, hlog, hsince, hn⟩ := h
  exact ⟨before, since, hlog, hsince, by omega⟩

/-- What the log says of the batches and of the attempts to hand them on. -/
structure Logged (s : State F) : Prop where
  rows : s.numChannels ∣ s.numElems
  batches : ∀ batch answer, .delivered batch answer ∈ s.log →
    batch.data ≠ [] ∧
      (batch.numChannels ∣ batch.data.length ∨ ∃ code ≤ 0, answer = some code)
  attempts : Blocked s.log [] s.blockedAttempts
  stop : 0 < s.stopSystem → ∃ after, Blocked s.log after 50

omit [Zero F] in
theorem Logged.same (h : s.Logged) (hsame : SameLog s t) : t.Logged := by
  obtain ⟨hlog, hblocked, hstop, hchannels, helems⟩ := hsame
  refine ⟨?_, ?_, ?_, ?_⟩
  · rw [hchannels, helems]
    exact h.rows
  · rw [hlog]
    exact h.batches
  · rw [hlog, hblocked]
    exact h.attempts
  · rw [hlog, hstop]
    exact h.stop

omit [Zero F] in
/-- A call without a batch, or an overflow that is lost. -/
theorem Logged.lose (h : s.Logged) {e : Event F} (he : e.isDelivered = false)
    (hlog : t.log = s.log ++ [e]) (hrows : t.numChannels ∣ t.numElems)
    (hblocked : t.blockedAttempts ≤ s.blockedAttempts + if e.isBlocked then 1 else 0)
    (hstop : 0 < t.stopSystem → 0 < s.stopSystem ∨ 50 ≤ t.blockedAttempts) : t.Logged := by
  have hattempts : Blocked t.log [] t.blockedAttempts := by
    rw [hlog]
    exact (h.attempts.snoc he).mono hblocked
  refine ⟨hrows, ?_, hattempts, ?_⟩
  · intro batch answer hm
    rw [hlog] at hm
    rcases List.mem_append.mp hm with hm | hm
    · exact h.batches batch answer hm
    · rw [← List.mem_singleton.mp hm] at he
      cases he
  · intro hpos
    rcases hstop hpos with hbefore | hfifty
    · obtain ⟨after, hbefore⟩ := h.stop hbefore
      rw [hlog]
      exact ⟨_, hbefore.append⟩
    · exact ⟨[], hattempts.mono hfifty⟩

theorem Logged.postBatch (h : s.Logged) (hfit : s.Fits) {nRead : Nat}
    {dataOut : List (Complex F)} {answer : Option Int}
    (hphase : s.phase = .posting nRead dataOut answer) (full accepted terminated : Bool) :
    (s.postBatch nRead dataOut answer full accepted terminated).Logged := by
  obtain ⟨hle, hwhole⟩ : nRead ≤ dataOut.length ∧
      (nRead = s.numElems ∨ (∃ code ≤ 0, answer = some code) ∨ s.stopping = true) := by
    have hp := hfit.phase
    rw [hphase] at hp
    exact hp
  obtain ⟨hblocked, hdelivered⟩ := Event.isBlocked_ofLost nRead dataOut
  unfold State.postBatch
  dsimp only
  split_ifs with htry haccepted hstopped hfifty
  · have hlen : (resize ⟨0, 0⟩ dataOut nRead).length = nRead := by
      simp only [resize, List.length_append, List.length_take, List.length_replicate]
      omega
    refine ⟨h.rows, ?_, ⟨_, [], by rw [List.append_nil, List.append_nil], by simp, by simp⟩, ?_⟩
    · intro batch answer' hm
      rcases List.mem_append.mp hm with hm | hm
      · exact h.batches batch answer' hm
      · cases List.mem_singleton.mp hm
        refine ⟨?_, ?_⟩
        · intro hnil
          simp only at hnil
          rw [hnil, List.length_nil] at hlen
          omega
        · simp only [hlen]
          rcases hwhole with hfull | hanswer | hstop
          · rw [hfull]
            exact .inl h.rows
          · exact .inr hanswer
          · rw [htry.2.1] at hstop
            cases hstop
    · intro hpos
      obtain ⟨after, hblocked⟩ := h.stop hpos
      exact ⟨_, hblocked.append⟩
  · exact h.lose (e := .discarded _) rfl rfl h.rows (Nat.le_refl _) .inl
  · exact h.lose hdelivered rfl h.rows (Nat.le_add_right _ _) .inl
  · exact h.lose hdelivered rfl h.rows (by simp [hblocked]) fun _ => .inr hfifty
  · exact h.lose hdelivered rfl h.rows (by simp [hblocked]) .inl

theorem Logged.step (h : s.Logged) (hfit : s.Fits) {l : Label F} (hstep : Step s l t) :
    t.Logged := by
  obtain hsame | ⟨rate, streamMTU, rfl⟩ | ⟨nRead, dataOut, answer, full, accepted, terminated,
    hphase, rfl⟩ := step_log hstep
  · exact h.same hsame
  · exact h.lose (e := .cleared _) rfl rfl (dvd_getOptimalElementCount ..) (Nat.le_refl _) .inl
  · exact h.postBatch hfit hphase full accepted terminated

theorem logged_of_run {frequency : Int} {dc : Bool} {rate streamMTU : Nat} {ls : List (Label F)}
    (h : Run (Guarded Step Answers) (init frequency dc rate streamMTU) ls s) :
    s.Fits ∧ s.Logged := by
  refine h.invariant (I := fun s => s.Fits ∧ s.Logged) ?_ ⟨⟨Nat.zero_le _, Nat.zero_le _, trivial⟩,
    ⟨dvd_getOptimalElementCount .., ?_, ⟨[], [], rfl, ?_, Nat.zero_le _⟩, ?_⟩⟩
  · rintro s l t ⟨hfit, hlogged⟩ ⟨hstep, hok⟩
    exact ⟨(step_stores hstep hok hfit).1, hlogged.step hfit hstep⟩
  · intro batch answer hm
    cases hm
  · intro e he
    cases he
  · intro hpos
    cases hpos

/-- **Whole rows of channels.**  A batch that the queue gets is not empty, and its
samples are whole rows of the channels it names, unless the device was asked in this call
and its last answer was an error or nothing. -/
theorem batches_whole {frequency : Int} {dc : Bool} {rate streamMTU : Nat} {ls : List (Label F)}
    (h : Run (Guarded Step Answers) (init frequency dc rate streamMTU) ls s)
    {batch : SDRThreadIQData F} {answer : Option Int} (hbatch : .delivered batch answer ∈ s.log) :
    batch.data ≠ [] ∧ (batch.numChannels ∣ batch.data.length ∨ ∃ code ≤ 0, answer = some code) :=
  (logged_of_run h).2.batches batch answer hbatch

/-- Of an answer of two samples the second is a batch of its own, without asking again. -/
theorem batches_whole_overflow :
    ∃ (s : State Nat) (batch : SDRThreadIQData Nat), batch.data = [⟨3, 4⟩] ∧
      .delivered batch none ∈ s.log ∧ batch.data ≠ [] ∧
      (batch.numChannels ∣ batch.data.length ∨ ∃ code : Int, code ≤ 0 ∧ none = some code) := by
  have hrun : ∃ s, Run (Guarded Step Answers) (init (F := Nat) 0 false 60 4)
      [.getBuffer [], .readStream 2 [1, 2, 3, 4], .spill, .leave, .post false true false,
        .getBuffer [], .leave, .post false true false] s ∧
      .delivered ⟨0, 60, false, 1, [⟨3, 4⟩]⟩ none ∈ s.log :=
    ⟨_, .cons ⟨rfl, trivial⟩ <| .cons ⟨rfl, show (2 : Int) ≤ 4 by decide, by simp⟩ <|
      .cons ⟨rfl, trivial⟩ <| .cons ⟨rfl, trivial⟩ <| .cons ⟨rfl, trivial⟩ <|
      .cons ⟨rfl, trivial⟩ <| .cons ⟨rfl, trivial⟩ <| .single ⟨rfl, trivial⟩,
      List.mem_cons_of_mem _ List.mem_cons_self⟩
  obtain ⟨s, hs, hbatch⟩ := hrun
  exact ⟨s, _, rfl, hbatch, batches_whole hs hbatch⟩

/-- **The error of a blocked receiver.**  Where `stopSystem` has been called there were fifty
calls of `readStream` with no batch that the queue got in between.  A call that read nothing
is one of them, so the receiver need not be what is blocked. -/
theorem stops_blocked {frequency : Int} {dc : Bool} {rate streamMTU : Nat} {ls : List (Label F)}
    (h : Run (Guarded Step Answers) (init frequency dc rate streamMTU) ls s)
    (hstop : 0 < s.stopSystem) : ∃ after, Blocked s.log after 50 :=
  (logged_of_run h).2.stop hstop

/-- `n` calls of `readStream` in which the device has nothing. -/
theorem run_nothing (n : Nat) :
    ∃ ls, Run (Guarded Step Answers) (init (F := F) 0 false 60 4) ls
      { init 0 false 60 4 with
        blockedAttempts := n, stopSystem := n - 49, log := List.replicate n .nothing } := by
  induction n with
  | zero => exact ⟨[], .nil _⟩
  | succ n ih =>
    obtain ⟨ls, hls⟩ := ih
    refine ⟨ls ++ [.getBuffer [], .readStream 0 [], .post false false false], hls.append ?_⟩
    refine .cons ⟨rfl, trivial⟩ (.cons ⟨rfl, show (0 : Int) ≤ 4 by decide, by simp⟩
      (.single ⟨?_, trivial⟩))
    have hcount : (if 50 ≤ n + 1 then n - 49 + 1 else n - 49) = n + 1 - 49 := by
      split <;> omega
    rw [List.replicate_succ', ← hcount]
    rfl

theorem stops_after_fifty :
    ∃ s : State Nat, 0 < s.stopSystem ∧ ∃ after, Blocked s.log after 50 := by
  obtain ⟨ls, hls⟩ := run_nothing (F := Nat) 50
  exact ⟨_, by decide, stops_blocked hls (by decide)⟩

end State

end SDRThread

end PiScan.Cubic

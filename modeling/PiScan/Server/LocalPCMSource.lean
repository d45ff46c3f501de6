import PiScan.Lib.Pipe
import PiScan.Lib.Run

/-!
# The audio stream

`LocalPCMSource` of `server/audio_server/LocalPCMSource.cpp`: the batches that
`audioCallback` of `AudioThread.cpp` puts into `outputQueue`, and the frames that
`doGetNextFrame` fills from them, sample by sample, with an iterator into the
current batch that outlives the frame.

* `readSamples_eq`: the loop of `doGetNextFrame` takes the samples that are there,
  in order, until the frame is full;
* `refines_step`: the stream is a pipe of samples;
* `keeps_every_sample`: in every run, whatever the batches and the frame sizes,
  the frames are the beginning of the batches.
-/

namespace PiScan.Server.Audio

open Runs Pipes

/-! ## The sampling frequency -/

/-- `RtApi::SAMPLE_RATES`. -/
def SAMPLE_RATES : List Nat :=
  [4000, 5512, 8000, 9600, 11025, 16000, 22050, 32000, 44100, 48000, 88200, 96000, 176400, 192000]

/-- `RtAudio::DeviceInfo`: the rates of the table that a device was found to
support. -/
structure DeviceInfo where
  sampleRates : List Nat
  tested : ∀ rate ∈ sampleRates, rate ∈ SAMPLE_RATES

def NUM_RATES_DEFAULT : Nat := 4

def desiredRates : List Nat := [48000, 44100, 96000, 192000]

/-- The inner loop of `Demodulator::start`: `desired_rate` and `desired_rank` after
a look at one rate of the device. -/
def rankRate (best : Nat × Nat) (srate : Nat) : Nat × Nat :=
  desiredRates.zipIdx.foldl
    (fun best desired =>
      if desired.1 = srate ∧ desired.2 < best.2 then (srate, desired.2) else best)
    best

/-- The rate that `Demodulator::start` enters into `AudioThread::deviceSampleRate`;
`back()` of no rates is undefined. -/
def DeviceInfo.desiredRate (info : DeviceInfo) : Option Nat :=
  let best := info.sampleRates.foldl rankRate (0, NUM_RATES_DEFAULT + 1)
  if NUM_RATES_DEFAULT < best.2 then info.sampleRates.getLast? else some best.1

/-! ## The source -/

abbrev Batch := List Float32

structure LocalPCMSource where
  fNumChannels : Nat
  fSamplingFrequency : Nat
  fBitsPerSample : Nat
  fPreferredFrameSize : Nat
  currentBatch : Option Batch
  batchIterator : Nat

/-- `LocalPCMSource::LocalPCMSource`, for the sample rate of the controller. -/
def LocalPCMSource.new (sampleRate : Nat) : LocalPCMSource :=
  let fNumChannels := 1
  let fBitsPerSample := 16
  let maxSamplesPerFrame := (1400 * 8) / (fNumChannels * fBitsPerSample)
  -- `0.02*fSamplingFrequency`
  let desiredSamplesPerFrame := sampleRate / 50
  let samplesPerFrame :=
    if desiredSamplesPerFrame < maxSamplesPerFrame then desiredSamplesPerFrame
    else maxSamplesPerFrame
  { fNumChannels
    fSamplingFrequency := sampleRate
    fBitsPerSample
    fPreferredFrameSize := (samplesPerFrame * fNumChannels * fBitsPerSample) / 8
    currentBatch := none
    batchIterator := 0 }

def LocalPCMSource.bytesPerSample (source : LocalPCMSource) : Nat :=
  let bytesPerSample := (source.fNumChannels * source.fBitsPerSample) / 8
  if bytesPerSample = 0 then 1 else bytesPerSample

/-- `(short) std::floor(sample * 32767)`, for samples in [-1, 1], to which the mixer scales
its peaks; beyond, the cast is undefined, where `toInt16` takes the nearest value. -/
def pcm (sample : Float32) : Int16 := (sample * 32767).floor.toInt16

/-- The two bytes of a `short`. -/
def pcmBytes (pcm : Int16) : List UInt8 := [pcm.toUInt16.toUInt8, (pcm.toUInt16 >>> 8).toUInt8]

/-- The samples as the bytes of a stream. -/
def converted (samples : List Float32) : List UInt8 :=
  samples.flatMap fun sample => pcmBytes (pcm sample)

/-- What the loop of `doGetNextFrame` works on. -/
structure Reading where
  currentBatch : Option Batch
  batchIterator : Nat
  outputQueue : List Batch
  fTo : List UInt8
  numBytesRead : Nat
  samplesRead : Nat

namespace Reading

/-- `if (!_currentBatch) { .. }`: the batch to read from, where `none` is an
underrun. -/
def grab (r : Reading) : Option (Batch × Reading) :=
  match r.currentBatch with
  | some batch => some (batch, r)
  | none =>
    match r.outputQueue with
    | [] => none
    | batch :: queue =>
      some (batch, { r with currentBatch := some batch, batchIterator := 0, outputQueue := queue })

/-- The sample goes into the frame, and the iterator goes on. -/
def copy (r : Reading) (bytesPerSample : Nat) (batch : Batch) (sample : Float32) : Reading :=
  { currentBatch := if batch.length ≤ r.batchIterator + 1 then none else some batch
    batchIterator := r.batchIterator + 1
    outputQueue := r.outputQueue
    fTo := r.fTo ++ (pcmBytes (pcm sample)).take bytesPerSample
    numBytesRead := r.numBytesRead + bytesPerSample
    samplesRead := r.samplesRead + 1 }

/-- The samples that the iterator has not passed. -/
def available (r : Reading) : List Float32 :=
  (match r.currentBatch with
    | some batch => batch.drop r.batchIterator
    | none => []) ++ r.outputQueue.flatten

/-- The rounds that the loop has left at most. -/
def rounds (r : Reading) : Nat :=
  (match r.currentBatch with
    | some batch => batch.length - r.batchIterator
    | none => 0) + r.outputQueue.flatten.length + r.outputQueue.length

end Reading

theorem Reading.rounds_grab {r r' : Reading} {batch : Batch} (h : r.grab = some (batch, r')) :
    r'.currentBatch = some batch ∧ r'.rounds ≤ r.rounds := by
  unfold grab at h
  split at h
  case h_1 current hcurrent =>
    obtain ⟨rfl, rfl⟩ := Prod.mk.inj (Option.some.inj h)
    exact ⟨hcurrent, Nat.le_refl _⟩
  case h_2 hcurrent =>
    split at h
    case h_1 => cases h
    case h_2 next queue hqueue =>
      obtain ⟨rfl, rfl⟩ := Prod.mk.inj (Option.some.inj h)
      refine ⟨rfl, ?_⟩
      simp only [rounds, hcurrent, hqueue, List.flatten_cons, List.length_append, List.length_cons]
      omega

theorem Reading.rounds_copy {r : Reading} {batch : Batch} (hr : r.currentBatch = some batch)
    (hi : r.batchIterator < batch.length) (bytesPerSample : Nat) (sample : Float32) :
    (r.copy bytesPerSample batch sample).rounds < r.rounds := by
  simp only [rounds, copy, hr]
  split
  case h_1 next hnext =>
    split at hnext
    case isTrue => cases hnext
    case isFalse =>
      obtain rfl := Option.some.inj hnext
      omega
  case h_2 => omega

/-- Every round of the loop takes one from those that are left. -/
theorem Reading.rounds_lt {r r' : Reading} {batch : Batch} {sample : Float32}
    (hgrab : r.grab = some (batch, r')) (hsample : batch[r'.batchIterator]? = some sample)
    (bytesPerSample : Nat) : (r'.copy bytesPerSample batch sample).rounds < r.rounds := by
  obtain ⟨hcurrent, hle⟩ := rounds_grab hgrab
  obtain ⟨hi, -⟩ := List.getElem?_eq_some_iff.mp hsample
  exact Nat.lt_of_lt_of_le (rounds_copy hcurrent hi bytesPerSample sample) hle

/-- The loop of `doGetNextFrame`; `none` where it reads behind the end of a batch. -/
def readSamples (bytesPerSample samplesToRead : Nat) (r : Reading) : Option Reading :=
  match hgrab : r.grab with
  | none => some r
  | some (batch, r') =>
    match hsample : batch[r'.batchIterator]? with
    | none => none
    | some sample =>
      have _ : (r'.copy bytesPerSample batch sample).rounds < r.rounds :=
        Reading.rounds_lt hgrab hsample bytesPerSample
      if r'.samplesRead + 1 = samplesToRead then some (r'.copy bytesPerSample batch sample)
      else readSamples bytesPerSample samplesToRead (r'.copy bytesPerSample batch sample)
termination_by r.rounds

/-- Where `doGetNextFrame` enters its loop. -/
def LocalPCMSource.reading (source : LocalPCMSource) (outputQueue : List Batch) : Reading where
  currentBatch := source.currentBatch
  batchIterator := source.batchIterator
  outputQueue := outputQueue
  fTo := []
  numBytesRead := 0
  samplesRead := 0

/-- What a call tells its client. -/
inductive Frame
  | handleClosure
  | afterGetting (fTo : List UInt8) (fFrameSize : Nat)

/-- What goes downstream. -/
def Frame.delivered : Frame → List UInt8
  | handleClosure => []
  | afterGetting fTo fFrameSize => fTo.take fFrameSize

/-- `LocalPCMSource::doGetNextFrame`: the frame, the source and the queue. -/
def doGetNextFrame (isTerminated : Bool) (outputQueue : List Batch) (source : LocalPCMSource)
    (fMaxSize : Nat) : Option (Frame × LocalPCMSource × List Batch) :=
  if isTerminated then some (.handleClosure, source, outputQueue)
  else
    let fMaxSize :=
      if source.fPreferredFrameSize < fMaxSize then source.fPreferredFrameSize else fMaxSize
    let samplesToRead := fMaxSize / source.bytesPerSample
    match readSamples source.bytesPerSample samplesToRead (source.reading outputQueue) with
    | none => none
    | some r =>
      let frame := if r.samplesRead = 0 then .handleClosure else .afterGetting r.fTo r.numBytesRead
      some (frame,
        { source with currentBatch := r.currentBatch, batchIterator := r.batchIterator },
        r.outputQueue)

/-! ## The stream -/

/-- A call of `doGetNextFrame`, with the samples that were there for it. -/
structure Call where
  isTerminated : Bool
  available : List Float32
  fMaxSize : Nat
  frame : Frame

/-- The source, the queue and the flag of the controller; `enqueued` and `calls`
only record what happened. -/
structure AudioStream where
  source : LocalPCMSource
  outputQueue : List Batch
  isTerminated : Bool
  enqueued : List Batch
  calls : List Call

/-- `out` is the output buffer of the callback, left and right, and `room` the
answer of `try_enqueue`. -/
inductive Event
  | audioCallback (out : List (Float32 × Float32)) (room : Bool)
  | doGetNextFrame (fMaxSize : Nat)
  | terminate

namespace AudioStream

def start (source : LocalPCMSource) : AudioStream where
  source := source
  outputQueue := []
  isTerminated := false
  enqueued := []
  calls := []

/-- The samples that no frame has taken yet. -/
def available (s : AudioStream) : List Float32 := (s.source.reading s.outputQueue).available

/-- What the frames have delivered. -/
def delivered (s : AudioStream) : List UInt8 := s.calls.flatMap fun call => call.frame.delivered

/-- The end of `audioCallback`: the left channel, as a batch. -/
def audioCallback (s : AudioStream) (out : List (Float32 × Float32)) (room : Bool) : AudioStream :=
  if s.isTerminated then s
  else
    let batch := out.map Prod.fst
    if room then
      { s with outputQueue := s.outputQueue ++ [batch], enqueued := s.enqueued ++ [batch] }
    else s

def getNextFrame (s : AudioStream) (fMaxSize : Nat) : Option AudioStream :=
  match doGetNextFrame s.isTerminated s.outputQueue s.source fMaxSize with
  | none => none
  | some (frame, source, outputQueue) =>
    let call := { isTerminated := s.isTerminated, available := s.available, fMaxSize, frame }
    some { s with source, outputQueue, calls := s.calls ++ [call] }

def step (s : AudioStream) : Event → Option AudioStream
  | .audioCallback out room => some (s.audioCallback out room)
  | .doGetNextFrame fMaxSize => s.getNextFrame fMaxSize
  | .terminate => some { s with isTerminated := true }

def Step (s : AudioStream) (e : Event) (t : AudioStream) : Prop := s.step e = some t

end AudioStream

/-! ## The loop -/

namespace Reading

/-- The iterator stands at a sample, and every batch of the queue has one. -/
structure Ready (r : Reading) : Prop where
  current : ∀ batch, r.currentBatch = some batch → r.batchIterator < batch.length
  queued : ∀ batch ∈ r.outputQueue, batch ≠ []

/-- `t` is `r` after the loop has taken `samples`. -/
structure Takes (bytesPerSample : Nat) (r : Reading) (samples : List Float32) (t : Reading) :
    Prop where
  available : r.available = samples ++ t.available
  fTo : t.fTo = r.fTo ++ samples.flatMap fun sample => (pcmBytes (pcm sample)).take bytesPerSample
  numBytesRead : t.numBytesRead = r.numBytesRead + bytesPerSample * samples.length
  samplesRead : t.samplesRead = r.samplesRead + samples.length
  ready : t.Ready

variable {bytesPerSample : Nat} {r r' t : Reading} {batch : Batch}

theorem Takes.nil (hr : r.Ready) : Takes bytesPerSample r [] r where
  available := rfl
  fTo := by simp
  numBytesRead := by simp
  samplesRead := rfl
  ready := hr

theorem Takes.append {xs ys : List Float32} (h : Takes bytesPerSample r xs r')
    (h' : Takes bytesPerSample r' ys t) : Takes bytesPerSample r (xs ++ ys) t := by
  constructor
  case available => rw [h.available, h'.available, List.append_assoc]
  case fTo => rw [h'.fTo, h.fTo, List.flatMap_append, List.append_assoc]
  case numBytesRead =>
    rw [h'.numBytesRead, h.numBytesRead, List.length_append, Nat.mul_add, Nat.add_assoc]
  case samplesRead => rw [h'.samplesRead, h.samplesRead, List.length_append, Nat.add_assoc]
  case ready => exact h'.ready

/-- An underrun: nothing is left of the batch, and the queue is empty. -/
theorem grab_eq_none (hr : r.Ready) (h : r.available = []) : r.grab = none := by
  obtain ⟨hrest, hqueue⟩ := List.append_eq_nil_iff.mp h
  cases hcurrent : r.currentBatch with
  | some batch =>
    have hi := hr.current batch hcurrent
    simp only [hcurrent, List.drop_eq_nil_iff] at hrest
    omega
  | none =>
    cases hq : r.outputQueue with
    | nil => simp only [grab, hcurrent, hq]
    | cons batch queue =>
      have hne := hr.queued batch (by simp [hq])
      simp only [hq, List.flatten_cons, List.append_eq_nil_iff] at hqueue
      exact absurd hqueue.1 hne

/-- The batch that is grabbed holds the next sample at the iterator. -/
theorem exists_grab (bytesPerSample : Nat) (hr : r.Ready) (h : r.available ≠ []) :
    ∃ batch r', r.grab = some (batch, r') ∧ r'.currentBatch = some batch ∧
      Takes bytesPerSample r [] r' := by
  cases hcurrent : r.currentBatch with
  | some batch =>
    refine ⟨batch, r, ?_, hcurrent, .nil hr⟩
    simp only [grab, hcurrent]
  | none =>
    cases hq : r.outputQueue with
    | nil => simp [available, hcurrent, hq] at h
    | cons batch queue =>
      have hqueued := hr.queued
      rw [hq] at hqueued
      have hne : batch ≠ [] := hqueued batch List.mem_cons_self
      refine ⟨batch,
        { r with currentBatch := some batch, batchIterator := 0, outputQueue := queue }, ?_, rfl, ?_⟩
      · simp only [grab, hcurrent, hq]
      · constructor
        case available =>
          simp only [available, hcurrent, hq, List.drop_zero, List.flatten_cons, List.nil_append]
        case fTo => simp
        case numBytesRead => simp
        case samplesRead => simp
        case ready =>
          constructor
          case current =>
            intro next hnext
            obtain rfl := Option.some.inj hnext
            exact List.length_pos_iff.mpr hne
          case queued => exact fun b hb => hqueued b (List.mem_cons_of_mem batch hb)

/-- One round of the loop takes the next sample. -/
theorem takes_copy (hr : r.Ready) (hcurrent : r.currentBatch = some batch)
    (hi : r.batchIterator < batch.length) :
    Takes bytesPerSample r [batch[r.batchIterator]]
      (r.copy bytesPerSample batch batch[r.batchIterator]) := by
  have hdrop := List.drop_eq_getElem_cons hi
  constructor
  case available =>
    by_cases hlast : batch.length ≤ r.batchIterator + 1
    · simp only [available, hcurrent, copy, if_pos hlast, hdrop, List.drop_eq_nil_of_le hlast,
        List.nil_append, List.cons_append]
    · simp only [available, hcurrent, copy, if_neg hlast, hdrop, List.nil_append, List.cons_append]
  case fTo => simp [copy]
  case numBytesRead => simp [copy]
  case samplesRead => simp [copy]
  case ready =>
    constructor
    case current =>
      intro next hnext
      simp only [copy] at hnext ⊢
      split at hnext
      case isTrue => cases hnext
      case isFalse hlast =>
        obtain rfl := Option.some.inj hnext
        omega
    case queued => exact hr.queued

end Reading

theorem readSamples_underrun (bytesPerSample samplesToRead : Nat) {r : Reading}
    (h : r.grab = none) : readSamples bytesPerSample samplesToRead r = some r := by
  rw [readSamples]
  split
  case h_1 => rfl
  case h_2 hgrab => rw [h] at hgrab; cases hgrab

theorem readSamples_round (bytesPerSample samplesToRead : Nat) {r r' : Reading} {batch : Batch}
    (h : r.grab = some (batch, r')) (hi : r'.batchIterator < batch.length) :
    readSamples bytesPerSample samplesToRead r =
      if r'.samplesRead + 1 = samplesToRead then
        some (r'.copy bytesPerSample batch batch[r'.batchIterator])
      else
        readSamples bytesPerSample samplesToRead
          (r'.copy bytesPerSample batch batch[r'.batchIterator]) := by
  rw [readSamples]
  split
  case h_1 hgrab => rw [h] at hgrab; cases hgrab
  case h_2 batch' r'' hgrab =>
    rw [h] at hgrab
    obtain ⟨rfl, rfl⟩ := Prod.mk.inj (Option.some.inj hgrab)
    split
    case h_1 hsample => rw [List.getElem?_eq_getElem hi] at hsample; cases hsample
    case h_2 sample hsample =>
      rw [List.getElem?_eq_getElem hi] at hsample
      obtain rfl := Option.some.inj hsample
      rfl

/-- **The loop of `doGetNextFrame`** takes the samples that are there, in order,
until the frame is full. -/
theorem readSamples_eq (bytesPerSample : Nat) {samplesToRead : Nat} {r : Reading} (hr : r.Ready)
    (hroom : r.samplesRead < samplesToRead) :
    ∃ t, readSamples bytesPerSample samplesToRead r = some t ∧
      r.Takes bytesPerSample (r.available.take (samplesToRead - r.samplesRead)) t := by
  induction hav : r.available generalizing r with
  | nil =>
    refine ⟨r, readSamples_underrun _ _ (Reading.grab_eq_none hr hav), ?_⟩
    rw [List.take_nil]
    exact .nil hr
  | cons sample rest ih =>
    have hne : r.available ≠ [] := by
      rw [hav]
      exact List.cons_ne_nil _ _
    obtain ⟨batch, r', hgrab, hcurrent, hsame⟩ := Reading.exists_grab bytesPerSample hr hne
    have hi : r'.batchIterator < batch.length := hsame.ready.current batch hcurrent
    -- this round takes `sample`
    have hone := hsame.append (Reading.takes_copy hsame.ready hcurrent hi)
    have hcut := hone.available
    simp only [hav, List.nil_append, List.cons_append, List.cons.injEq] at hcut
    obtain ⟨hsample, hrest⟩ := hcut
    rw [List.nil_append, ← hsample] at hone
    rw [← hsample] at hrest
    have hread : r'.samplesRead = r.samplesRead := hsame.samplesRead
    have hread' := hone.samplesRead
    simp only [List.length_singleton] at hread'
    rw [readSamples_round _ _ hgrab hi, ← hsample]
    by_cases hfull : r'.samplesRead + 1 = samplesToRead
    · have hn : samplesToRead - r.samplesRead = 1 := by omega
      rw [if_pos hfull, hn]
      exact ⟨_, rfl, hone⟩
    · obtain ⟨t, hrun, htakes⟩ := ih hone.ready (by omega) hrest.symm
      have hn : samplesToRead - r.samplesRead = samplesToRead - (r.samplesRead + 1) + 1 := by omega
      rw [hread'] at htakes
      rw [if_neg hfull, hn, List.take_succ_cons]
      have hall := hone.append htakes
      rw [List.singleton_append] at hall
      exact ⟨t, hrun, hall⟩

/-! ## A frame -/

theorem converted_append (xs ys : List Float32) :
    converted (xs ++ ys) = converted xs ++ converted ys := List.flatMap_append

/-- A `short` has no bytes but its two. -/
theorem take_pcmBytes (pcm : Int16) : (pcmBytes pcm).take 2 = pcmBytes pcm := rfl

theorem length_pcmBytes (pcm : Int16) : (pcmBytes pcm).length = 2 := rfl

theorem length_converted (samples : List Float32) :
    (converted samples).length = 2 * samples.length := by
  induction samples with
  | nil => rfl
  | cons sample samples ih =>
    have hcons : converted (sample :: samples) = pcmBytes (pcm sample) ++ converted samples :=
      List.flatMap_cons
    rw [hcons, List.length_append, length_pcmBytes, ih, List.length_cons]
    omega

/-- The frame of a call that took these samples. -/
def frameOf (samples : List Float32) : Frame :=
  if samples.length = 0 then .handleClosure
  else .afterGetting (converted samples) (2 * samples.length)

theorem delivered_frameOf (samples : List Float32) :
    (frameOf samples).delivered = converted samples := by
  unfold frameOf
  split
  case isTrue hnil =>
    obtain rfl := List.length_eq_zero_iff.mp hnil
    rfl
  case isFalse =>
    simp only [Frame.delivered]
    rw [← length_converted, List.take_length]

/-- A call with `fMaxSize` bytes in its frame took the next `n` samples. -/
structure NextFrame (source : LocalPCMSource) (outputQueue : List Batch) (fMaxSize n : Nat)
    (source' : LocalPCMSource) (outputQueue' : List Batch) : Prop where
  room : 2 * n ≤ min fMaxSize source.fPreferredFrameSize
  pos : 0 < n
  available : (source'.reading outputQueue').available =
    (source.reading outputQueue).available.drop n
  ready : (source'.reading outputQueue').Ready
  bytesPerSample : source'.bytesPerSample = source.bytesPerSample
  fPreferredFrameSize : source'.fPreferredFrameSize = source.fPreferredFrameSize

/-- **`doGetNextFrame`**, while the controller runs. -/
theorem doGetNextFrame_eq {source : LocalPCMSource} {outputQueue : List Batch} {fMaxSize : Nat}
    (hbytes : source.bytesPerSample = 2) (hr : (source.reading outputQueue).Ready)
    (hsize : 2 ≤ fMaxSize) (hpreferred : 2 ≤ source.fPreferredFrameSize) :
    ∃ n source' outputQueue', NextFrame source outputQueue fMaxSize n source' outputQueue' ∧
      doGetNextFrame false outputQueue source fMaxSize =
        some (frameOf ((source.reading outputQueue).available.take n), source', outputQueue') := by
  have hmin : (if source.fPreferredFrameSize < fMaxSize then source.fPreferredFrameSize
      else fMaxSize) = min fMaxSize source.fPreferredFrameSize := by
    split
    · omega
    · omega
  generalize hn : min fMaxSize source.fPreferredFrameSize / 2 = n
  have hpos : 0 < n := by omega
  obtain ⟨t, hrun, htakes⟩ := readSamples_eq 2 hr hpos
  have hzero : (source.reading outputQueue).samplesRead = 0 := rfl
  rw [hzero, Nat.sub_zero] at htakes
  generalize hsamples : (source.reading outputQueue).available.take n = samples at htakes
  refine ⟨n, { source with currentBatch := t.currentBatch, batchIterator := t.batchIterator },
    t.outputQueue, ?_, ?_⟩
  · constructor
    case room => omega
    case pos => exact hpos
    case available =>
      have havail := htakes.available
      rw [← List.take_append_drop n (source.reading outputQueue).available, hsamples] at havail
      exact (List.append_cancel_left havail).symm
    case ready => exact ⟨htakes.ready.current, htakes.ready.queued⟩
    case bytesPerSample => rfl
    case fPreferredFrameSize => rfl
  · have hread : t.samplesRead = samples.length := by
      rw [htakes.samplesRead, hzero, Nat.zero_add]
    have hto : t.fTo = converted samples := by
      have hnone : (source.reading outputQueue).fTo = [] := rfl
      simp only [htakes.fTo, hnone, List.nil_append, take_pcmBytes, converted]
    have hnum : t.numBytesRead = 2 * samples.length := by
      rw [htakes.numBytesRead]
      exact Nat.zero_add _
    simp only [doGetNextFrame, Bool.false_eq_true, if_false, hmin, hbytes, hn, hrun, hread, hto,
      hnum, hsamples, frameOf]

/-! ## The stream is a pipe -/

/-- The frame of a call is as long as the call is told, and fits; the call finds
the stream closed only where no sample was there. -/
structure Call.Right (fPreferredFrameSize : Nat) (call : Call) : Prop where
  written : ∀ fTo fFrameSize, call.frame = .afterGetting fTo fFrameSize →
    fFrameSize = fTo.length ∧ fTo.length ≤ min call.fMaxSize fPreferredFrameSize
  underrun : call.frame = .handleClosure → call.isTerminated = false → call.available = []

theorem right_frameOf {available : List Float32} {fMaxSize fPreferredFrameSize n : Nat}
    (hroom : 2 * n ≤ min fMaxSize fPreferredFrameSize) (hpos : 0 < n) :
    Call.Right fPreferredFrameSize
      { isTerminated := false, available, fMaxSize, frame := frameOf (available.take n) } := by
  constructor
  case written =>
    intro fTo fFrameSize hframe
    simp only [frameOf] at hframe
    split at hframe
    case isTrue => cases hframe
    case isFalse =>
      obtain ⟨rfl, rfl⟩ := Frame.afterGetting.inj hframe
      have hle : (available.take n).length ≤ n := List.length_take_le n available
      rw [length_converted]
      refine ⟨rfl, ?_⟩
      show 2 * (available.take n).length ≤ min fMaxSize fPreferredFrameSize
      omega
  case underrun =>
    intro hframe _
    simp only [frameOf] at hframe
    split at hframe
    case isTrue hnil =>
      rw [List.length_take] at hnil
      show available = []
      exact List.length_eq_zero_iff.mp (by omega)
    case isFalse => cases hframe

theorem right_terminated (available : List Float32) (fMaxSize fPreferredFrameSize : Nat) :
    Call.Right fPreferredFrameSize
      { isTerminated := true, available, fMaxSize, frame := .handleClosure } := by
  constructor
  case written =>
    intro fTo fFrameSize hframe
    cases hframe
  case underrun =>
    intro _ hrun
    cases hrun

namespace AudioStream

/-- No batch is empty, and every frame has room for a sample. -/
def Admissible (source : LocalPCMSource) : Event → Prop
  | .audioCallback out _ => out ≠ []
  | .doGetNextFrame fMaxSize => source.bytesPerSample ≤ fMaxSize
  | .terminate => True

/-- The stream is the pipe `p`, and every call so far was served rightly. -/
structure Refines (fPreferredFrameSize : Nat) (s : AudioStream) (p : Pipe Float32) : Prop where
  bytesPerSample : s.source.bytesPerSample = 2
  preferred : s.source.fPreferredFrameSize = fPreferredFrameSize
  ready : (s.source.reading s.outputQueue).Ready
  entered : p.entered = s.enqueued.flatten
  left : s.delivered = converted p.left
  held : p.held = s.available
  calls : ∀ call ∈ s.calls, call.Right fPreferredFrameSize

variable {fPreferredFrameSize : Nat} {s : AudioStream} {p : Pipe Float32}

theorem refines_audioCallback (h : s.Refines fPreferredFrameSize p)
    {out : List (Float32 × Float32)} (hout : out ≠ []) (room : Bool) :
    ∃ q, (s.audioCallback out room).Refines fPreferredFrameSize q := by
  unfold audioCallback
  split
  case isTrue => exact ⟨p, h⟩
  case isFalse =>
    split
    case isFalse => exact ⟨p, h⟩
    case isTrue =>
      refine ⟨p.put (out.map Prod.fst), ?_⟩
      constructor
      case bytesPerSample => exact h.bytesPerSample
      case preferred => exact h.preferred
      case ready =>
        constructor
        case current => exact h.ready.current
        case queued =>
          intro batch hbatch
          rcases List.mem_append.mp hbatch with hold | hnew
          · exact h.ready.queued batch hold
          · obtain rfl := List.mem_singleton.mp hnew
            simpa using hout
      case entered => simp [Pipe.put, h.entered]
      case left => exact h.left
      case held =>
        simp [Pipe.put, h.held, available, Reading.available, LocalPCMSource.reading]
      case calls => exact h.calls

theorem getNextFrame_eq {fMaxSize : Nat} {frame : Frame} {source : LocalPCMSource}
    {outputQueue : List Batch}
    (h : doGetNextFrame s.isTerminated s.outputQueue s.source fMaxSize =
      some (frame, source, outputQueue)) :
    s.getNextFrame fMaxSize = some { s with
      source, outputQueue
      calls := s.calls ++
        [{ isTerminated := s.isTerminated, available := s.available, fMaxSize, frame }] } := by
  simp only [getNextFrame, h]

/-- A call after the controller has ended closes the stream and takes nothing. -/
theorem refines_terminated (h : s.Refines fPreferredFrameSize p) (hend : s.isTerminated = true)
    (fMaxSize : Nat) :
    ∃ t, s.getNextFrame fMaxSize = some t ∧ t.Refines fPreferredFrameSize p := by
  have hframe : doGetNextFrame s.isTerminated s.outputQueue s.source fMaxSize =
      some (.handleClosure, s.source, s.outputQueue) := by
    simp only [doGetNextFrame, hend, if_true]
  refine ⟨_, getNextFrame_eq hframe, ?_⟩
  constructor
  case bytesPerSample => exact h.bytesPerSample
  case preferred => exact h.preferred
  case ready => exact h.ready
  case entered => exact h.entered
  case left => simpa [delivered, Frame.delivered] using h.left
  case held => exact h.held
  case calls =>
    rw [hend]
    exact List.forall_mem_append.mpr
      ⟨h.calls, List.forall_mem_singleton.mpr (right_terminated _ _ _)⟩

/-- Any other call takes the next samples out of the pipe. -/
theorem refines_frame (h : s.Refines fPreferredFrameSize p) (hrun : s.isTerminated = false)
    {fMaxSize : Nat} (hsize : 2 ≤ fMaxSize) (hpreferred : 2 ≤ fPreferredFrameSize) :
    ∃ t q, s.getNextFrame fMaxSize = some t ∧ t.Refines fPreferredFrameSize q := by
  have hpreferred' : 2 ≤ s.source.fPreferredFrameSize := by
    rw [h.preferred]
    exact hpreferred
  obtain ⟨n, source, outputQueue, hnext, hframe⟩ :=
    doGetNextFrame_eq h.bytesPerSample h.ready hsize hpreferred'
  rw [← hrun] at hframe
  refine ⟨_, p.take n, getNextFrame_eq hframe, ?_⟩
  constructor
  case bytesPerSample => rw [hnext.bytesPerSample, h.bytesPerSample]
  case preferred => rw [hnext.fPreferredFrameSize, h.preferred]
  case ready => exact hnext.ready
  case entered => exact h.entered
  case left =>
    have hleft := h.left
    simp only [delivered] at hleft
    simp only [delivered, List.flatMap_append, List.flatMap_singleton, delivered_frameOf, hleft,
      Pipe.take, converted_append, h.held, available]
  case held => simp only [Pipe.take, h.held, available, hnext.available]
  case calls =>
    have hroom := hnext.room
    rw [h.preferred] at hroom
    rw [hrun]
    exact List.forall_mem_append.mpr
      ⟨h.calls, List.forall_mem_singleton.mpr (right_frameOf hroom hnext.pos)⟩

/-- **One event** of the stream is none, or one operation, of the pipe; and no
event reads behind the end of a batch. -/
theorem refines_step {source : LocalPCMSource} (h : s.Refines source.fPreferredFrameSize p)
    (hbytes : source.bytesPerSample = 2) (hpreferred : 2 ≤ source.fPreferredFrameSize) {e : Event}
    (he : Admissible source e) :
    ∃ t q, Step s e t ∧ t.Refines source.fPreferredFrameSize q := by
  cases e with
  | audioCallback out room =>
    obtain ⟨q, hq⟩ := refines_audioCallback h he room
    exact ⟨_, q, rfl, hq⟩
  | doGetNextFrame fMaxSize =>
    have hsize : 2 ≤ fMaxSize := by
      rw [← hbytes]
      exact he
    cases hend : s.isTerminated with
    | true =>
      obtain ⟨t, hstep, ht⟩ := refines_terminated h hend fMaxSize
      exact ⟨t, p, hstep, ht⟩
    | false => exact refines_frame h hend hsize hpreferred
  | terminate =>
    exact ⟨_, p, rfl, h.bytesPerSample, h.preferred, h.ready, h.entered, h.left, h.held, h.calls⟩

/-- A whole run of the stream. -/
theorem refines_run {source : LocalPCMSource} (hbytes : source.bytesPerSample = 2)
    (hpreferred : 2 ≤ source.fPreferredFrameSize) {events : List Event}
    (hevents : ∀ e ∈ events, Admissible source e) (h : s.Refines source.fPreferredFrameSize p) :
    ∃ t q, Run Step s events t ∧ t.Refines source.fPreferredFrameSize q := by
  induction events generalizing s p with
  | nil => exact ⟨s, p, .nil s, h⟩
  | cons e events ih =>
    obtain ⟨t, q, hstep, ht⟩ := refines_step h hbytes hpreferred (hevents e List.mem_cons_self)
    obtain ⟨u, q', hrun, hu⟩ := ih (fun e' he' => hevents e' (List.mem_cons_of_mem e he')) ht
    exact ⟨u, q', .cons hstep hrun, hu⟩

/-! ## The preferred frame size -/

theorem rankRate_mem {rates : List Nat} {best : Nat × Nat} {srate : Nat} (hsrate : srate ∈ rates)
    (h : best.2 ≤ NUM_RATES_DEFAULT → best.1 ∈ rates) :
    (rankRate best srate).2 ≤ NUM_RATES_DEFAULT → (rankRate best srate).1 ∈ rates := by
  unfold rankRate
  induction desiredRates.zipIdx generalizing best with
  | nil => exact h
  | cons desired rest ih =>
    rw [List.foldl_cons]
    apply ih
    split
    · exact fun _ => hsrate
    · exact h

theorem desiredRate_mem {info : DeviceInfo} {rate : Nat} (h : info.desiredRate = some rate) :
    rate ∈ info.sampleRates := by
  have hbest : ∀ (seen : List Nat) (best : Nat × Nat), (∀ srate ∈ seen, srate ∈ info.sampleRates) →
      (best.2 ≤ NUM_RATES_DEFAULT → best.1 ∈ info.sampleRates) →
      ((seen.foldl rankRate best).2 ≤ NUM_RATES_DEFAULT →
        (seen.foldl rankRate best).1 ∈ info.sampleRates) := by
    intro seen
    induction seen with
    | nil => exact fun _ _ hbest => hbest
    | cons srate seen ih =>
      intro best hseen hbest
      rw [List.foldl_cons]
      exact ih _ (fun s hs => hseen s (List.mem_cons_of_mem srate hs))
        (rankRate_mem (hseen srate List.mem_cons_self) hbest)
  simp only [DeviceInfo.desiredRate] at h
  split at h
  case isTrue => exact List.mem_of_getLast? h
  case isFalse hrank =>
    rw [← Option.some.inj h]
    refine hbest info.sampleRates _ (fun _ hs => hs) ?_ (by omega)
    intro hle
    exact absurd hle (by decide)

/-- A source of 16 bits has two bytes for a sample. -/
theorem bytesPerSample_new (sampleRate : Nat) :
    (LocalPCMSource.new sampleRate).bytesPerSample = 2 := by
  simp [LocalPCMSource.bytesPerSample, LocalPCMSource.new]

/-- Twenty milliseconds of any rate of the table hold a sample. -/
theorem preferred_new {sampleRate : Nat} (h : sampleRate ∈ SAMPLE_RATES) :
    2 ≤ (LocalPCMSource.new sampleRate).fPreferredFrameSize := by
  have hrates : ∀ rate ∈ SAMPLE_RATES, 4000 ≤ rate := by decide
  have hrate := hrates sampleRate h
  simp only [LocalPCMSource.new]
  split
  · omega
  · omega

/-! ## Every sample -/

/-- The frames of the calls have delivered the beginning of the enqueued batches,
as the samples come, and what is not delivered is still there. -/
structure KeepsEverySample (fPreferredFrameSize : Nat) (s : AudioStream) : Prop where
  delivered_prefix : s.delivered <+: converted s.enqueued.flatten
  none_lost : s.delivered ++ converted s.available = converted s.enqueued.flatten
  calls : ∀ call ∈ s.calls, call.Right fPreferredFrameSize

theorem Refines.keepsEverySample (h : s.Refines fPreferredFrameSize p) :
    s.KeepsEverySample fPreferredFrameSize := by
  have hall : s.delivered ++ converted s.available = converted s.enqueued.flatten := by
    rw [h.left, ← h.held, ← converted_append, p.balanced, h.entered]
  exact ⟨⟨_, hall⟩, hall, h.calls⟩

theorem refines_start {source : LocalPCMSource} (hbytes : source.bytesPerSample = 2)
    (hnone : source.currentBatch = none) :
    (start source).Refines source.fPreferredFrameSize .empty := by
  constructor
  case bytesPerSample => exact hbytes
  case preferred => rfl
  case ready =>
    constructor
    case current =>
      intro batch hbatch
      simp [start, LocalPCMSource.reading, hnone] at hbatch
    case queued =>
      intro batch hbatch
      cases hbatch
  case entered => rfl
  case left => rfl
  case held => simp [start, available, Reading.available, LocalPCMSource.reading, hnone, Pipe.empty]
  case calls =>
    intro call hcall
    cases hcall

/-- **Every run of the audio stream** keeps every sample: for a source at the
rate that a device was given, any batches that hold a sample, enqueued at any time,
and any calls with room for one, no call reads behind the end of a batch, the
delivered frames are the beginning of the batches, each frame fits, and an underrun
finds nothing left. -/
theorem keeps_every_sample {info : DeviceInfo} {rate : Nat} (hrate : info.desiredRate = some rate)
    {events : List Event} (hevents : ∀ e ∈ events, Admissible (.new rate) e) :
    (∃ t, Run Step (start (.new rate)) events t) ∧
      ∀ t, Run Step (start (.new rate)) events t →
        t.KeepsEverySample (LocalPCMSource.new rate).fPreferredFrameSize := by
  have hbytes := bytesPerSample_new rate
  have hpreferred := preferred_new (info.tested rate (desiredRate_mem hrate))
  obtain ⟨t, q, hrun, ht⟩ := refines_run hbytes hpreferred hevents (refines_start hbytes rfl)
  refine ⟨⟨t, hrun⟩, ?_⟩
  intro u hu
  have hfun : ∀ s e t t', Step s e t → Step s e t' → t = t' := by
    intro s e t t' h h'
    exact Option.some.inj (h.symm.trans h')
  rw [← hrun.unique hfun hu]
  exact ht.keepsEverySample

/-- Three samples in two batches, a frame for one of them, a frame across both
batches, and an underrun. -/
def twoBatches : List Event :=
  [.audioCallback [(0.25, 0), (0.5, 0)] true, .doGetNextFrame 3, .audioCallback [(0.75, 0)] true,
    .doGetNextFrame 1000, .doGetNextFrame 1000]

theorem keeps_every_sample_twoBatches :
    (∃ t, Run Step (start (.new 48000)) twoBatches t) ∧
      ∀ t, Run Step (start (.new 48000)) twoBatches t →
        t.KeepsEverySample (LocalPCMSource.new 48000).fPreferredFrameSize := by
  have htested : ∀ rate ∈ [44100, 48000], rate ∈ SAMPLE_RATES := by decide
  have hrate : DeviceInfo.desiredRate ⟨[44100, 48000], htested⟩ = some 48000 := rfl
  exact keeps_every_sample hrate (by simp [twoBatches, Admissible, bytesPerSample_new])

end AudioStream

end PiScan.Server.Audio

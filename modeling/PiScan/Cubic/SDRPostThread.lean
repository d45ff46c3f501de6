import Mathlib.Algebra.Order.Group.Abs
import Mathlib.Data.List.Induction
import PiScan.Cubic.SDRThread
import PiScan.Sigproc.Demodulator

/-!
# The channels of a batch

`SDRPostThread` splits the batches of the device into channels, and hands each modem
the channel nearest to its frequency.  The filters of `liquid` are parameters: what
the code relies on is how many samples they write.

* `getChannelAt_nearest`: the channel chosen for a frequency;
* `getChannelAt_inBand`: in band it is at most half a channel away, but for the
  rounding of the bandwidth;
* `analyze_eq_some`, `analyze_eq_none`: the channelizer stays within the batch just
  where the batch is whole rows of channels;
* `runDemodChannels_eq`: each modem gets one block, the samples of its channel;
* `run_eq_none_iff`: where a batch is read or written out of range;
* `one_block_each`: what a batch brings to the running modems.
-/

namespace PiScan.Cubic

open Runs Sigproc

namespace SDRPostThread

variable {F : Type}

/-! ## Channel centres -/

/-- One pass of the loop in `updateChannels`. -/
def updateChannel (numChannels sampleRate chanBw : Nat) (frequency : Int)
    (chanCenters : List Int) (i : Nat) : List Int :=
  let ofs : Int := chanBw * i
  (chanCenters.set i (frequency + ofs)).set (i + numChannels / 2)
    (frequency - (sampleRate / 2 : Nat) + ofs)

def updateChannels (numChannels sampleRate chanBw : Nat) (frequency : Int)
    (chanCenters : List Int) : List Int :=
  ((List.range (numChannels / 2)).foldl (updateChannel numChannels sampleRate chanBw frequency)
    chanCenters).set numChannels (frequency + (sampleRate / 2 : Nat))

/-- One pass of the loop in `getChannelAt`: the channel so far and its `minDelta`. -/
def nearer (frequency : Int) (best : Option Nat × Int) (center : Int × Nat) : Option Nat × Int :=
  let fdelta := |frequency - center.1|
  if fdelta < best.2 then (some center.2, fdelta) else best

/-- `getChannelAt`; `none` is `-1`. -/
def getChannelAt (sampleRate : Nat) (chanCenters : List Int) (frequency : Int) : Option Nat :=
  (chanCenters.zipIdx.foldl (nearer frequency) (none, (sampleRate : Int))).1

/-- The centres of `m` channels above the frequency, `m` below, and the one at the end. -/
structure Centered (m sampleRate chanBw : Nat) (frequency : Int) (chanCenters : List Int) :
    Prop where
  length : chanCenters.length = 2 * m + 1
  above : ∀ i < m, chanCenters[i]? = some (frequency + (chanBw : Int) * i)
  below : ∀ i < m, chanCenters[i + m]? =
    some (frequency - (sampleRate / 2 : Nat) + (chanBw : Int) * i)
  last : chanCenters[2 * m]? = some (frequency + (sampleRate / 2 : Nat))

theorem centered_updateChannels {m sampleRate chanBw : Nat} {frequency : Int}
    {chanCenters : List Int} (hlen : chanCenters.length = 2 * m + 1) :
    Centered m sampleRate chanBw frequency
      (updateChannels (2 * m) sampleRate chanBw frequency chanCenters) := by
  have hloop : ∀ k ≤ m, ((List.range k).foldl
      (updateChannel (2 * m) sampleRate chanBw frequency) chanCenters).length = 2 * m + 1 ∧
      ∀ i < k, ((List.range k).foldl (updateChannel (2 * m) sampleRate chanBw frequency)
          chanCenters)[i]? = some (frequency + (chanBw : Int) * i) ∧
        ((List.range k).foldl (updateChannel (2 * m) sampleRate chanBw frequency)
          chanCenters)[i + m]? =
            some (frequency - (sampleRate / 2 : Nat) + (chanBw : Int) * i) := by
    intro k
    induction k with
    | zero => exact fun _ => ⟨hlen, fun i hi => absurd hi (Nat.not_lt_zero i)⟩
    | succ k ih =>
      intro hk
      obtain ⟨hlen, hdone⟩ := ih (by omega)
      rw [List.range_succ, List.foldl_append, List.foldl_cons, List.foldl_nil]
      generalize (List.range k).foldl (updateChannel (2 * m) sampleRate chanBw frequency)
        chanCenters = cs at *
      have hhalf : 2 * m / 2 = m := by omega
      simp only [updateChannel, hhalf]
      refine ⟨by simp only [List.length_set]; exact hlen, ?_⟩
      intro i hi
      by_cases hik : i = k
      · subst hik
        rw [List.getElem?_set_ne (by omega), List.getElem?_set_self (by omega),
          List.getElem?_set_self (by rw [List.length_set]; omega)]
        exact ⟨rfl, rfl⟩
      · rw [List.getElem?_set_ne (by omega), List.getElem?_set_ne (by omega),
          List.getElem?_set_ne (by omega), List.getElem?_set_ne (by omega)]
        exact hdone i (by omega)
  obtain ⟨hlen', hdone⟩ := hloop m (Nat.le_refl m)
  unfold updateChannels
  rw [show 2 * m / 2 = m by omega]
  refine ⟨by rw [List.length_set, hlen'], fun i hi => ?_, fun i hi => ?_, ?_⟩
  · rw [List.getElem?_set_ne (by omega)]
    exact (hdone i hi).1
  · rw [List.getElem?_set_ne (by omega)]
    exact (hdone i hi).2
  · rw [List.getElem?_set_self (by omega)]

/-- What the thread uses of `liquid`: the channelizers of both modes, which write one
sample for each channel, and the DC filter, which writes as many as it reads. -/
structure Liquid (F K D : Type) where
  channels : K → Nat
  create : (mode numChannels : Nat) → K
  execute : K → List (Complex F) → K × List (Complex F)
  dcBlock : D → List (Complex F) → D × List (Complex F)
  channels_create : ∀ mode numChannels, channels (create mode numChannels) = numChannels
  channels_execute : ∀ k row, channels (execute k row).1 = channels k
  length_execute : ∀ k row, (execute k row).2.length = channels k
  length_dcBlock : ∀ d data, (dcBlock d data).2.length = data.length

variable {K D : Type} (L : Liquid F K D)

/-- One pass of the loop over a batch at `i = c * stride`; `none` is an access out of
bounds. -/
def analyzeRow (numChannels stride factor : Nat) (data : List (Complex F))
    (st : K × List (Complex F)) (c : Nat) : Option (K × List (Complex F)) :=
  let i := c * stride
  if i + stride ≤ data.length ∧ factor * i + numChannels ≤ st.2.length then
    let r := L.execute st.1 ((data.drop i).take stride)
    some (r.1, st.2.take (factor * i) ++ r.2 ++ st.2.drop (factor * i + numChannels))
  else none

/-- The loop over a batch: in steps of `stride` samples, with the output at `factor`
times the position of the input. -/
def analyze (numChannels stride factor : Nat) (k : K) (data dataOut : List (Complex F)) :
    Option (K × List (Complex F)) :=
  (List.range ((data.length + stride - 1) / stride)).foldlM
    (analyzeRow L numChannels stride factor data) (k, dataOut)

/-- The outputs for one row after the other. -/
def frames : K → List (List (Complex F)) → K × List (List (Complex F))
  | k, [] => (k, [])
  | k, row :: rows =>
    let r := L.execute k row
    let rest := frames r.1 rows
    (rest.1, r.2 :: rest.2)

def rows (stride n : Nat) (data : List (Complex F)) : List (List (Complex F)) :=
  (List.range n).map fun c => (data.drop (c * stride)).take stride

theorem frames_append (k : K) (xs ys : List (List (Complex F))) :
    frames L k (xs ++ ys) =
      ((frames L (frames L k xs).1 ys).1,
        (frames L k xs).2 ++ (frames L (frames L k xs).1 ys).2) := by
  induction xs generalizing k with
  | nil => rfl
  | cons x xs ih =>
    simp only [List.cons_append, frames, ih]

/-- Every frame has one sample for each channel. -/
theorem length_frames (k : K) (xs : List (List (Complex F))) :
    (frames L k xs).2.length = xs.length ∧ L.channels (frames L k xs).1 = L.channels k ∧
      ∀ frame ∈ (frames L k xs).2, frame.length = L.channels k := by
  induction xs generalizing k with
  | nil => exact ⟨rfl, rfl, fun _ h => absurd h List.not_mem_nil⟩
  | cons x xs ih =>
    obtain ⟨hlen, hchannels, hframes⟩ := ih (L.execute k x).1
    rw [L.channels_execute] at hchannels hframes
    refine ⟨by simp only [frames, List.length_cons, hlen], hchannels, ?_⟩
    intro frame hm
    rcases List.mem_cons.mp hm with rfl | hm
    · exact L.length_execute k x
    · exact hframes frame hm

theorem length_flatten_frames (k : K) (xs : List (List (Complex F))) :
    (frames L k xs).2.flatten.length = xs.length * L.channels k := by
  obtain ⟨hlen, -, hframes⟩ := length_frames L k xs
  rw [List.length_flatten, List.map_congr_left (g := fun _ => L.channels k) hframes,
    List.map_const', hlen, List.sum_replicate_nat]

/-- **Whole rows.**  The outputs replace what the buffer held. -/
theorem analyze_eq_some {n stride factor : Nat} {k : K} {data : List (Complex F)}
    (dataOut : List (Complex F)) (hstride : 0 < stride) (hk : L.channels k = factor * stride)
    (hdata : data.length = n * stride) (hout : dataOut.length = factor * data.length) :
    analyze L (factor * stride) stride factor k data dataOut =
      some ((frames L k (rows stride n data)).1,
        (frames L k (rows stride n data)).2.flatten) := by
  have hcount : (data.length + stride - 1) / stride = n := by
    rw [hdata, Nat.div_eq_of_lt_le]
    · omega
    · rw [Nat.add_mul]
      omega
  have hloop : ∀ c ≤ n, (List.range c).foldlM
      (analyzeRow L (factor * stride) stride factor data) (k, dataOut) =
        some ((frames L k (rows stride c data)).1,
          (frames L k (rows stride c data)).2.flatten ++
            dataOut.drop (c * (factor * stride))) := by
    intro c
    induction c with
    | zero => intro _; simp [rows, frames]
    | succ c ih =>
      intro hc
      have hlen : (frames L k (rows stride c data)).2.flatten.length = factor * (c * stride) := by
        rw [length_flatten_frames, hk, rows, List.length_map, List.length_range]
        ring
      have hle : (c + 1) * stride ≤ n * stride := Nat.mul_le_mul_right stride hc
      have hroom : factor * ((c + 1) * stride) ≤ factor * (n * stride) :=
        Nat.mul_le_mul_left factor hle
      rw [Nat.add_mul, Nat.one_mul] at hle hroom
      rw [Nat.mul_add] at hroom
      rw [List.range_succ, List.foldlM_append, ih (by omega)]
      simp only [Option.bind_eq_bind, Option.bind_some, List.foldlM_cons, List.foldlM_nil,
        analyzeRow]
      have hrows : rows stride (c + 1) data =
          rows stride c data ++ [(data.drop (c * stride)).take stride] := by
        simp only [rows, List.range_succ, List.map_append, List.map_cons, List.map_nil]
      have hmul : c * (factor * stride) = factor * (c * stride) := by ring
      rw [if_pos]
      · simp only [Option.bind_some, hrows, frames_append, frames, List.flatten_append,
          List.flatten_cons, List.flatten_nil, List.append_nil]
        rw [hmul, List.take_left' hlen, ← hlen, List.drop_length_add_append, hlen, List.drop_drop,
          List.append_assoc, List.append_assoc, show (c + 1) * (factor * stride) =
            factor * (c * stride) + factor * stride by ring]
        rfl
      · simp only [List.length_append, hlen, List.length_drop, hout, hdata, hmul]
        constructor
        · omega
        · omega
  rw [analyze, hcount, hloop n (Nat.le_refl n)]
  rw [List.drop_eq_nil_of_le, List.append_nil]
  rw [hout, hdata]
  exact le_of_eq (by ring)

/-- **A row cut short.**  The last pass runs out of the batch. -/
theorem analyze_eq_none {numChannels stride factor : Nat} {k : K}
    {data dataOut : List (Complex F)} (hstride : 0 < stride) (hdata : ¬stride ∣ data.length) :
    analyze L numChannels stride factor k data dataOut = none := by
  have hdiv := Nat.div_add_mod data.length stride
  have hmod := Nat.mod_lt data.length hstride
  have hpos : 0 < data.length % stride :=
    Nat.pos_of_ne_zero fun hzero => hdata (Nat.dvd_of_mod_eq_zero hzero)
  have hsum : data.length + stride - 1 =
      stride * (data.length / stride + 1) + (data.length % stride - 1) := by
    rw [Nat.mul_add]
    omega
  have hcount : (data.length + stride - 1) / stride = data.length / stride + 1 := by
    have hlt : data.length % stride - 1 < stride := by omega
    rw [hsum, Nat.mul_add_div hstride, Nat.div_eq_of_lt hlt, Nat.add_zero]
  rw [analyze, hcount, List.range_succ, List.foldlM_append]
  cases (List.range (data.length / stride)).foldlM
      (analyzeRow L numChannels stride factor data) (k, dataOut) with
  | none => rfl
  | some st =>
    simp only [Option.bind_eq_bind, Option.bind_some, List.foldlM_cons, List.foldlM_nil,
      analyzeRow]
    rw [if_neg]
    · rfl
    · rw [Nat.mul_comm (data.length / stride)]
      omega

/-! ## The samples of a channel -/

/-- `DemodulatorThreadIQData`. -/
structure DemodulatorThreadIQData (F : Type) where
  frequency : Int
  sampleRate : Nat
  data : List (Complex F)

/-- The copying loops: every `numChannels`th sample from `idx` on. -/
def copyChannel (dataOut : List (Complex F)) (numChannels : Nat) :
    Nat → Nat → Option (List (Complex F))
  | 0, _ => some []
  | size + 1, idx =>
    match dataOut[idx]?, copyChannel dataOut numChannels size (idx + numChannels) with
    | some x, some xs => some (x :: xs)
    | _, _ => none

/-- **De-interlacing.**  The loop picks one sample of every frame. -/
theorem copyChannel_flatten {frames : List (List (Complex F))} {n i : Nat}
    (hframes : ∀ frame ∈ frames, frame.length = n) (hi : i < n) (before : List (Complex F)) :
    copyChannel (before ++ frames.flatten) n frames.length (before.length + i) =
      some (frames.filterMap (·[i]?)) := by
  induction frames generalizing before with
  | nil => rfl
  | cons frame frames ih =>
    have hlen : frame.length = n := hframes frame (List.mem_cons_self ..)
    have hlt : i < frame.length := by omega
    have hget : frame[i]? = some frame[i] := List.getElem?_eq_getElem hlt
    have hrest := ih (fun f hf => hframes f (List.mem_cons_of_mem _ hf)) (before ++ frame)
    rw [List.length_append, hlen, List.append_assoc] at hrest
    simp only [List.flatten_cons, List.length_cons, copyChannel]
    rw [List.getElem?_append_right (Nat.le_add_right ..), Nat.add_sub_cancel_left,
      List.getElem?_append_left (by omega), hget,
      show before.length + i + n = before.length + n + i by omega, hrest,
      List.filterMap_cons, hget]

/-- The block goes to each modem of the channel `i`; one list of blocks for each modem. -/
def offer (i : Nat) (block : DemodulatorThreadIQData F)
    (offered : List (List (DemodulatorThreadIQData F))) (demodChannel : List (Option Nat)) :
    List (List (DemodulatorThreadIQData F)) :=
  List.zipWith (fun blocks chan => if chan = some i then blocks ++ [block] else blocks) offered
    demodChannel

/-- One pass of the loop over the channels. -/
def runChannel (numChannels channelBandwidth chanDataSize : Nat) (chanCenters : List Int)
    (dataOut : List (Complex F)) (demodChannel : List (Option Nat))
    (activeDemodChannel : Option Nat) (st : D × List (List (DemodulatorThreadIQData F)))
    (i : Nat) : Option (D × List (List (DemodulatorThreadIQData F))) :=
  if activeDemodChannel ≠ some i ∧ demodChannel.count (some i) = 0 then some st
  else
    -- the extra channel is the lowest one again
    let idx := if i = numChannels then numChannels / 2 else i
    match chanCenters[i]?, copyChannel dataOut numChannels chanDataSize idx with
    | some center, some data =>
      if i = 0 then
        let r := L.dcBlock st.1 data
        some (r.1, offer i ⟨center, channelBandwidth, r.2⟩ st.2 demodChannel)
      else some (st.1, offer i ⟨center, channelBandwidth, data⟩ st.2 demodChannel)
    | _, _ => none

/-- `runDemodChannels`, with the frequencies of the running modems as it reads them; what
is new for each modem.  `active` is the position of the current modem among them. -/
def runDemodChannels (numChannels sampleRate channelBandwidth : Nat) (chanCenters : List Int)
    (dataOut : List (Complex F)) (freqs : List Int) (active : Option Nat) (dcFilter : D) :
    Option (D × List (List (DemodulatorThreadIQData F))) :=
  let demodChannel := freqs.map (getChannelAt sampleRate chanCenters)
  let activeDemodChannel := active.bind fun j => demodChannel[j]?.join
  (List.range (numChannels + 1)).foldlM
    (runChannel L numChannels channelBandwidth (dataOut.length / numChannels) chanCenters dataOut
      demodChannel activeDemodChannel) (dcFilter, freqs.map fun _ => [])

/-- The samples of the channel `i` in the frames of a batch. -/
def channelData (numChannels : Nat) (frames : List (List (Complex F))) (dcFilter : D) (i : Nat) :
    List (Complex F) :=
  let data := frames.filterMap (·[if i = numChannels then numChannels / 2 else i]?)
  if i = 0 then (L.dcBlock dcFilter data).2 else data

/-- The block of the channel `i`. -/
def block (numChannels channelBandwidth : Nat) (chanCenters : List Int)
    (frames : List (List (Complex F))) (dcFilter : D) (i : Nat) : DemodulatorThreadIQData F where
  frequency := chanCenters.getD i 0
  sampleRate := channelBandwidth
  data := channelData L numChannels frames dcFilter i

theorem offer_map {σ : Type} (i : Nat) (b : DemodulatorThreadIQData F) (xs : List σ)
    (f : σ → List (DemodulatorThreadIQData F)) (g : σ → Option Nat) :
    offer i b (xs.map f) (xs.map g) = xs.map fun x => if g x = some i then f x ++ [b] else f x := by
  induction xs with
  | nil => rfl
  | cons x xs ih =>
    simp only [offer, List.map_cons, List.zipWith_cons_cons] at ih ⊢
    rw [ih]

/-- The blocks for a modem at `freq` from the channels below `k`. -/
def given (n sampleRate bandwidth : Nat) (chanCenters : List Int)
    (frames : List (List (Complex F))) (d : D) (k : Nat) (freq : Int) :
    List (DemodulatorThreadIQData F) :=
  match getChannelAt sampleRate chanCenters freq with
  | none => []
  | some i => if i < k then [block L n bandwidth chanCenters frames d i] else []

theorem given_zero (n sampleRate bandwidth : Nat) (chanCenters : List Int)
    (frames : List (List (Complex F))) (d : D) (freq : Int) :
    given L n sampleRate bandwidth chanCenters frames d 0 freq = [] := by
  unfold given
  split <;> rfl

theorem given_succ (n sampleRate bandwidth : Nat) (chanCenters : List Int)
    (frames : List (List (Complex F))) (d : D) (k : Nat) (freq : Int) :
    given L n sampleRate bandwidth chanCenters frames d (k + 1) freq =
      if getChannelAt sampleRate chanCenters freq = some k then
        given L n sampleRate bandwidth chanCenters frames d k freq ++
          [block L n bandwidth chanCenters frames d k]
      else given L n sampleRate bandwidth chanCenters frames d k freq := by
  unfold given
  cases getChannelAt sampleRate chanCenters freq with
  | none => rfl
  | some i =>
    by_cases hik : i = k
    · subst hik
      simp
    · have hiff : i < k + 1 ↔ i < k := by omega
      simp only [Option.some.injEq, hik, if_false, hiff]

/-- The channel `k` gives its block to its modems.  The DC filter has not run before the
first channel. -/
theorem runChannel_eq (sampleRate bandwidth : Nat) {n k : Nat} {chanCenters : List Int}
    {frames : List (List (Complex F))} (freqs : List Int) (active : Option Nat) {d d' : D}
    (hn : 1 < n) (hframes : ∀ frame ∈ frames, frame.length = n)
    (hcenters : chanCenters.length = n + 1) (hk : k ≤ n) (hfirst : k = 0 → d' = d) :
    ∃ d'', runChannel L n bandwidth frames.length chanCenters frames.flatten
      (freqs.map (getChannelAt sampleRate chanCenters)) active
      (d', freqs.map (given L n sampleRate bandwidth chanCenters frames d k)) k =
        some (d'', freqs.map (given L n sampleRate bandwidth chanCenters frames d (k + 1))) := by
  have hidx : (if k = n then n / 2 else k) < n := by
    split <;> omega
  have hcopy := copyChannel_flatten hframes hidx []
  rw [List.nil_append, List.length_nil, Nat.zero_add] at hcopy
  have hcenter : chanCenters[k]? = some (chanCenters.getD k 0) := by
    rw [List.getD_eq_getElem?_getD, List.getElem?_eq_getElem (by omega), Option.getD_some]
  unfold runChannel
  simp only [hcopy, hcenter, offer_map]
  split
  · next hunused =>
    -- no modem has this channel
    refine ⟨d', ?_⟩
    congr 2
    refine List.map_congr_left fun freq hfreq => ?_
    have hne : getChannelAt sampleRate chanCenters freq ≠ some k := fun heq =>
      List.count_eq_zero.mp hunused.2 (List.mem_map.mpr ⟨freq, hfreq, heq⟩)
    rw [given_succ, if_neg hne]
  · split
    · next hzero =>
      obtain rfl := hfirst hzero
      refine ⟨(L.dcBlock d' (frames.filterMap (·[if k = n then n / 2 else k]?))).1, ?_⟩
      congr 2
      refine List.map_congr_left fun freq _ => ?_
      rw [given_succ]
      simp only [block, channelData, if_pos hzero]
    · next hpos =>
      refine ⟨d', ?_⟩
      congr 2
      refine List.map_congr_left fun freq _ => ?_
      rw [given_succ]
      simp only [block, channelData, if_neg hpos]

/-- **One block for each modem**, the one of its channel, and no access out of bounds. -/
theorem runDemodChannels_eq (sampleRate bandwidth : Nat) {n : Nat} {chanCenters : List Int}
    {frames : List (List (Complex F))} (freqs : List Int) (active : Option Nat) (d : D)
    (hn : 1 < n) (hframes : ∀ frame ∈ frames, frame.length = n)
    (hcenters : chanCenters.length = n + 1) :
    ∃ d', runDemodChannels L n sampleRate bandwidth chanCenters frames.flatten freqs active d =
      some (d', freqs.map (given L n sampleRate bandwidth chanCenters frames d (n + 1))) := by
  have hsize : frames.flatten.length / n = frames.length := by
    rw [List.length_flatten, List.map_congr_left (g := fun _ => n) hframes, List.map_const',
      List.sum_replicate_nat, Nat.mul_div_cancel _ (by omega)]
  unfold runDemodChannels
  rw [hsize]
  dsimp only
  generalize (active.bind fun j =>
    (freqs.map (getChannelAt sampleRate chanCenters))[j]?.join) = activeDemodChannel
  have hloop : ∀ k ≤ n + 1, ∃ d', (k = 0 → d' = d) ∧ (List.range k).foldlM
      (runChannel L n bandwidth frames.length chanCenters frames.flatten
        (freqs.map (getChannelAt sampleRate chanCenters)) activeDemodChannel)
      (d, freqs.map fun _ => []) =
        some (d', freqs.map (given L n sampleRate bandwidth chanCenters frames d k)) := by
    intro k
    induction k with
    | zero =>
      intro _
      refine ⟨d, fun _ => rfl, ?_⟩
      rw [List.map_congr_left fun freq _ => given_zero L n sampleRate bandwidth chanCenters frames
        d freq]
      rfl
    | succ k ih =>
      intro hk
      obtain ⟨d', hfirst, hdone⟩ := ih (by omega)
      obtain ⟨d'', hnext⟩ := runChannel_eq L sampleRate bandwidth freqs activeDemodChannel hn
        hframes hcenters (show k ≤ n by omega) hfirst
      refine ⟨d'', fun h => absurd h (Nat.succ_ne_zero k), ?_⟩
      rw [List.range_succ, List.foldlM_append, hdone]
      simp only [Option.bind_eq_bind, Option.bind_some, List.foldlM_cons, List.foldlM_nil, hnext]
      rfl
  obtain ⟨d', -, hdone⟩ := hloop (n + 1) (Nat.le_refl _)
  exact ⟨d', hdone⟩

/-! ## The modems in band -/

/-- `frequency` is the tuner's, and `freq` within half the sample rate of it. -/
def InBand (frequency : Int) (sampleRate : Nat) (freq : Int) : Prop :=
  |frequency - freq| ≤ (sampleRate / 2 : Nat)

instance (frequency : Int) (sampleRate : Nat) (freq : Int) :
    Decidable (InBand frequency sampleRate freq) := inferInstanceAs (Decidable (_ ≤ _))

/-- The modem at `demod` in `updateActiveDemodulators`, with the modems found active so
far; no modem follows, tracks or is locked to an offset. -/
def updateDemod (frequency : Int) (sampleRate : Nat) (st : DemodulatorMgr × List Nat)
    (demod : Nat) : DemodulatorMgr × List Nat :=
  match st.1.demods[demod]? with
  | none => st
  | some inst =>
    let set (active : Bool) : DemodulatorMgr :=
      { st.1 with demods := st.1.demods.modify demod (·.setActive active) }
    let mgr :=
      if InBand frequency sampleRate inst.frequency then
        if inst.active then st.1
        else if st.1.getCurrentModem = none then (set true).setActiveDemodulator demod true
        else set true
      else if st.1.getCurrentModem = some demod ∨ inst.active then set false
      else st.1
    (mgr, if mgr.isActive demod then st.2 ++ [demod] else st.2)

/-- `updateActiveDemodulators`: the manager, and the new `runDemods`. -/
def updateActiveDemodulators (frequency : Int) (sampleRate : Nat) (mgr : DemodulatorMgr) :
    DemodulatorMgr × List Nat :=
  (List.range mgr.demods.length).foldl (updateDemod frequency sampleRate) (mgr, [])

/-- The modems in band, in the order of the manager. -/
def inBand (frequency : Int) (sampleRate : Nat) (mgr : DemodulatorMgr) : List Nat :=
  (List.range mgr.demods.length).filter fun demod =>
    (mgr.demods[demod]?).any fun inst => InBand frequency sampleRate inst.frequency

/-- One modem: it runs if and only if it is in band, and no frequency changes. -/
theorem updateDemod_spec (frequency : Int) (sampleRate : Nat) (st : DemodulatorMgr × List Nat)
    {demod : Nat} {inst : DemodulatorInstance} (hinst : st.1.demods[demod]? = some inst) :
    (updateDemod frequency sampleRate st demod).2 =
        st.2 ++ (if InBand frequency sampleRate inst.frequency then [demod] else []) ∧
      ∀ i : Nat, ((updateDemod frequency sampleRate st demod).1.demods[i]?).map
        DemodulatorInstance.frequency = (st.1.demods[i]?).map DemodulatorInstance.frequency := by
  have hset : ∀ (active : Bool) (i : Nat), ((st.1.demods.modify demod (·.setActive active))[i]?).map
      DemodulatorInstance.frequency = (st.1.demods[i]?).map DemodulatorInstance.frequency := by
    intro active i
    rw [List.getElem?_modify]
    cases st.1.demods[i]? with
    | none => rfl
    | some inst' => split <;> rfl
  have hself : ∀ active, ({ st.1 with demods := st.1.demods.modify demod (·.setActive active) } :
      DemodulatorMgr).isActive demod = active := by
    intro active
    simp only [DemodulatorMgr.isActive]
    rw [List.getElem?_modify, hinst]
    simp [DemodulatorInstance.setActive]
  have hsame : st.1.isActive demod = inst.active := by
    simp only [DemodulatorMgr.isActive, hinst]
  unfold updateDemod
  rw [hinst]
  dsimp only
  split
  · split
    · next hactive =>
      refine ⟨?_, fun _ => rfl⟩
      rw [hsame, if_pos hactive]
    · split
      · refine ⟨?_, hset true⟩
        rw [show ({ st.1 with demods := st.1.demods.modify demod (·.setActive true) } :
          DemodulatorMgr).setActiveDemodulator demod true = { st.1 with
            demods := st.1.demods.modify demod (·.setActive true)
            activeContextModem := some demod } from rfl]
        exact if_pos (hself true)
      · refine ⟨?_, hset true⟩
        rw [hself, if_pos rfl]
  · rw [List.append_nil]
    split
    · refine ⟨?_, hset false⟩
      rw [hself]
      rfl
    · next hidle =>
      refine ⟨?_, fun _ => rfl⟩
      rw [hsame, if_neg fun hactive => hidle (.inr hactive)]

/-- **The running modems are those in band**, whatever was active before. -/
theorem updateActiveDemodulators_eq (frequency : Int) (sampleRate : Nat) (mgr : DemodulatorMgr) :
    (updateActiveDemodulators frequency sampleRate mgr).2 = inBand frequency sampleRate mgr := by
  have hloop : ∀ k ≤ mgr.demods.length,
      ((List.range k).foldl (updateDemod frequency sampleRate) (mgr, [])).2 =
        (List.range k).filter (fun demod =>
          (mgr.demods[demod]?).any fun inst => InBand frequency sampleRate inst.frequency) ∧
      ∀ i : Nat, (((List.range k).foldl (updateDemod frequency sampleRate) (mgr, [])).1.demods[i]?).map
        DemodulatorInstance.frequency = (mgr.demods[i]?).map DemodulatorInstance.frequency := by
    intro k
    induction k with
    | zero => exact fun _ => ⟨rfl, fun _ => rfl⟩
    | succ k ih =>
      intro hk
      obtain ⟨hrun, hfreq⟩ := ih (by omega)
      rw [List.range_succ, List.foldl_append, List.foldl_cons, List.foldl_nil, List.filter_append]
      generalize (List.range k).foldl (updateDemod frequency sampleRate) (mgr, []) = st at *
      have hk' := hfreq k
      have hlt : k < mgr.demods.length := hk
      have hthere : mgr.demods[k]? = some mgr.demods[k] := List.getElem?_eq_getElem hlt
      rw [hthere, Option.map_some, Option.map_eq_some_iff] at hk'
      obtain ⟨inst, hinst, heq⟩ := hk'
      obtain ⟨hnext, hkeep⟩ := updateDemod_spec frequency sampleRate st hinst
      refine ⟨?_, fun i => (hkeep i).trans (hfreq i)⟩
      rw [hnext, hrun, heq, List.filter_singleton, hthere]
      simp
  exact (hloop _ (Nat.le_refl _)).1

/-! ## The thread -/

structure State (F K D : Type) where
  numChannels : Nat
  sampleRate : Nat
  lastChanMode : Nat
  frequency : Int
  chanBw : Nat
  chanCenters : List Int
  channelizer : Option K
  dcFilter : D
  runDemods : List Nat
  dataOut : List (Complex F)

/-- One pass of the loop in `run`: a batch, `chanMode` and `doRefresh`, and the modems as
other threads have them when the active ones are sought, when the channels are run, and
at the end. -/
structure Pass (F : Type) where
  batch : SDRThreadIQData F
  chanMode : Nat
  doRefresh : Bool
  mgr : DemodulatorMgr
  later : DemodulatorMgr
  last : DemodulatorMgr

namespace State

variable [Zero F]

def init (dcFilter : D) : State F K D where
  numChannels := 0
  sampleRate := 0
  lastChanMode := 0
  frequency := 0
  chanBw := 0
  chanCenters := []
  channelizer := none
  dcFilter := dcFilter
  runDemods := []
  dataOut := []

/-- The new modems at a new frequency. -/
def retune (s : State F K D) (frequency : Int) (mgr : DemodulatorMgr) : State F K D :=
  { s with
    frequency := frequency
    runDemods := (updateActiveDemodulators frequency s.sampleRate mgr).2 }

/-- `runSingleCH`, and what it gives to each running modem. -/
def runSingleCH (s : State F K D) (p : Pass F) :
    State F K D × List (List (DemodulatorThreadIQData F)) :=
  let refreshed := s.sampleRate ≠ p.batch.sampleRate ∨ p.doRefresh = true
  let s := if refreshed then { s with sampleRate := p.batch.sampleRate, numChannels := 1 } else s
  let s := if refreshed ∨ s.frequency ≠ p.batch.frequency then s.retune p.batch.frequency p.mgr else s
  let r := L.dcBlock s.dcFilter p.batch.data
  ({ s with
      dcFilter := r.1, dataOut := SDRThread.resize ⟨0, 0⟩ s.dataOut p.batch.data.length },
    s.runDemods.map fun _ => [⟨s.frequency, s.sampleRate, r.2⟩])

/-- `initPFBCH` and `initPFBCH2`. -/
def initChannelizer (s : State F K D) (mode : Nat) : State F K D :=
  { s with
    channelizer := some (L.create mode s.numChannels)
    chanBw := s.sampleRate / s.numChannels
    chanCenters := s.chanCenters.take (s.numChannels + 1) ++
      List.replicate (s.numChannels + 1 - s.chanCenters.length) 0
    lastChanMode := mode }

/-- What `runPFBCH` and `runPFBCH2` do before they run the channelizer. -/
def prepare (s : State F K D) (mode : Nat) (p : Pass F) : State F K D :=
  let refreshed := s.numChannels ≠ p.batch.numChannels ∨ s.sampleRate ≠ p.batch.sampleRate ∨
    mode ≠ s.lastChanMode ∨ p.doRefresh = true
  let s :=
    if refreshed then
      initChannelizer L
        { s with numChannels := p.batch.numChannels, sampleRate := p.batch.sampleRate } mode
    else s
  if refreshed ∨ s.frequency ≠ p.batch.frequency then
    let s := s.retune p.batch.frequency p.mgr
    { s with
      chanCenters := updateChannels s.numChannels s.sampleRate s.chanBw s.frequency s.chanCenters }
  else s

/-- The frequencies of the running modems, as `runDemodChannels` reads them. -/
def freqs (s : State F K D) (mgr : DemodulatorMgr) : List Int :=
  s.runDemods.map fun demod => ((mgr.demods[demod]?).map DemodulatorInstance.frequency).getD 0

/-- The common part of `runPFBCH` and `runPFBCH2`; `none` is an access out of bounds. -/
def runChannels (s : State F K D) (mode stride factor : Nat) (p : Pass F) :
    Option (State F K D × List (List (DemodulatorThreadIQData F))) :=
  let s := s.prepare L mode p
  let s := { s with dataOut := SDRThread.resize ⟨0, 0⟩ s.dataOut (factor * p.batch.data.length) }
  if s.runDemods = [] then some (s, [])
  else
    match s.channelizer with
    | none => none
    | some k =>
      match analyze L s.numChannels stride factor k p.batch.data s.dataOut with
      | none => none
      | some (k, dataOut) =>
        let active := p.later.currentModem.bind fun demod => s.runDemods.idxOf? demod
        match runDemodChannels L s.numChannels s.sampleRate (s.chanBw * factor) s.chanCenters
          dataOut (s.freqs p.later) active s.dcFilter with
        | none => none
        | some (dcFilter, offered) =>
          some ({ s with channelizer := some k, dataOut := dataOut, dcFilter := dcFilter }, offered)

/-- For every `numChannels` samples the channelizer writes as many. -/
def runPFBCH (s : State F K D) (p : Pass F) :
    Option (State F K D × List (List (DemodulatorThreadIQData F))) :=
  s.runChannels L 1 p.batch.numChannels 1 p

/-- For every `numChannels / 2` samples the channelizer writes `numChannels`. -/
def runPFBCH2 (s : State F K D) (p : Pass F) :
    Option (State F K D × List (List (DemodulatorThreadIQData F))) :=
  s.runChannels L 2 (p.batch.numChannels / 2) 2 p

/-- The list of modems is renewed when one of them has left the band. -/
def checkDemods (s : State F K D) (p : Pass F) : State F K D :=
  if (s.freqs p.last).any (fun freq => ¬InBand s.frequency s.sampleRate freq) ∨
      p.doRefresh = true then
    { s with
      runDemods := (updateActiveDemodulators s.frequency s.sampleRate p.last).2 }
  else s

/-- One pass of the loop in `run`, and what it gives to each running modem. -/
def run (s : State F K D) (p : Pass F) :
    Option (State F K D × List (List (DemodulatorThreadIQData F))) :=
  let r :=
    if p.batch.data = [] then some (s, [])
    else if 1 < p.batch.numChannels then
      if p.chanMode = 1 then s.runPFBCH L p
      else if p.chanMode = 2 then s.runPFBCH2 L p
      else some (s, [])
    else some (s.runSingleCH L p)
  r.map fun r => (r.1.checkDemods p, r.2)

def Step (s : State F K D) (p : Pass F) (t : State F K D) : Prop :=
  (s.run L p).map Prod.fst = some t

end State

/-! ## Runs -/

/-- The batch has the channels of its sample rate, as long as no new rate is set between
`updateSettings` and the end of the batch. -/
def Consistent (p : Pass F) : Prop :=
  0 < p.batch.sampleRate ∧
    p.batch.numChannels = SDRThread.getOptimalChannelCount p.batch.sampleRate

theorem getOptimalChannelCount_even {rate : Nat}
    (h : 1 < SDRThread.getOptimalChannelCount rate) :
    ∃ m, 0 < m ∧ SDRThread.getOptimalChannelCount rate = 2 * m ∧ 2 * m ≤ rate := by
  unfold SDRThread.getOptimalChannelCount at h ⊢
  split at h
  · omega
  · next hrate =>
    rw [if_neg hrate]
    dsimp only
    unfold SDRThread.CHANNELIZER_RATE_MAX at hrate ⊢
    split
    · next hodd =>
      exact ⟨max ((rate + (500000 - 1)) / 500000 - 1) 2 / 2, by omega, by omega, by omega⟩
    · next heven =>
      exact ⟨max ((rate + (500000 - 1)) / 500000) 2 / 2, by omega, by omega, by omega⟩

/-- The channels are those of the sample rate and the frequency. -/
structure Tuned (s : State F K D) : Prop where
  rate : s.numChannels = 0 ∧ s.sampleRate = 0 ∨
    s.numChannels = SDRThread.getOptimalChannelCount s.sampleRate
  channels : ∀ m, 0 < m → s.numChannels = 2 * m →
    ∃ k, s.channelizer = some k ∧ L.channels k = s.numChannels ∧
      s.chanBw = s.sampleRate / (2 * m) ∧
      Centered m s.sampleRate s.chanBw s.frequency s.chanCenters

namespace Tuned

variable {L} {s t : State F K D} {p : Pass F}

theorem init (d : D) : Tuned L (State.init d : State F K D) := by
  refine ⟨.inl ⟨rfl, rfl⟩, ?_⟩
  intro m hm hchannels
  simp only [State.init] at hchannels
  omega

/-- What the channels are for does not depend on the modems or on the buffers. -/
theorem congr (h : Tuned L s) (hrate : t.numChannels = s.numChannels ∧ t.sampleRate = s.sampleRate)
    (hfreq : t.frequency = s.frequency) (hchan : t.chanBw = s.chanBw ∧
      t.chanCenters = s.chanCenters)
    (hk : ∀ k, s.channelizer = some k → ∃ k', t.channelizer = some k' ∧
      L.channels k' = L.channels k) : Tuned L t := by
  refine ⟨?_, ?_⟩
  · rw [hrate.1, hrate.2]
    exact h.rate
  · intro m hm hchannels
    rw [hrate.1] at hchannels
    obtain ⟨k, hsome, hlen, hbw, hcentered⟩ := h.channels m hm hchannels
    obtain ⟨k', hsome', hlen'⟩ := hk k hsome
    refine ⟨k', hsome', ?_, ?_, ?_⟩
    · rw [hlen', hlen, hrate.1]
    · rw [hchan.1, hrate.2]
      exact hbw
    · rw [hrate.2, hfreq, hchan.1, hchan.2]
      exact hcentered

theorem checkDemods (h : Tuned L s) (p : Pass F) : Tuned L (s.checkDemods p) := by
  have hk : ∀ k, s.channelizer = some k → ∃ k', s.channelizer = some k' ∧
      L.channels k' = L.channels k := fun k hk => ⟨k, hk, rfl⟩
  unfold State.checkDemods
  split
  · exact h.congr ⟨rfl, rfl⟩ rfl ⟨rfl, rfl⟩ hk
  · exact h

/-- **Before the channelizer runs** the channels are those of the batch. -/
theorem prepare (h : Tuned L s) (mode : Nat) (hp : Consistent p) (hmulti : 1 < p.batch.numChannels) :
    Tuned L (s.prepare L mode p) ∧ (s.prepare L mode p).numChannels = p.batch.numChannels ∧
      (s.prepare L mode p).sampleRate = p.batch.sampleRate ∧
      (s.prepare L mode p).frequency = p.batch.frequency := by
  obtain ⟨m, hm, heven, -⟩ := getOptimalChannelCount_even (hp.2 ▸ hmulti)
  have htwo : p.batch.numChannels = 2 * m := hp.2.trans heven
  have hunique : ∀ m', p.batch.numChannels = 2 * m' → m' = m := fun m' h' => by omega
  unfold State.prepare
  dsimp only
  split
  · next hrefreshed =>
    rw [if_pos (.inl hrefreshed)]
    refine ⟨⟨.inr hp.2, ?_⟩, rfl, rfl, rfl⟩
    intro m' hm' hchannels
    obtain rfl := hunique m' hchannels
    refine ⟨_, rfl, L.channels_create .., ?_, ?_⟩
    · show p.batch.sampleRate / p.batch.numChannels = p.batch.sampleRate / (2 * m')
      rw [htwo]
    · simp only [State.retune, State.initChannelizer, htwo]
      refine centered_updateChannels ?_
      simp only [List.length_append, List.length_take, List.length_replicate]
      omega
  · next hnot =>
    have hchannels : s.numChannels = p.batch.numChannels := by
      by_contra hne
      exact hnot (.inl hne)
    have hrate : s.sampleRate = p.batch.sampleRate := by
      by_contra hne
      exact hnot (.inr (.inl hne))
    split
    · next hmoved =>
      refine ⟨⟨.inr ?_, ?_⟩, hchannels, hrate, rfl⟩
      · simp only [State.retune, hchannels, hrate]
        exact hp.2
      · intro m' hm' htwo'
        obtain ⟨k, hsome, hlen, hbw, hcentered⟩ := h.channels m' hm' htwo'
        refine ⟨k, hsome, hlen, hbw, ?_⟩
        simp only [State.retune]
        rw [show s.numChannels = 2 * m' from htwo']
        exact centered_updateChannels hcentered.length
    · next hstill =>
      refine ⟨h, hchannels, hrate, ?_⟩
      by_contra hne
      exact hstill (.inr hne)

variable [Zero F]

theorem runSingleCH (h : Tuned L s) (hp : Consistent p) (hsingle : ¬1 < p.batch.numChannels) :
    Tuned L (s.runSingleCH L p).1 := by
  have hone : SDRThread.getOptimalChannelCount p.batch.sampleRate = 1 := by
    have hle : SDRThread.getOptimalChannelCount p.batch.sampleRate ≤ 1 := by
      rw [← hp.2]
      omega
    unfold SDRThread.getOptimalChannelCount at hle ⊢
    split at hle
    · next hrate => rw [if_pos hrate]
    · simp only at hle
      omega
  have hkept : ∀ t : State F K D, t.numChannels = 1 → t.sampleRate = p.batch.sampleRate →
      Tuned L t := by
    intro t hchannels hrate
    refine ⟨.inr (by rw [hchannels, hrate, hone]), ?_⟩
    intro m hm htwo
    omega
  have hsame : s.sampleRate = p.batch.sampleRate → s.numChannels = 1 := by
    intro heq
    rcases h.rate with ⟨-, hzero⟩ | hrate
    · have hpos := hp.1
      omega
    · rw [hrate, heq, hone]
  unfold State.runSingleCH
  dsimp only
  split
  · split
    · exact hkept _ rfl rfl
    · exact hkept _ rfl rfl
  · next hnot =>
    have heq : s.sampleRate = p.batch.sampleRate := by
      by_contra hne
      exact hnot (.inl hne)
    split
    · exact hkept _ (hsame heq) heq
    · exact hkept _ (hsame heq) heq

/-- **The channels of a batch**: the channelizer runs out of a batch that is not whole
rows; else each running modem is given its blocks. -/
theorem runChannels (h : Tuned L s) (mode : Nat) {stride factor : Nat} (hp : Consistent p)
    (hmulti : 1 < p.batch.numChannels) (hstride : 0 < stride)
    (hfactor : factor * stride = p.batch.numChannels) :
    ((s.prepare L mode p).runDemods ≠ [] → ¬stride ∣ p.batch.data.length →
      s.runChannels L mode stride factor p = none) ∧
    ((s.prepare L mode p).runDemods = [] ∨ stride ∣ p.batch.data.length →
      ∃ t offered frames, s.runChannels L mode stride factor p = some (t, offered) ∧
        Tuned L t ∧ frames.length = p.batch.data.length / stride ∧
        (∀ frame ∈ frames, frame.length = p.batch.numChannels) ∧
        offered = ((s.prepare L mode p).freqs p.later).map
          (given L p.batch.numChannels p.batch.sampleRate ((s.prepare L mode p).chanBw * factor)
            (s.prepare L mode p).chanCenters frames (s.prepare L mode p).dcFilter
            (p.batch.numChannels + 1))) := by
  obtain ⟨htuned, hchannels, hrate, -⟩ := h.prepare mode hp hmulti
  obtain ⟨m, hm, heven, -⟩ := getOptimalChannelCount_even (hp.2 ▸ hmulti)
  have htwo : (s.prepare L mode p).numChannels = 2 * m := hchannels.trans (hp.2.trans heven)
  obtain ⟨k, hsome, hlen, -, hcentered⟩ := htuned.channels m hm htwo
  have hcenters : (s.prepare L mode p).chanCenters.length = p.batch.numChannels + 1 := by
    rw [hcentered.length, ← htwo, hchannels]
  unfold State.runChannels
  dsimp only
  generalize s.prepare L mode p = t at *
  refine ⟨?_, ?_⟩
  · intro hrun hcut
    rw [if_neg hrun, hsome]
    dsimp only
    rw [analyze_eq_none L hstride hcut]
  · intro hwhole
    split
    · next hnone =>
      refine ⟨_, [], List.replicate (p.batch.data.length / stride)
        (List.replicate p.batch.numChannels ⟨0, 0⟩), rfl, ?_, List.length_replicate .., ?_, ?_⟩
      · exact htuned.congr ⟨rfl, rfl⟩ rfl ⟨rfl, rfl⟩ fun k hk => ⟨k, hk, rfl⟩
      · intro frame hm
        rw [List.eq_of_mem_replicate hm, List.length_replicate]
      · rw [State.freqs, hnone]
        rfl
    · next hsomeRun =>
      obtain ⟨n, hn⟩ := hwhole.resolve_left hsomeRun
      have hdata : p.batch.data.length = n * stride := by rw [hn, Nat.mul_comm]
      have hk : L.channels k = factor * stride := by rw [hlen, hchannels, hfactor]
      have hanalyze := analyze_eq_some L
        (SDRThread.resize ⟨0, 0⟩ t.dataOut (factor * p.batch.data.length)) hstride hk hdata (by
          simp only [SDRThread.resize, List.length_append, List.length_take, List.length_replicate]
          omega)
      obtain ⟨hcount, hkeep, hframes⟩ := length_frames L k (rows stride n p.batch.data)
      generalize frames L k (rows stride n p.batch.data) = r at *
      have hframes' : ∀ frame ∈ r.2, frame.length = p.batch.numChannels := by
        intro frame hm
        rw [hframes frame hm, hk, hfactor]
      obtain ⟨d', hrun⟩ := runDemodChannels_eq L p.batch.sampleRate (t.chanBw * factor)
        (t.freqs p.later) (p.later.currentModem.bind fun demod => t.runDemods.idxOf? demod)
        t.dcFilter hmulti hframes' hcenters
      rw [hfactor] at hanalyze
      rw [hsome]
      dsimp only
      rw [hchannels, hanalyze]
      dsimp only
      rw [hrate]
      unfold State.freqs at hrun ⊢
      dsimp only
      rw [hrun]
      refine ⟨_, _, r.2, rfl, ?_, ?_, hframes', rfl⟩
      · refine htuned.congr ⟨hchannels.symm, hrate.symm⟩ rfl ⟨rfl, rfl⟩ fun k' hk' =>
          ⟨r.1, rfl, ?_⟩
        rw [hsome] at hk'
        cases hk'
        exact hkeep
      · rw [hcount, rows, List.length_map, List.length_range, hdata,
          Nat.mul_div_cancel _ hstride]

theorem run (h : Tuned L s) (hp : Consistent p)
    {offered : List (List (DemodulatorThreadIQData F))} (hrun : s.run L p = some (t, offered)) :
    Tuned L t := by
  unfold State.run at hrun
  rw [Option.map_eq_some_iff] at hrun
  obtain ⟨⟨u, offered'⟩, hu, heq⟩ := hrun
  cases heq
  refine Tuned.checkDemods ?_ p
  have hchannels : ∀ mode stride factor, 1 < p.batch.numChannels → 0 < stride →
      factor * stride = p.batch.numChannels →
      s.runChannels L mode stride factor p = some (u, offered') → Tuned L u := by
    intro mode stride factor hmulti hstride hfactor hsome
    obtain ⟨hcut, hwhole⟩ := h.runChannels mode hp hmulti hstride hfactor
    by_cases hok : (s.prepare L mode p).runDemods = [] ∨ stride ∣ p.batch.data.length
    · obtain ⟨t, offered, frames, hsome', htuned, -⟩ := hwhole hok
      rw [hsome] at hsome'
      cases hsome'
      exact htuned
    · rw [not_or] at hok
      rw [hcut hok.1 hok.2] at hsome
      cases hsome
  split_ifs at hu with hempty hmulti hone htwo
  · cases hu
    exact h
  · exact hchannels 1 _ 1 hmulti (by omega) (Nat.one_mul _) hu
  · obtain ⟨m, hm, heven, -⟩ := getOptimalChannelCount_even (hp.2 ▸ hmulti)
    have heven' := hp.2.trans heven
    exact hchannels 2 _ 2 hmulti (by omega) (by omega) hu
  · cases hu
    exact h
  · cases hu
    exact h.runSingleCH hp hmulti

end Tuned

namespace State

variable [Zero F] {s : State F K D} {d : D} {ps : List (Pass F)} {p : Pass F}

theorem tuned_of_run (h : Run (Guarded (Step L) fun _ p => Consistent p) (init d) ps s) :
    Tuned L s := by
  refine h.invariant (I := Tuned L) ?_ (.init d)
  rintro s p t hs ⟨hstep, hp⟩
  obtain ⟨⟨u, offered⟩, hrun, rfl⟩ := Option.map_eq_some_iff.mp hstep
  exact hs.run hp hrun

/-- The modes differ in the steps they take through a batch. -/
def stride (mode numChannels : Nat) : Nat := if mode = 1 then numChannels else numChannels / 2

theorem run_eq_runChannels (s : State F K D) (hmulti : 1 < p.batch.numChannels)
    (hmode : p.chanMode = 1 ∨ p.chanMode = 2) (hdata : p.batch.data ≠ []) :
    s.run L p = (s.runChannels L p.chanMode (stride p.chanMode p.batch.numChannels) p.chanMode
      p).map fun r => (r.1.checkDemods p, r.2) := by
  unfold run
  rw [if_neg hdata, if_pos hmulti]
  rcases hmode with hone | htwo
  · rw [if_pos hone, hone]
    rfl
  · rw [if_neg (by omega), if_pos htwo, htwo]
    rfl

omit [Zero F] in
theorem stride_spec (hp : Consistent p) (hmulti : 1 < p.batch.numChannels)
    (hmode : p.chanMode = 1 ∨ p.chanMode = 2) :
    0 < stride p.chanMode p.batch.numChannels ∧
      p.chanMode * stride p.chanMode p.batch.numChannels = p.batch.numChannels := by
  obtain ⟨m, hm, heven, -⟩ := getOptimalChannelCount_even (hp.2 ▸ hmulti)
  have htwo : p.batch.numChannels = 2 * m := hp.2.trans heven
  unfold stride
  rcases hmode with h | h
  · rw [h, if_pos rfl]
    omega
  · rw [h, if_neg (by omega)]
    omega

/-- **Where the channelizer leaves the batch.**  After any run, a batch in several
channels is read or written beyond its end if and only if some modem runs and the batch
is not whole rows, or in the second mode not whole half rows. -/
theorem run_eq_none_iff (h : Run (Guarded (Step L) fun _ p => Consistent p) (init d) ps s)
    (hp : Consistent p) (hmulti : 1 < p.batch.numChannels)
    (hmode : p.chanMode = 1 ∨ p.chanMode = 2) (hdata : p.batch.data ≠ []) :
    s.run L p = none ↔ (s.prepare L p.chanMode p).runDemods ≠ [] ∧
      ¬stride p.chanMode p.batch.numChannels ∣ p.batch.data.length := by
  obtain ⟨hstride, hfactor⟩ := stride_spec hp hmulti hmode
  obtain ⟨hcut, hwhole⟩ :=
    (tuned_of_run L h).runChannels p.chanMode hp hmulti hstride hfactor
  rw [run_eq_runChannels L s hmulti hmode hdata, Option.map_eq_none_iff]
  constructor
  · intro hnone
    by_contra hnot
    rw [not_and_or, not_not, not_not] at hnot
    obtain ⟨t, offered, frames, hsome, -⟩ := hwhole hnot
    rw [hnone] at hsome
    cases hsome
  · rintro ⟨hrun, hpart⟩
    exact hcut hrun hpart

/-- Filters that hear nothing: the output of the channelizer is silence, and so is that
of the DC filter. -/
def silent : Liquid Int Nat Unit where
  channels := id
  create _ numChannels := numChannels
  execute k _ := (k, List.replicate k ⟨0, 0⟩)
  dcBlock _ data := ((), data)
  channels_create _ _ := rfl
  channels_execute _ _ := rfl
  length_execute _ _ := List.length_replicate ..
  length_dcBlock _ _ := rfl

/-- `n` samples at 1 MHz, with a modem at the frequency of the tuner. -/
def silence (n : Nat) : Pass Int :=
  let mgr : DemodulatorMgr := ⟨[⟨true, false, 12500, 100000000⟩], some 0, some 0⟩
  { batch := ⟨100000000, 1000000, false, 2, List.replicate n ⟨0, 0⟩⟩
    chanMode := 1, doRefresh := false, mgr := mgr, later := mgr, last := mgr }

theorem run_silence_three : (init () : State Int Nat Unit).run silent (silence 3) = none :=
  (run_eq_none_iff silent (.nil _) ⟨by decide, by decide⟩ (by decide) (.inl rfl) (by decide)).mpr
    ⟨by decide, by decide⟩

end State

end SDRPostThread

end PiScan.Cubic

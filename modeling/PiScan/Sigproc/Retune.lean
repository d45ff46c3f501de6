import PiScan.Scan.Center
import PiScan.Sigproc.Demodulator

/-!
# One retune for a bin

When the scan enters a bin, the tuner goes to the centre of the bin, and every
entry of the bin should then be in band.  Three computations have to agree for
this: the span that `sortBins` lets into a bin, the rounded and clamped centre,
and the half-rate test of `Demodulator::setFrequency`.

* `setFrequency_cubic`: `setFrequency` leaves the tuner alone exactly where the
  half-rate test says so;
* `one_retune_iff`: a bin needs no second retune if and only if its lowest and
  highest frequencies satisfy `CenterReaches`.
-/

namespace PiScan.Sigproc

open TwosComplement Scan Scan.SystemList

/-! ## The half-rate test -/

theorem setFrequency_frequency (freq : Int) (cubic : CubicSDR) :
    (cubic.setFrequency freq).frequency = max freq (cubic.sampleRate.tdiv 2) := by
  simp only [CubicSDR.setFrequency]
  split
  · omega
  · omega

/-- After a tuner command the current modem is there. -/
theorem Demodulator.setTunerFrequency_ok {d d' : Demodulator} {freq : Int}
    (h : d.setTunerFrequency freq = .ok d') :
    d'.cubic = d.cubic.setFrequency freq ∧ ∃ demod, d'.demodMgr.currentModem = some demod := by
  unfold setTunerFrequency onCurrentModem DemodulatorMgr.getCurrentModem at h
  split at h
  · cases h
  · rename_i demod hdemod
    cases h
    exact ⟨rfl, demod, hdemod⟩

/-- `setFrequency` leaves the tuner alone exactly where the frequency is in band. -/
theorem Demodulator.setFrequency_cubic {d : Demodulator} {demod : Nat}
    (h : d.demodMgr.currentModem = some demod) (freq : Int) :
    (∃ d', d.setFrequency freq = .ok d' ∧ d'.cubic = d.cubic) ↔ d.outOfBand freq = false := by
  have hcubic : (((d.onModem demod (·.setFrequency freq)).retune freq).onModem demod
      (·.setFrequency freq)).cubic =
      if d.outOfBand freq then d.cubic.setFrequency freq else d.cubic := by
    change ((d.onModem demod (·.setFrequency freq)).retune freq).cubic = _
    unfold retune
    change (if d.outOfBand freq then _ else _ : Demodulator).cubic = _
    split <;> rfl
  rw [setFrequency_eq h]
  simp only [Except.ok.injEq, exists_eq_left', hcubic]
  cases hout : d.outOfBand freq with
  | false => simp
  | true =>
    -- a retune appends to what the SDR thread was given
    simp only [↓reduceIte, Bool.true_eq_false, iff_false]
    intro heq
    have hthread := congrArg (fun cubic => cubic.sdrThread.length) heq
    simp [CubicSDR.setFrequency] at hthread

/-! ## The centre of a bin -/

/-- The frequencies `lo` to `hi` of a bin of `n` entries are all within half of
the rate of the tuner, once it was sent to their centre. -/
def CenterReaches (rate : Int) (n : Nat) (lo hi : Int) : Prop :=
  n = 1 ∨
    (lo + hi < 2 ^ 63 ∧ (lo + hi < 2 * (rate / 2) ∨ hi - lo + 2 ≤ 2 * (rate / 2))) ∨
    (2 ^ 63 ≤ lo + hi ∧ hi < 2 * (rate / 2))

instance (rate : Int) (n : Nat) (lo hi : Int) : Decidable (CenterReaches rate n lo hi) :=
  inferInstanceAs (Decidable (_ ∨ _ ∨ _))

/-- The arithmetic of one bin: `c` is its centre as `getCenterFreq` computes it. -/
theorem centre_reaches_iff {rate lo hi c : Int} {n : Nat} (hrate : 1 < rate) (hlo : 0 < lo)
    (hle : lo ≤ hi) (hhi : hi < 2 ^ 63)
    (hc : (n = 1 ∧ lo = hi ∧ c = lo) ∨ (n ≠ 1 ∧ c = (wrap 64 (hi + lo)).tdiv 2)) :
    (max c (rate / 2) - lo < rate / 2 ∧ hi - max c (rate / 2) < rate / 2) ↔
      CenterReaches rate n lo hi := by
  unfold CenterReaches
  rcases hc with ⟨rfl, rfl, rfl⟩ | ⟨hn, rfl⟩
  · simp only [true_or, iff_true]
    omega
  · by_cases hover : lo + hi < 2 ^ 63
    · have hfits : Fits 64 (hi + lo) := ⟨by omega, by omega⟩
      rw [wrap_of_fits (by decide) hfits, Int.tdiv_eq_ediv_of_nonneg (by omega)]
      omega
    · have hneg : wrap 64 (hi + lo) = hi + lo - 2 ^ 64 :=
        wrap_of_overflow (by decide) (by omega) (by omega)
      have hc : (wrap 64 (hi + lo)).tdiv 2 ≤ 0 := by
        obtain ⟨x, hx⟩ : ∃ x, wrap 64 (hi + lo) = -x := ⟨-wrap 64 (hi + lo), by omega⟩
        rw [hx, Int.neg_tdiv, Int.tdiv_eq_ediv_of_nonneg (by omega)]
        omega
      omega

/-! ## The bins of `sortBins` -/

/-- **One retune for a bin.**  After the tuner went to the centre of a bin, no
entry of the bin retunes it again, if and only if the centre reaches the lowest
and the highest frequency of the bin. -/
theorem one_retune_iff {rate : Int} (hrate : 1 < rate) (hfits : Fits 64 rate)
    {sl sorted : SystemList} (hf : sl.Fresh)
    (hpos : ∀ p ∈ sl.allEntries, 0 < (sl.deref p).freq ∧ Fits 64 (sl.deref p).freq)
    (hsort : sl.sortBins 64 rate = .ok sorted) {b : EntryBin} (hb : b ∈ sorted.bins)
    {front back : EntryPtr} (hfront : b.entries.head? = some front)
    (hback : b.entries.getLast? = some back) {center : Int}
    (hcenter : sorted.getCenterFreq 64 b = .ok center) {d d' : Demodulator}
    (hd : d.cubic.sampleRate = rate) (htune : d.setTunerFrequency center = .ok d') :
    (∀ p ∈ b.entries, ∃ d'', d'.setFrequency (sl.deref p).freq = .ok d'' ∧
        d''.cubic = d'.cubic) ↔
      CenterReaches rate b.size (sl.deref front).freq (sl.deref back).freq := by
  obtain ⟨hbinned, hsys⟩ := binned_of_sortBins hf hsort (List.ne_nil_of_mem hb)
  have hall : sorted.allEntries = sl.allEntries := by rw [allEntries, hsys, allEntries]
  simp only [← deref_congr hsys, ← hall] at hpos ⊢
  have hmem : ∀ p ∈ b.entries, p ∈ sorted.allEntries := fun p hp => hbinned.mem_bin hb hp
  have hfrontb := List.mem_of_head? hfront
  have hbackb := List.mem_of_getLast? hback
  have hends := fun p hp => between_ends (by decide) hbinned hb
    (fun p hp => (hpos p (hmem p hp)).2) hfront hback (p := p) hp
  obtain ⟨hlo, hlofits⟩ := hpos front (hmem front hfrontb)
  obtain ⟨-, hhi⟩ := (hpos back (hmem back hbackb)).2
  have hcentre := getCenterFreq_eq (by decide) (by decide) hfront hback hlofits hcenter
  have hcfits := getCenterFreq_fits (by decide) sorted hcenter
  rw [← centre_reaches_iff hrate hlo (hends front hfrontb).2 hhi hcentre]
  -- where the tuner is
  obtain ⟨hcubic, demod, hcurrent⟩ := Demodulator.setTunerFrequency_ok htune
  have hhalf : rate.tdiv 2 = rate / 2 := Int.tdiv_eq_ediv_of_nonneg (by omega)
  have htuner : d'.cubic.frequency = max center (rate / 2) := by
    rw [hcubic, setFrequency_frequency, hd, hhalf]
  have hrate' : d'.cubic.sampleRate = rate := by
    rw [hcubic]
    exact hd
  simp only [Demodulator.setFrequency_cubic hcurrent]
  have hband : ∀ p ∈ b.entries, d'.outOfBand (sorted.deref p).freq = false ↔
      max center (rate / 2) - (sorted.deref p).freq < rate / 2 ∧
        (sorted.deref p).freq - max center (rate / 2) < rate / 2 := by
    intro p hp
    obtain ⟨hf0, -, hf1⟩ := hpos p (hmem p hp)
    obtain ⟨-, hc1⟩ := hcfits
    obtain ⟨-, hr1⟩ := hfits
    have hdiff : Fits 64 (max center (rate / 2) - (sorted.deref p).freq) := ⟨by omega, by omega⟩
    rw [Demodulator.outOfBand, htuner, hrate', hhalf, wrap_of_fits (by decide) hdiff,
      decide_eq_false_iff_not, Int.not_le, abs_lt]
    omega
  constructor
  · intro h
    have h₁ := (hband front hfrontb).mp (h front hfrontb)
    have h₂ := (hband back hbackb).mp (h back hbackb)
    exact ⟨h₁.1, h₂.2⟩
  · rintro ⟨h₁, h₂⟩ p hp
    have h := hends p hp
    exact (hband p hp).mpr ⟨by omega, by omega⟩

/-- One system with FM channels at 100 MHz and at `hi`. -/
def pair (hi : Int) : SystemList :=
  empty.addSystem ((((AnalogSystem.new "taxi" false).setSysIndex 0).addEntry
    (Entry.fmChannel 64 100000000 "base" false 0)).addEntry
    (Entry.fmChannel 64 hi "mobile" false 0))

theorem fresh_pair (hi : Int) : (pair hi).Fresh :=
  fresh_empty.addSystem
    (((AnalogSystem.addressed_new "taxi" false 0).addEntry rfl).addEntry rfl)

/-- A tuner with the rate of 2.048 MHz. -/
def tuner2048 : CubicSDR := { frequency := 100000000, sampleRate := 2048000, sdrThread := [] }

def pairBin : EntryBin := { entries := [.channel 0 0, .channel 0 1], lockedEntries := 0 }

theorem one_retune_pair :
    ∃ d', (Demodulator.start tuner2048).setTunerFrequency 101023999 = .ok d' ∧
      ∀ p ∈ pairBin.entries, ∃ d'',
        d'.setFrequency ((pair 102047998).deref p).freq = .ok d'' ∧ d''.cubic = d'.cubic := by
  have hsort : (pair 102047998).sortBins 64 2048000 =
      .ok { pair 102047998 with bins := [pairBin] } := rfl
  have hfront : pairBin.entries.head? = some (.channel 0 0) := rfl
  have hback : pairBin.entries.getLast? = some (.channel 0 1) := rfl
  have hcenter : SystemList.getCenterFreq 64 { pair 102047998 with bins := [pairBin] } pairBin =
      .ok 101023999 := rfl
  have hrate : (Demodulator.start tuner2048).cubic.sampleRate = 2048000 := rfl
  exact ⟨_, rfl, (one_retune_iff (by decide) (by decide) (fresh_pair _) (by decide) hsort
    (List.mem_singleton_self pairBin) hfront hback hcenter hrate rfl).mpr (by decide)⟩

/-- One Hertz more, the span being one less than the rate, and the highest
entry retunes. -/
theorem second_retune_pair :
    ∃ sorted d' d'', (pair 102047999).sortBins 64 2048000 = .ok sorted ∧ pairBin ∈ sorted.bins ∧
      sorted.getCenterFreq 64 pairBin = .ok 101023999 ∧
      (Demodulator.start tuner2048).setTunerFrequency 101023999 = .ok d' ∧
      d'.setFrequency ((pair 102047999).deref (.channel 0 1)).freq = .ok d'' ∧
      d''.cubic ≠ d'.cubic :=
  ⟨_, _, _, rfl, List.mem_singleton_self pairBin, rfl, rfl, rfl, by decide⟩

end PiScan.Sigproc

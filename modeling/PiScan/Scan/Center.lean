import PiScan.Scan.Partition

/-!
# The centre of a bin

`getCenterFreq` adds the lowest and the highest frequency of a bin, narrows the
sum to a `long` and halves it.

* `getCenterFreq_inside_iff`: the centre lies between the two, and the dummy
  made from it has that frequency, if and only if the bin has a single entry or
  the sum fits a `long`.
-/

namespace PiScan.Scan.SystemList

open TwosComplement

/-- `getCenterFreq` by the lowest and the highest frequency. -/
theorem getCenterFreq_eq {w : Nat} (hw : 0 < w) (hw64 : w ≤ 64) {sl : SystemList} {b : EntryBin}
    {front back : EntryPtr} {center : Int} (hfront : b.entries.head? = some front)
    (hback : b.entries.getLast? = some back) (hfits : Fits w (sl.deref front).freq)
    (h : sl.getCenterFreq w b = .ok center) :
    (b.size = 1 ∧ (sl.deref front).freq = (sl.deref back).freq ∧
        center = (sl.deref front).freq) ∨
      (b.size ≠ 1 ∧
        center = (wrap w ((sl.deref back).freq + (sl.deref front).freq)).tdiv 2) := by
  unfold getCenterFreq at h
  split at h
  · cases h
  · rename_i p hp
    simp only [hp, List.head?_cons, List.getLast?_singleton, Option.some.injEq] at hfront hback
    subst hfront hback
    refine Or.inl ⟨by simp [EntryBin.size, hp], rfl, ?_⟩
    rw [← Except.ok.inj h, wrap_of_fits hw hfits]
  · rename_i p q rest hp
    simp only [hp, List.head?_cons, Option.some.injEq] at hfront
    rw [hp, List.getLast?_cons_cons, List.getLast?_eq_some_getLast (List.cons_ne_nil q rest),
      Option.some.injEq] at hback
    subst hfront
    refine Or.inr ⟨by simp [EntryBin.size, hp], ?_⟩
    rw [← Except.ok.inj h, hback, wrap_wrap_of_ge hw64]

/-- The entries of a bin lie between its first and its last one. -/
theorem between_ends {w : Nat} (hw : 0 < w) {bandwidth : Int} {sl : SystemList}
    (h : Binned w bandwidth sl) {b : EntryBin} (hb : b ∈ sl.bins)
    (hfits : ∀ p ∈ b.entries, Fits w (sl.deref p).freq) {front back : EntryPtr}
    (hfront : b.entries.head? = some front) (hback : b.entries.getLast? = some back)
    {p : EntryPtr} (hp : p ∈ b.entries) :
    (sl.deref front).freq ≤ (sl.deref p).freq ∧ (sl.deref p).freq ≤ (sl.deref back).freq := by
  have hsorted : b.entries.Pairwise fun p q => (sl.deref p).freq ≤ (sl.deref q).freq := by
    apply (h.sorted hb).imp_of_mem
    intro p q hp hq hle
    rwa [wrap_of_fits hw (hfits p hp), wrap_of_fits hw (hfits q hq)] at hle
  constructor
  · obtain ⟨rest, hrest⟩ := List.head?_eq_some_iff.mp hfront
    rw [hrest] at hsorted hp
    rcases List.mem_cons.mp hp with rfl | hp
    · exact Int.le_refl _
    · exact (List.pairwise_cons.mp hsorted).1 p hp
  · obtain ⟨init, hinit⟩ := List.getLast?_eq_some_iff.mp hback
    rw [hinit] at hsorted hp
    rcases List.mem_append.mp hp with hp | hp
    · exact (List.pairwise_append.mp hsorted).2.2 p hp back (List.mem_singleton_self back)
    · rw [List.mem_singleton.mp hp]

/-- The centre as the retune uses it: between the ends of the bin, and the
frequency of the `DummyChannel` that is made from it. -/
def CenterInside (w : Nat) (sl : SystemList) (b : EntryBin) : Prop :=
  ∃ center, sl.getCenterFreq w b = .ok center ∧
    (∀ front ∈ b.entries.head?, (sl.deref front).freq ≤ center) ∧
    (∀ back ∈ b.entries.getLast?, center ≤ (sl.deref back).freq) ∧
    (Entry.dummyChannel w center).freq = center

/-- Half of a sum of two positive numbers, in a signed integer of `w` bits. -/
theorem half_sum_inside_iff {w : Nat} (hw : 0 < w) {lo hi : Int} (hlo : 0 < lo) (hle : lo ≤ hi)
    (hhi : Fits w hi) :
    (lo ≤ (wrap w (hi + lo)).tdiv 2 ∧ (wrap w (hi + lo)).tdiv 2 ≤ hi) ↔ Fits w (lo + hi) := by
  have hm : (2 : Int) ^ w = 2 * 2 ^ (w - 1) := by
    have hm := two_mul_half hw
    push_cast at hm
    exact hm
  have hpos : (0 : Int) < 2 ^ (w - 1) := Int.pow_pos (by omega)
  obtain ⟨-, hhi⟩ := hhi
  by_cases hover : lo + hi < 2 ^ (w - 1)
  · have hfits : Fits w (hi + lo) := ⟨by omega, by omega⟩
    have hfits' : Fits w (lo + hi) := ⟨by omega, by omega⟩
    rw [wrap_of_fits hw hfits, Int.tdiv_eq_ediv_of_nonneg (by omega)]
    simp only [hfits', iff_true]
    omega
  · -- the sum goes round to a negative number, and so does its half
    have hwrap : wrap w (hi + lo) = hi + lo - 2 ^ w := wrap_of_overflow hw (by omega) (by omega)
    obtain ⟨x, hx⟩ : ∃ x, wrap w (hi + lo) = -x := ⟨-wrap w (hi + lo), by omega⟩
    have hneg : (wrap w (hi + lo)).tdiv 2 ≤ 0 := by
      rw [hx, Int.neg_tdiv, Int.tdiv_eq_ediv_of_nonneg (by omega)]
      omega
    constructor
    · intro h
      omega
    · intro h
      exact absurd h.2 hover

/-- **The centre of a bin is inside the bin** if and only if its lowest and its
highest frequency add up to a `long`, or are the same entry. -/
theorem getCenterFreq_inside_iff {w : Nat} (hw : 0 < w) (hw64 : w ≤ 64) {bandwidth : Int}
    {sl sorted : SystemList} (hf : sl.Fresh) (hsort : sl.sortBins w bandwidth = .ok sorted)
    {b : EntryBin} (hb : b ∈ sorted.bins)
    (hpos : ∀ p ∈ b.entries, 0 < (sl.deref p).freq ∧ Fits w (sl.deref p).freq)
    {front back : EntryPtr} (hfront : b.entries.head? = some front)
    (hback : b.entries.getLast? = some back) :
    sorted.CenterInside w b ↔
      b.size = 1 ∨ Fits w ((sl.deref front).freq + (sl.deref back).freq) := by
  obtain ⟨hbinned, hsys⟩ := binned_of_sortBins hf hsort (List.ne_nil_of_mem hb)
  simp only [← deref_congr hsys] at hpos ⊢
  have hfrontb := List.mem_of_head? hfront
  have hbackb := List.mem_of_getLast? hback
  obtain ⟨hlo, hlofits⟩ := hpos front hfrontb
  obtain ⟨-, hhifits⟩ := hpos back hbackb
  have hle := (between_ends hw hbinned hb (fun p hp => (hpos p hp).2) hfront hback hfrontb).2
  obtain ⟨center, hcenter⟩ := getCenterFreq_ok w sorted (hbinned.nonempty b hb)
  have hdummy : wrap w center = center :=
    wrap_of_fits hw (getCenterFreq_fits hw sorted hcenter)
  have hinside : sorted.CenterInside w b ↔
      (sorted.deref front).freq ≤ center ∧ center ≤ (sorted.deref back).freq := by
    simp [CenterInside, hcenter, hfront, hback, hdummy]
  rw [hinside]
  rcases getCenterFreq_eq hw hw64 hfront hback hlofits hcenter with
    ⟨hsize, heq, rfl⟩ | ⟨hsize, rfl⟩
  · simp only [hsize, true_or, iff_true]
    omega
  · rw [half_sum_inside_iff hw hlo hle hhifits]
    simp [hsize]

/-- The bin of two channels. -/
def pairOfChannels : EntryBin := { entries := [.channel 0 0, .channel 0 1], lockedEntries := 0 }

theorem getCenterFreq_inside_uhf : ∃ sorted,
    (fmSystem 32 [446006250, 446093750]).sortBins 32 2048000 = .ok sorted ∧
      sorted.CenterInside 32 pairOfChannels := by
  have hsort : (fmSystem 32 [446006250, 446093750]).sortBins 32 2048000 =
      .ok { fmSystem 32 [446006250, 446093750] with bins := [pairOfChannels] } := rfl
  have hfront : pairOfChannels.entries.head? = some (.channel 0 0) := rfl
  have hback : pairOfChannels.entries.getLast? = some (.channel 0 1) := rfl
  have hiff := getCenterFreq_inside_iff (by decide) (by decide) (fresh_fmSystem 32 _) hsort
    (List.mem_singleton_self pairOfChannels) (by decide) hfront hback
  exact ⟨_, hsort, hiff.mpr (by decide)⟩

/-- On a 32-bit target the sum of two L-band frequencies overflows. -/
theorem center_outside_lband : ∃ sorted,
    (fmSystem 32 [1100000000, 1100500000]).sortBins 32 2048000 = .ok sorted ∧
      pairOfChannels ∈ sorted.bins ∧
      (∀ p ∈ pairOfChannels.entries, 0 < (sorted.deref p).freq ∧ Fits 32 (sorted.deref p).freq) ∧
      ¬sorted.CenterInside 32 pairOfChannels := by
  refine ⟨{ fmSystem 32 [1100000000, 1100500000] with bins := [pairOfChannels] }, rfl,
    List.mem_singleton_self _, by decide, ?_⟩
  rintro ⟨center, hcenter, hlow, -⟩
  obtain rfl : -1047233648 = center := Except.ok.inj hcenter
  exact absurd (hlow (.channel 0 0) rfl) (by decide)

end PiScan.Scan.SystemList

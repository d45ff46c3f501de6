import PiScan.Lib.Grouping
import PiScan.Scan.Bins

/-!
# The cut of the database into bins

`sortBins(bandwidth)` of a list that holds at least one entry, where no
frequency plus the bandwidth overflows:

* `sortBins_partition`: its bins, one after the other, are the entries of all
  systems, sorted by frequency and stably; none is empty, each spans less than
  the bandwidth, each begins at least the bandwidth above the front of the one
  before it, and each counts its locked entries;
* `sortBins_fewest`: no other way to group the frequencies by the bandwidth has
  fewer groups.
-/

namespace PiScan.Scan.SystemList

open TwosComplement

/-! ## Where a bin begins -/

/-- The first frequency of `c` is at least the front of `b` plus the bandwidth,
as the loop of `sortBins` computes the sum. -/
def BeginsAbove (sl : SystemList) (bandwidth : Int) (b c : EntryBin) : Prop :=
  ∀ p ∈ b.entries.head?, ∀ q ∈ c.entries.head?,
    wrap 64 ((sl.deref p).freq + bandwidth) ≤ (sl.deref q).freq

theorem head_push (b : EntryBin) (p : EntryPtr) (locked : Bool) {q : EntryPtr}
    (hq : b.entries.head? = some q) : (b.push p locked).entries.head? = some q := by
  simp [EntryBin.push, List.head?_append, hq]

/-- A bin is closed by an entry that is far enough above its front. -/
theorem beginsAbove_of_startsNewBin {sl : SystemList} {bandwidth : Int} {newBin c : EntryBin}
    {p : EntryPtr} (hnew : sl.startsNewBin bandwidth newBin p = true)
    (hc : c.entries.head? = some p) : sl.BeginsAbove bandwidth newBin c := by
  intro f hf q hq
  obtain rfl : p = q := by
    rw [hc] at hq
    exact Option.some.inj hq
  cases hb : newBin.entries with
  | nil => simp [hb] at hf
  | cons front rest =>
    obtain rfl : front = f := by simpa [hb] using hf
    simpa [startsNewBin, hb] using hnew

/-- **The loop of `sortBins`, bin after bin.**  The first bin of the result goes
on from `newBin`, so it keeps its front. -/
theorem fillBins_chain {sl : SystemList} {bandwidth : Int} {ps : List EntryPtr}
    {newBin : EntryBin} {bins : List EntryBin}
    (h : sl.fillBins bandwidth newBin ps = .ok bins) :
    bins.IsChain (sl.BeginsAbove bandwidth) ∧
      ∀ q, newBin.entries.head? = some q → ∀ c ∈ bins.head?, c.entries.head? = some q := by
  induction ps generalizing newBin bins with
  | nil =>
    obtain rfl : [newBin] = bins := Except.ok.inj h
    constructor
    · exact List.isChain_singleton _
    · intro q hq c hc
      obtain rfl : newBin = c := by simpa using hc
      exact hq
  | cons p ps ih =>
    simp only [fillBins] at h
    cases hlock : sl.lockedOut p with
    | error f => simp [hlock] at h
    | ok locked =>
      simp only [hlock] at h
      cases hnew : sl.startsNewBin bandwidth newBin p with
      | false =>
        simp only [hnew, Bool.false_eq_true, ↓reduceIte] at h
        obtain ⟨hchain, hhead⟩ := ih h
        refine ⟨hchain, ?_⟩
        intro q hq
        apply hhead
        exact head_push newBin p locked hq
      | true =>
        simp only [hnew, ↓reduceIte] at h
        cases hrest : sl.fillBins bandwidth (EntryBin.empty.push p locked) ps with
        | error f => simp [hrest] at h
        | ok rest =>
          obtain ⟨hchain, hhead⟩ := ih hrest
          obtain rfl : newBin :: rest = bins := by simpa [hrest] using h
          constructor
          · apply hchain.cons
            intro c hc
            exact beginsAbove_of_startsNewBin hnew (hhead p rfl c hc)
          · intro q hq c hc
            obtain rfl : newBin = c := by simpa using hc
            exact hq

/-- The bins of a fresh list are those of the loop over the sorted entries. -/
theorem fillBins_of_sortBins {w : Nat} {bandwidth : Int} {sl sorted : SystemList} (hf : sl.Fresh)
    (hsys : sl.systems ≠ []) (h : sl.sortBins w bandwidth = .ok sorted) :
    sl.fillBins bandwidth .empty (List.mergeSort sl.allEntries (sl.freqLe w)) =
      .ok sorted.bins := by
  have hsize : sl.size ≠ 0 := fun h => hsys (List.length_eq_zero_iff.mp h)
  have hsorted := mergeSort_all (sl.freqLe w) sl.allEntries
  simp only [sortBins, if_neg hsize, hsorted, hf.bins, List.nil_append] at h
  split at h
  · cases h
  · cases hfill : sl.fillBins bandwidth .empty (List.mergeSort sl.allEntries (sl.freqLe w)) with
    | error f => simp [hfill] at h
    | ok bins =>
      simp only [hfill] at h
      split at h
      · cases h
      · rw [← Except.ok.inj h]

/-! ## The sorted entries -/

section Sorted

variable {w : Nat} {sl : SystemList}

/-- Where the frequencies fit a `long`, `merge` compares them as they are. -/
theorem freqLe_iff (hw : 0 < w) {p q : EntryPtr} (hp : Fits w (sl.deref p).freq)
    (hq : Fits w (sl.deref q).freq) :
    sl.freqLe w p q = true ↔ (sl.deref p).freq ≤ (sl.deref q).freq := by
  simp only [freqLe, decide_eq_true_eq]
  rw [wrap_of_fits hw hp, wrap_of_fits hw hq]

theorem freqLe_trans (p q r : EntryPtr) (hpq : sl.freqLe w p q = true)
    (hqr : sl.freqLe w q r = true) : sl.freqLe w p r = true := by
  simp only [freqLe, decide_eq_true_eq] at hpq hqr ⊢
  omega

theorem freqLe_total (p q : EntryPtr) : (sl.freqLe w p q || sl.freqLe w q p) = true := by
  simp only [freqLe, Bool.or_eq_true, decide_eq_true_eq]
  omega

theorem mergeSort_increasing (hw : 0 < w) {xs : List EntryPtr}
    (hfits : ∀ p ∈ xs, Fits w (sl.deref p).freq) :
    (List.mergeSort xs (sl.freqLe w)).Pairwise fun p q =>
      (sl.deref p).freq ≤ (sl.deref q).freq := by
  have hsorted : (List.mergeSort xs (sl.freqLe w)).Pairwise fun p q =>
      sl.freqLe w p q = true := List.pairwise_mergeSort freqLe_trans freqLe_total _
  apply hsorted.imp_of_mem
  intro p q hp hq hle
  rw [List.mem_mergeSort] at hp hq
  exact (freqLe_iff hw (hfits p hp) (hfits q hq)).mp hle

/-- **Stability**: the entries of one frequency keep their order. -/
theorem mergeSort_stable (xs : List EntryPtr) (f : Int) :
    (List.mergeSort xs (sl.freqLe w)).filter (fun p => (sl.deref p).freq = f) =
      xs.filter fun p => (sl.deref p).freq = f := by
  have hpairwise : (xs.filter fun p => (sl.deref p).freq = f).Pairwise fun p q =>
      sl.freqLe w p q = true := by
    apply List.pairwise_of_forall_mem_list
    intro p hp q hq
    have hpf : (sl.deref p).freq = f := by simpa using (List.mem_filter.mp hp).2
    have hqf : (sl.deref q).freq = f := by simpa using (List.mem_filter.mp hq).2
    simp [freqLe, hpf, hqf]
  have hsub := List.sublist_mergeSort freqLe_trans freqLe_total hpairwise List.filter_sublist
  have hfilter := hsub.filter fun p => decide ((sl.deref p).freq = f)
  rw [List.filter_filter] at hfilter
  simp only [Bool.and_self] at hfilter
  have hperm := (List.mergeSort_perm xs (sl.freqLe w)).filter fun p =>
    decide ((sl.deref p).freq = f)
  exact (hfilter.eq_of_length hperm.length_eq.symm).symm

end Sorted

/-! ## The partition -/

/-- The bins of `sorted` cut the entries of `sl`, in the order of their
frequencies, wherever an entry is the bandwidth above the front of its bin. -/
structure Partitions (bandwidth : Int) (sl sorted : SystemList) : Prop where
  systems : sorted.systems = sl.systems
  perm : (sorted.bins.flatMap EntryBin.entries).Perm sl.allEntries
  increasing : (sorted.bins.flatMap EntryBin.entries).Pairwise fun p q =>
    (sl.deref p).freq ≤ (sl.deref q).freq
  stable : ∀ f, (sorted.bins.flatMap EntryBin.entries).filter (fun p => (sl.deref p).freq = f) =
    sl.allEntries.filter fun p => (sl.deref p).freq = f
  nonempty : ∀ b ∈ sorted.bins, b.entries ≠ []
  span : ∀ b ∈ sorted.bins, ∀ p ∈ b.entries.head?, ∀ q ∈ b.entries,
    (sl.deref q).freq < (sl.deref p).freq + bandwidth
  gap : sorted.bins.IsChain fun b c => ∀ p ∈ b.entries.head?, ∀ q ∈ c.entries.head?,
    (sl.deref p).freq + bandwidth ≤ (sl.deref q).freq
  lockedEntries : ∀ b ∈ sorted.bins, b.lockedEntries = b.entries.countP fun p => !sl.isScannable p

/-- Everything that `sortBins` promises, for a list whose sums do not overflow. -/
theorem partitions_of_sortBins {w : Nat} (hw : 0 < w) {bandwidth : Int} (hb : 0 < bandwidth)
    {sl sorted : SystemList} (hf : sl.Fresh) (hne : sl.allEntries ≠ [])
    (hfits : ∀ p ∈ sl.allEntries, Fits w (sl.deref p).freq)
    (hsum : ∀ p ∈ sl.allEntries, Fits 64 ((sl.deref p).freq + bandwidth))
    (h : sl.sortBins w bandwidth = .ok sorted) : Partitions bandwidth sl sorted := by
  have hsys : sl.systems ≠ [] := by
    intro hnil
    simp [allEntries, hnil] at hne
  obtain ⟨bins, hbins, hbinned⟩ := sortBins_binned w bandwidth hf hne
  obtain rfl := Except.ok.inj (hbins.symm.trans h)
  have hflat : bins.flatMap EntryBin.entries = List.mergeSort sl.allEntries (sl.freqLe w) :=
    hbinned.flatten
  have hmem : ∀ b ∈ bins, ∀ p ∈ b.entries, p ∈ sl.allEntries := by
    intro b hbm p hp
    exact hbinned.mem_bin hbm hp
  constructor
  case systems => rfl
  case perm =>
    rw [hflat]
    exact List.mergeSort_perm _ _
  case increasing =>
    rw [hflat]
    exact mergeSort_increasing hw hfits
  case stable =>
    rw [hflat]
    exact mergeSort_stable sl.allEntries
  case nonempty => exact hbinned.nonempty
  case span =>
    intro b hbm p hp q hq
    obtain ⟨rest, hrest⟩ := List.head?_eq_some_iff.mp hp
    have hpm := hmem b hbm p (by simp [hrest])
    rw [hrest] at hq
    rcases List.mem_cons.mp hq with rfl | hq
    · omega
    · have hlt : (sl.deref q).freq < wrap 64 ((sl.deref p).freq + bandwidth) :=
        (hbinned.binOk b hbm).span p rest hrest q hq
      rwa [wrap_of_fits (by decide) (hsum p hpm)] at hlt
  case gap =>
    have hchain := (fillBins_chain (fillBins_of_sortBins hf hsys h)).1
    apply hchain.imp_of_mem_imp
    intro b c hbm hcm habove p hp q hq
    have hpm := hmem b hbm p (List.mem_of_head? hp)
    have hle := habove p hp q hq
    rwa [wrap_of_fits (by decide) (hsum p hpm)] at hle
  case lockedEntries =>
    intro b hbm
    rw [(hbinned.binOk b hbm).count]
    congr 1

/-- **`sortBins` partitions the database.** -/
theorem sortBins_partition {w : Nat} (hw : 0 < w) {bandwidth : Int} (hb : 0 < bandwidth)
    {sl : SystemList} (hf : sl.Fresh) (hne : sl.allEntries ≠ [])
    (hfits : ∀ p ∈ sl.allEntries, Fits w (sl.deref p).freq)
    (hsum : ∀ p ∈ sl.allEntries, Fits 64 ((sl.deref p).freq + bandwidth)) :
    ∃ sorted, sl.sortBins w bandwidth = .ok sorted ∧ Partitions bandwidth sl sorted := by
  obtain ⟨bins, h, -⟩ := sortBins_binned w bandwidth hf hne
  exact ⟨_, h, partitions_of_sortBins hw hb hf hne hfits hsum h⟩

/-- An FM channel at each of the frequencies, in one system. -/
def fmSystem (w : Nat) (freqs : List Int) : SystemList :=
  empty.addSystem (freqs.foldl (fun s f => s.addEntry (Entry.fmChannel w f "car" false 0))
    ((AnalogSystem.new "taxi" false).setSysIndex 0))

theorem fresh_fmSystem (w : Nat) (freqs : List Int) : (fmSystem w freqs).Fresh := by
  apply fresh_empty.addSystem
  have h := AnalogSystem.addressed_new "taxi" false 0
  revert h
  generalize (AnalogSystem.new "taxi" false).setSysIndex 0 = s
  intro h
  induction freqs generalizing s with
  | nil => exact h
  | cons f freqs ih => exact ih _ (h.addEntry rfl)

theorem sortBins_partition_fmSystem : ∃ sorted,
    (fmSystem 64 [162400000, 160000000, 161000000]).sortBins 64 2048000 = .ok sorted ∧
      Partitions 2048000 (fmSystem 64 [162400000, 160000000, 161000000]) sorted :=
  sortBins_partition (by decide) (by decide) (fresh_fmSystem 64 _) (by decide) (by decide) (by decide)

/-! ## The fewest bins -/

/-- The frequencies of all entries. -/
def freqs (sl : SystemList) : Multiset Int :=
  (sl.allEntries.map fun p => (sl.deref p).freq : List Int)

/-- The frequencies of a bin. -/
def binFreqs (sl : SystemList) (b : EntryBin) : Multiset Int :=
  (b.entries.map fun p => (sl.deref p).freq : List Int)

/-- The groups make up `freqs`, and the frequencies of a group differ by less
than the bandwidth. -/
def Groups (bandwidth : Int) (freqs : Multiset Int) (groups : Multiset (Multiset Int)) : Prop :=
  Grouping.Groups (fun x y => y - x < bandwidth) freqs groups

/-- `front()->freq()` of a bin that has a front. -/
def frontFreq (sl : SystemList) (b : EntryBin) : Int :=
  b.entries.head?.elim 0 fun p => (sl.deref p).freq

theorem mem_binFreqs {sl : SystemList} {b : EntryBin} {x : Int} :
    x ∈ sl.binFreqs b ↔ ∃ p ∈ b.entries, (sl.deref p).freq = x := by
  simp [binFreqs]

namespace Partitions

variable {bandwidth : Int} {sl sorted : SystemList}

theorem exists_front (h : Partitions bandwidth sl sorted) {b : EntryBin} (hb : b ∈ sorted.bins) :
    ∃ p, b.entries.head? = some p ∧ sl.frontFreq b = (sl.deref p).freq := by
  obtain ⟨p, rest, hp⟩ := List.exists_cons_of_ne_nil (h.nonempty b hb)
  exact ⟨p, by simp [hp], by simp [frontFreq, hp]⟩

/-- The front of a bin is its lowest frequency. -/
theorem frontFreq_le (h : Partitions bandwidth sl sorted) {b : EntryBin} (hb : b ∈ sorted.bins)
    {q : EntryPtr} (hq : q ∈ b.entries) : sl.frontFreq b ≤ (sl.deref q).freq := by
  have hsorted := (List.pairwise_flatMap.mp h.increasing).1 b hb
  obtain ⟨p, hp, hfront⟩ := h.exists_front hb
  obtain ⟨rest, hrest⟩ := List.head?_eq_some_iff.mp hp
  rw [hrest] at hsorted hq
  rw [hfront]
  rcases List.mem_cons.mp hq with rfl | hq
  · exact Int.le_refl _
  · exact List.rel_of_pairwise_cons hsorted hq

/-- The bins are a grouping of the frequencies. -/
theorem groups (h : Partitions bandwidth sl sorted) :
    Groups bandwidth sl.freqs (sorted.bins.map sl.binFreqs : List (Multiset Int)) := by
  constructor
  case join =>
    have hmap : sorted.bins.map sl.binFreqs =
        (sorted.bins.map fun b => b.entries.map fun p => (sl.deref p).freq).map (↑) := by
      simp [binFreqs]
    rw [hmap, Multiset.coe_join, freqs, Multiset.coe_eq_coe, ← List.flatMap_def,
      ← List.map_flatMap]
    exact h.perm.map _
  case near =>
    intro g hg x hx y hy
    obtain ⟨b, hb, rfl⟩ := List.mem_map.mp (Multiset.mem_coe.mp hg)
    obtain ⟨p, hp, rfl⟩ := mem_binFreqs.mp hx
    obtain ⟨q, hq, rfl⟩ := mem_binFreqs.mp hy
    obtain ⟨front, hfront, hfreq⟩ := h.exists_front hb
    have hlow := h.frontFreq_le hb hp
    have hspan := h.span b hb front hfront q hq
    omega

/-- The fronts of the bins are the bandwidth apart. -/
theorem fronts_apart (h : Partitions bandwidth sl sorted) (hb : 0 < bandwidth) :
    (sorted.bins.map sl.frontFreq).Pairwise fun x y => ¬y - x < bandwidth := by
  have hchain : (sorted.bins.map sl.frontFreq).IsChain fun x y => x + bandwidth ≤ y := by
    rw [List.isChain_map]
    apply h.gap.imp_of_mem_imp
    intro b c hbm hcm hgap
    obtain ⟨p, hp, hpf⟩ := h.exists_front hbm
    obtain ⟨q, hq, hqf⟩ := h.exists_front hcm
    have hpq := hgap p hp q hq
    omega
  have htrans : IsTrans Int fun x y => x + bandwidth ≤ y := by
    constructor
    intro x y z hxy hyz
    omega
  apply (List.isChain_iff_pairwise.mp hchain).imp
  intro x y hxy
  omega

theorem front_mem (h : Partitions bandwidth sl sorted) {x : Int}
    (hx : x ∈ sorted.bins.map sl.frontFreq) : x ∈ sl.freqs := by
  obtain ⟨b, hb, rfl⟩ := List.mem_map.mp hx
  obtain ⟨p, hp, hfront⟩ := h.exists_front hb
  have hmem : p ∈ sl.allEntries :=
    h.perm.mem_iff.mp (List.mem_flatMap.mpr ⟨b, hb, List.mem_of_head? hp⟩)
  rw [hfront, freqs, Multiset.mem_coe]
  exact List.mem_map_of_mem hmem

end Partitions

/-- **`sortBins` is optimal**: the number of its bins is the least number of
groups that the frequencies can be split into. -/
theorem sortBins_fewest {w : Nat} (hw : 0 < w) {bandwidth : Int} (hb : 0 < bandwidth)
    {sl : SystemList} (hf : sl.Fresh) (hne : sl.allEntries ≠ [])
    (hfits : ∀ p ∈ sl.allEntries, Fits w (sl.deref p).freq)
    (hsum : ∀ p ∈ sl.allEntries, Fits 64 ((sl.deref p).freq + bandwidth)) :
    ∃ sorted, sl.sortBins w bandwidth = .ok sorted ∧
      IsLeast {n | ∃ groups, Groups bandwidth sl.freqs groups ∧ groups.card = n}
        sorted.bins.length := by
  obtain ⟨bins, hsort, -⟩ := sortBins_binned w bandwidth hf hne
  have h := partitions_of_sortBins hw hb hf hne hfits hsum hsort
  have hleast := h.groups.isLeast_card (h.fronts_apart hb) (fun x hx => h.front_mem hx) (by simp)
  rw [Multiset.coe_card, List.length_map] at hleast
  exact ⟨_, hsort, hleast⟩

theorem sortBins_fewest_fmSystem : ∃ sorted,
    (fmSystem 64 [162400000, 160000000, 161000000]).sortBins 64 2048000 = .ok sorted ∧
      IsLeast {n | ∃ groups, Groups 2048000
        (fmSystem 64 [162400000, 160000000, 161000000]).freqs groups ∧ groups.card = n}
        sorted.bins.length :=
  sortBins_fewest (by decide) (by decide) (fresh_fmSystem 64 _) (by decide) (by decide) (by decide)

end PiScan.Scan.SystemList

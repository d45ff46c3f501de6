import PiScan.Scan.SystemList

/-!
# What `sortBins` builds

For a freshly loaded list with at least one entry `sortBins` succeeds, and
(`sortBins_binned`) its bins

* hold, one after the other, the entries of all systems in the order of
  `List.mergeSort` by frequency, so each of them exactly once;
* are never empty, and span less than the bandwidth;
* count in `lockedEntries` the entries that cannot be scanned.
-/

namespace PiScan.Scan.SystemList

open TwosComplement

/-! ## Entries and their locks -/

/-- An entry that is not locked out, inside a system that is not locked out. -/
def isScannable (sl : SystemList) : EntryPtr → Bool
  | .owned _ => false
  | .channel i k =>
    match sl.systems[i]? with
    | none => false
    | some s =>
      match s.entries[k]? with
      | none => false
      | some e => !e.isLockedOut && !s.lockedOut

theorem size_of_isScannable {sl : SystemList} {p : EntryPtr} (h : sl.isScannable p = true) :
    sl.size ≠ 0 := by
  intro hzero
  have hnil : sl.systems = [] := List.eq_nil_of_length_eq_zero hzero
  cases p <;> simp [isScannable, hnil] at h

/-- The pointers to the entries that the systems own. -/
def Holds (sl : SystemList) (i k : Nat) (s : AnalogSystem) (e : Entry) : Prop :=
  sl.systems[i]? = some s ∧ s.entries[k]? = some e

theorem deref_channel {sl : SystemList} {i k : Nat} {s : AnalogSystem} {e : Entry}
    (h : sl.Holds i k s e) : sl.deref (.channel i k) = e := by
  obtain ⟨hs, he⟩ := h
  simp [deref, hs, he]

theorem isScannable_channel {sl : SystemList} {i k : Nat} {s : AnalogSystem} {e : Entry}
    (h : sl.Holds i k s e) :
    sl.isScannable (.channel i k) = (!e.isLockedOut && !s.lockedOut) := by
  obtain ⟨hs, he⟩ := h
  simp [isScannable, hs, he]

theorem lockedOut_channel {sl : SystemList} (ha : sl.Addressed) {i k : Nat} {s : AnalogSystem}
    {e : Entry} (h : sl.Holds i k s e) :
    sl.lockedOut (.channel i k) = .ok (!sl.isScannable (.channel i k)) := by
  have hsys : e.sysIndex = i := ((ha i s h.1).entries k e h.2).1
  rw [isScannable_channel h]
  simp only [lockedOut, deref_channel h, hsys, h.1]
  cases e.isLockedOut <;> simp

theorem mem_allEntries {sl : SystemList} (ha : sl.Addressed) {p : EntryPtr} :
    p ∈ sl.allEntries ↔ ∃ i k s e, p = .channel i k ∧ sl.Holds i k s e := by
  simp only [allEntries, systemEntries, List.mem_flatMap, List.mem_map, List.mem_range]
  constructor
  · rintro ⟨⟨s, i⟩, hsi, k, hk, rfl⟩
    have hs : sl.systems[i]? = some s := List.mem_zipIdx_iff_getElem?.mp hsi
    have hk' : k < s.entries.length := by
      have := (ha i s hs).numEntries
      simp only [AnalogSystem.size] at hk
      omega
    exact ⟨i, k, s, s.entries[k], rfl, hs, List.getElem?_eq_getElem hk'⟩
  · rintro ⟨i, k, s, e, rfl, hs, he⟩
    refine ⟨(s, i), List.mem_zipIdx_iff_getElem?.mpr hs, k, ?_, rfl⟩
    have hk := (List.getElem?_eq_some_iff.mp he).1
    have := (ha i s hs).numEntries
    simp only [AnalogSystem.size]
    omega

theorem lockedOut_entry {sl : SystemList} (ha : sl.Addressed) {p : EntryPtr}
    (hp : p ∈ sl.allEntries) : sl.lockedOut p = .ok (!sl.isScannable p) := by
  obtain ⟨i, k, s, e, rfl, h⟩ := (mem_allEntries ha).mp hp
  exact lockedOut_channel ha h

theorem mem_allEntries_of_scannable {sl : SystemList} (ha : sl.Addressed) {p : EntryPtr}
    (hp : sl.isScannable p = true) : p ∈ sl.allEntries := by
  cases p with
  | owned e => simp [isScannable] at hp
  | channel i k =>
    rw [mem_allEntries ha]
    cases hs : sl.systems[i]? with
    | none => simp [isScannable, hs] at hp
    | some s =>
      cases he : s.entries[k]? with
      | none => simp [isScannable, hs, he] at hp
      | some e => exact ⟨i, k, s, e, rfl, hs, he⟩

theorem nodup_allEntries (sl : SystemList) : sl.allEntries.Nodup := by
  have hinj : ∀ i, Function.Injective (EntryPtr.channel i) := by
    intro i a b h
    exact (EntryPtr.channel.inj h).2
  refine List.nodup_flatMap.mpr ⟨?_, ?_⟩
  · rintro ⟨s, i⟩ -
    exact List.nodup_range.map (hinj i)
  · -- entries of different systems differ in their first index
    have hidx : (sl.systems.zipIdx.map Prod.snd).Nodup := by
      rw [List.zipIdx_map_snd]
      exact List.nodup_range'
    refine (List.pairwise_map.mp hidx).imp ?_
    rintro ⟨s, i⟩ ⟨t, j⟩ hij p hp hq
    simp only [systemEntries, List.mem_map] at hp hq
    obtain ⟨a, -, rfl⟩ := hp
    obtain ⟨b, -, hb⟩ := hq
    exact hij (EntryPtr.channel.inj hb).1.symm

/-! What is read through the pointers depends on the systems alone. -/

theorem deref_congr {sl sl' : SystemList} (h : sl'.systems = sl.systems) (p : EntryPtr) :
    sl'.deref p = sl.deref p := by
  cases p <;> simp [deref, h]

theorem isScannable_congr {sl sl' : SystemList} (h : sl'.systems = sl.systems) (p : EntryPtr) :
    sl'.isScannable p = sl.isScannable p := by
  cases p <;> simp [isScannable, h]

theorem allEntries_congr {sl sl' : SystemList} (h : sl'.systems = sl.systems) :
    sl'.allEntries = sl.allEntries := by
  rw [allEntries, allEntries, h]

theorem getCenterFreq_congr {w : Nat} {sl sl' : SystemList} (h : sl'.systems = sl.systems)
    (b : EntryBin) : sl'.getCenterFreq w b = sl.getCenterFreq w b := by
  unfold getCenterFreq
  split <;> simp [deref_congr h]

theorem lockedOut_congr {sl sl' : SystemList} (h : sl'.systems = sl.systems) (p : EntryPtr) :
    sl'.lockedOut p = sl.lockedOut p := by
  simp [lockedOut, deref_congr h, h]

/-! ## The centre of a bin -/

theorem getCenterFreq_ok (w : Nat) (sl : SystemList) {b : EntryBin} (h : b.entries ≠ []) :
    ∃ c, sl.getCenterFreq w b = .ok c := by
  unfold getCenterFreq
  split
  · contradiction
  · exact ⟨_, rfl⟩
  · exact ⟨_, rfl⟩

theorem getCenterFreq_fits {w : Nat} (hw : 0 < w) (sl : SystemList) {b : EntryBin} {c : Int}
    (h : sl.getCenterFreq w b = .ok c) : Fits w c := by
  unfold getCenterFreq at h
  split at h
  · cases h
  · cases h
    exact wrap_fits hw _
  · cases h
    exact (wrap_fits hw _).tdiv_two

/-! ## Filling the bins -/

/-- What every bin satisfies while it is filled: its lock counter is right and
every entry after the first is less than the bandwidth above it. -/
structure BinOk (sl : SystemList) (bandwidth : Int) (b : EntryBin) : Prop where
  count : b.lockedEntries = b.entries.countP fun p => !sl.isScannable p
  span : ∀ front rest, b.entries = front :: rest → ∀ p ∈ rest,
    (sl.deref p).freq < wrap 64 ((sl.deref front).freq + bandwidth)

theorem binOk_empty (sl : SystemList) (bandwidth : Int) : sl.BinOk bandwidth .empty :=
  ⟨rfl, fun front rest h => by simp [EntryBin.empty] at h⟩

theorem BinOk.push {sl : SystemList} {bandwidth : Int} {b : EntryBin} (h : sl.BinOk bandwidth b)
    {p : EntryPtr} (hp : sl.startsNewBin bandwidth b p = false) :
    sl.BinOk bandwidth (b.push p (!sl.isScannable p)) := by
  refine ⟨?_, ?_⟩
  · cases hs : sl.isScannable p <;>
      simp [EntryBin.push, List.countP_append, h.count, hs]
  · intro front rest hr q hq
    cases hb : b.entries with
    | nil =>
      simp [EntryBin.push, hb] at hr
      obtain ⟨-, rfl⟩ := hr
      simp at hq
    | cons f r =>
      simp only [EntryBin.push, hb, List.cons_append, List.cons.injEq] at hr
      obtain ⟨rfl, rfl⟩ := hr
      rcases List.mem_append.mp hq with hq | hq
      · exact h.span f r hb q hq
      · rw [List.mem_singleton] at hq
        subst hq
        simpa [startsNewBin, hb] using hp

theorem push_ne_nil (b : EntryBin) (p : EntryPtr) (locked : Bool) :
    (b.push p locked).entries ≠ [] := by
  simp [EntryBin.push]

/-- **The loop of `sortBins`.** -/
theorem fillBins_spec (sl : SystemList) (bandwidth : Int) (newBin : EntryBin)
    (hb : sl.BinOk bandwidth newBin) (ps : List EntryPtr)
    (hps : ∀ p ∈ ps, sl.lockedOut p = .ok (!sl.isScannable p)) :
    ∃ bins, sl.fillBins bandwidth newBin ps = .ok bins ∧
      bins.flatMap EntryBin.entries = newBin.entries ++ ps ∧
      (∀ b ∈ bins, sl.BinOk bandwidth b) ∧
      (newBin.entries ≠ [] ∨ ps ≠ [] → ∀ b ∈ bins, b.entries ≠ []) := by
  induction ps generalizing newBin with
  | nil =>
    refine ⟨[newBin], rfl, by simp, ?_, ?_⟩
    · simpa using hb
    · intro h b hbm
      obtain rfl : b = newBin := by simpa using hbm
      simpa using h
  | cons p ps ih =>
    have hp := hps p (List.mem_cons_self ..)
    have hps' := fun q hq => hps q (List.mem_cons_of_mem p hq)
    cases hnew : sl.startsNewBin bandwidth newBin p with
    | true =>
      have hb' := (sl.binOk_empty bandwidth).push (p := p) rfl
      obtain ⟨bins, hf, hflat, hok, hne⟩ := ih _ hb' hps'
      refine ⟨newBin :: bins, ?_, ?_, ?_, ?_⟩
      · simp [fillBins, hp, hnew, hf]
      · simp [hflat, EntryBin.push, EntryBin.empty]
      · intro b hbm
        rcases List.mem_cons.mp hbm with rfl | hbm
        · exact hb
        · exact hok b hbm
      · intro _ b hbm
        rcases List.mem_cons.mp hbm with rfl | hbm
        · -- a bin is closed only once it has a front entry
          intro hnil
          simp [startsNewBin, hnil] at hnew
        · exact hne (Or.inl (push_ne_nil _ _ _)) b hbm
    | false =>
      obtain ⟨bins, hf, hflat, hok, hne⟩ := ih _ (hb.push hnew) hps'
      refine ⟨bins, ?_, ?_, hok, ?_⟩
      · simp [fillBins, hp, hnew, hf]
      · simp [hflat, EntryBin.push]
      · intro _
        exact hne (Or.inl (push_ne_nil _ _ _))

/-! ## The bins of a sorted list -/

/-- The list after `sortBins(bandwidth)`, with the systems it was sorted from. -/
structure Binned (w : Nat) (bandwidth : Int) (sl : SystemList) : Prop where
  addressed : sl.Addressed
  flatten : sl.bins.flatMap EntryBin.entries = List.mergeSort sl.allEntries (sl.freqLe w)
  nonempty : ∀ b ∈ sl.bins, b.entries ≠ []
  binOk : ∀ b ∈ sl.bins, sl.BinOk bandwidth b
  binNum : sl.binNum = 0
  entryNum : sl.entryNum = 0
  retune : sl.retune = true

/-- No system counts more entries than it has. -/
theorem Addressed.no_short_system {sl : SystemList} (ha : sl.Addressed) :
    (sl.systems.any fun s => decide (s.entries.length < s.size)) = false := by
  rw [List.any_eq_false]
  intro s hs hlt
  obtain ⟨i, hi⟩ := List.mem_iff_getElem?.mp hs
  have hnum := (ha i s hi).numEntries
  have hlt' : s.entries.length < s.numEntries := of_decide_eq_true hlt
  omega

/-- **`sortBins` of a fresh list with at least one entry.** -/
theorem sortBins_binned (w : Nat) (bandwidth : Int) {sl : SystemList} (hf : sl.Fresh)
    (hne : sl.allEntries ≠ []) :
    ∃ bins, sl.sortBins w bandwidth = .ok { sl with bins := bins } ∧
      Binned w bandwidth { sl with bins := bins } := by
  have hsize : sl.size ≠ 0 := by
    intro h
    have hs : sl.systems = [] := List.length_eq_zero_iff.mp h
    simp [allEntries, hs] at hne
  have hcount := hf.addressed.no_short_system
  have hsorted := mergeSort_all (sl.freqLe w) sl.allEntries
  have hlock : ∀ p ∈ List.mergeSort sl.allEntries (sl.freqLe w),
      sl.lockedOut p = .ok (!sl.isScannable p) := by
    intro p hp
    exact lockedOut_entry hf.addressed (List.mem_mergeSort.mp hp)
  have hne' : List.mergeSort sl.allEntries (sl.freqLe w) ≠ [] := by
    intro h
    have hlen : (List.mergeSort sl.allEntries (sl.freqLe w)).length = sl.allEntries.length :=
      List.length_mergeSort _
    rw [h] at hlen
    exact hne (List.length_eq_zero_iff.mp hlen.symm)
  obtain ⟨bins, hfill, hflat, hok, hnonempty⟩ :=
    fillBins_spec sl bandwidth .empty (sl.binOk_empty bandwidth) _ hlock
  have hnonempty' := hnonempty (Or.inr hne')
  have hany : ((sl.bins ++ bins).any fun b => b.entries.isEmpty) = false := by
    rw [List.any_eq_false]
    intro b hb
    rw [hf.bins, List.nil_append] at hb
    simpa using hnonempty' b hb
  refine ⟨bins, ?_, ?_⟩
  · simp only [sortBins, if_neg hsize, hcount, Bool.false_eq_true, ↓reduceIte, hsorted, hfill, hany]
    rw [hf.bins, List.nil_append]
  · exact ⟨hf.addressed, hflat, hnonempty', fun b hb =>
      ⟨(hok b hb).count, (hok b hb).span⟩, hf.binNum, hf.entryNum, hf.retune⟩

/-- **What `sortBins` accepts**: no systems at all, or at least one entry. -/
theorem sortBins_cases {w : Nat} {bandwidth : Int} {sl sorted : SystemList} (hf : sl.Fresh)
    (h : sl.sortBins w bandwidth = .ok sorted) :
    (sl.systems = [] ∧ sorted = sl) ∨
      (sl.allEntries ≠ [] ∧ Binned w bandwidth sorted ∧ sorted.systems = sl.systems) := by
  by_cases hne : sl.allEntries = []
  · refine .inl ?_
    unfold sortBins at h
    split at h
    · rename_i hsize
      exact ⟨List.length_eq_zero_iff.mp hsize, (Except.ok.inj h).symm⟩
    · split at h
      · cases h
      · -- the only bin is the empty one that the loop starts with
        simp [hne, mergeSort, fillBins, hf.bins, EntryBin.empty] at h
  · obtain ⟨bins, hsort, hbinned⟩ := sortBins_binned w bandwidth hf hne
    obtain rfl := Except.ok.inj (hsort.symm.trans h)
    exact .inr ⟨hne, hbinned, rfl⟩

/-- A list without entries has no bins after `sortBins`. -/
theorem binned_of_sortBins {w : Nat} {bandwidth : Int} {sl sorted : SystemList} (hf : sl.Fresh)
    (h : sl.sortBins w bandwidth = .ok sorted) (hbins : sorted.bins ≠ []) :
    Binned w bandwidth sorted ∧ sorted.systems = sl.systems := by
  rcases sortBins_cases hf h with ⟨-, rfl⟩ | ⟨-, hbinned, hsys⟩
  · exact absurd hf.bins hbins
  · exact ⟨hbinned, hsys⟩

theorem Binned.perm {w : Nat} {bandwidth : Int} {sl : SystemList} (h : Binned w bandwidth sl) :
    (sl.bins.flatMap EntryBin.entries).Perm sl.allEntries := by
  rw [h.flatten]
  exact List.mergeSort_perm _ _

theorem Binned.bins_ne_nil {w : Nat} {bandwidth : Int} {sl : SystemList}
    (h : Binned w bandwidth sl) (hne : sl.allEntries ≠ []) : sl.bins ≠ [] := by
  intro hnil
  have hperm := h.perm
  rw [hnil, List.flatMap_nil] at hperm
  exact hne hperm.nil_eq.symm

theorem Binned.mem_bin {w : Nat} {bandwidth : Int} {sl : SystemList} (h : Binned w bandwidth sl)
    {b : EntryBin} (hb : b ∈ sl.bins) {p : EntryPtr} (hp : p ∈ b.entries) : p ∈ sl.allEntries :=
  h.perm.mem_iff.mp (List.mem_flatMap.mpr ⟨b, hb, hp⟩)

/-- The entries of a bin are in the order of their frequencies. -/
theorem Binned.sorted {w : Nat} {bandwidth : Int} {sl : SystemList} (h : Binned w bandwidth sl)
    {b : EntryBin} (hb : b ∈ sl.bins) :
    b.entries.Pairwise fun p q => wrap w (sl.deref p).freq ≤ wrap w (sl.deref q).freq := by
  have hall : (sl.bins.flatMap EntryBin.entries).Pairwise fun p q => sl.freqLe w p q = true := by
    rw [h.flatten]
    apply List.pairwise_mergeSort
    · intro p q r hpq hqr
      simp only [freqLe, decide_eq_true_eq] at hpq hqr ⊢
      exact Int.le_trans hpq hqr
    · intro p q
      simp only [freqLe, Bool.or_eq_true, decide_eq_true_eq]
      exact Int.le_total _ _
  refine ((List.pairwise_flatMap.mp hall).1 b hb).imp ?_
  intro p q hpq
  simpa [freqLe] using hpq

/-- A bin counts as locked out exactly when nothing in it can be scanned. -/
theorem Binned.entriesLockedOut_iff {w : Nat} {bandwidth : Int} {sl : SystemList}
    (h : Binned w bandwidth sl) {b : EntryBin} (hb : b ∈ sl.bins) :
    b.entriesLockedOut = true ↔ ∀ p ∈ b.entries, sl.isScannable p = false := by
  simp [EntryBin.entriesLockedOut, EntryBin.size, (h.binOk b hb).count]

end PiScan.Scan.SystemList

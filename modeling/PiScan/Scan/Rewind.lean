import PiScan.Scan.Bounds
import PiScan.Scan.Stock

/-!
# A call that leaves the cursor at its start

`getNextEntry` moves the cursor past the entry it returns.  Right after `sortBins`
there is one entry that a single call can return and be back at the start: the last
one of the last bin, where it is the only candidate that is not locked out.

* `getEntryByIndex_none`: the indices for which there is such a call;
* `binEntry_start_iff`: the round that takes the cursor back to its start;
* `getNextEntry_start_iff`: the call that does.
-/

namespace PiScan.Scan.SystemList

open Carousel

/-- The entry that a pass over the bins takes last. -/
def lastEntry (sl : SystemList) : Option EntryPtr :=
  sl.bins.getLast?.bind fun b => b.entries.getLast?

/-- `p` is the only entry that is not locked out, no dummy gets past the lock of the first
system, and the pass over the bins ends with `p`. -/
structure OnlyLast (sl : SystemList) (p : EntryPtr) : Prop where
  last : sl.lastEntry = some p
  scannable : sl.isScannable p = true
  only : ∀ q, sl.isScannable q = true → q = p
  first : ∀ s, sl.systems[0]? = some s → s.lockedOut = true

/-- `i` is the position of a system, and `k` that of an entry in it. -/
def Names (sl : SystemList) (i k : Int) : Prop :=
  0 ≤ i ∧ 0 ≤ k ∧ ((sl.systems[i.toNat]?).bind fun s => s.entries[k.toNat]?).isSome = true

instance (sl : SystemList) (i k : Int) : Decidable (sl.Names i k) :=
  inferInstanceAs (Decidable (_ ∧ _ ∧ _))

/-- The entry that an index names. -/
def named (sl : SystemList) : List Int → Option EntryPtr
  | i :: k :: _ => if sl.Names i k then some (.channel i.toNat k.toNat) else none
  | _ => none

/-- An index that names no entry falls through to `getNextEntry`. -/
theorem getEntryByIndex_cons {sl : SystemList} (w : Nat) (ha : sl.Addressed) (i k : Int)
    (rest : List Int) :
    sl.getEntryByIndex w (i :: k :: rest) =
      if sl.Names i k then .ok (.channel i.toNat k.toNat, sl) else sl.getNextEntry w := by
  by_cases hi : i < 0 ∨ k < 0 ∨ (sl.size : Int) ≤ i
  · have hno : ¬sl.Names i k := by
      rintro ⟨hi₀, hk₀, hsome⟩
      have hsize : sl.systems.length ≤ i.toNat := by
        simp only [SystemList.size] at hi
        omega
      rw [List.getElem?_eq_none hsize] at hsome
      cases hsome
    simp only [getEntryByIndex, if_pos hi, if_neg hno]
  · have hlt : i.toNat < sl.systems.length := by
      simp only [SystemList.size] at hi
      omega
    have hget := List.getElem?_eq_getElem hlt
    have hnum := (ha i.toNat _ hget).numEntries
    have hiff : sl.Names i k ↔ ¬((sl.systems[i.toNat].entries.length : Int) ≤ k) := by
      simp only [Names, hget, Option.bind_some, isSome_getElem?]
      omega
    simp only [getEntryByIndex, if_neg hi, hget, AnalogSystem.size, hnum]
    by_cases hk : (sl.systems[i.toNat].entries.length : Int) ≤ k
    · rw [if_pos hk, if_neg (fun h => hiff.mp h hk)]
    · have hlt' : k.toNat < sl.systems[i.toNat].entries.length := by omega
      rw [if_neg hk, if_pos hlt', if_pos (hiff.mpr hk)]

theorem getEntryByIndex_some {sl : SystemList} {w : Nat} (ha : sl.Addressed) {index : List Int}
    {p : EntryPtr} (h : sl.named index = some p) : sl.getEntryByIndex w index = .ok (p, sl) := by
  rcases index with _ | ⟨i, _ | ⟨k, rest⟩⟩
  · cases h
  · cases h
  · simp only [named] at h
    rw [getEntryByIndex_cons w ha]
    split at h
    · next hnames => rw [if_pos hnames, Option.some.inj h]
    · cases h

theorem getEntryByIndex_none {sl : SystemList} {w : Nat} (ha : sl.Addressed) {index : List Int}
    (h : sl.named index = none) : sl.getEntryByIndex w index = sl.getNextEntry w := by
  rcases index with _ | ⟨i, _ | ⟨k, rest⟩⟩
  · rfl
  · rfl
  · simp only [named] at h
    rw [getEntryByIndex_cons w ha]
    split at h
    · cases h
    · next hnames => rw [if_neg hnames]

/-- The cursor is where `sortBins` leaves it. -/
def AtStart (sl : SystemList) : Prop := sl.binNum = 0 ∧ sl.entryNum = 0 ∧ sl.retune = true

theorem retune_skipBins {fuel : Nat} {sl sl' : SystemList} (h : sl.skipBins fuel = .ok sl') :
    sl'.retune = sl.retune := by
  induction fuel generalizing sl with
  | zero => cases h
  | succ fuel ih =>
    unfold skipBins at h
    split at h
    · cases h
    · split at h
      · have hsame := ih h
        exact hsame
      · rw [← Except.ok.inj h]

/-- After a dummy the cursor is in its bin. -/
theorem retune_retuneEntry {w : Nat} {sl sl' : SystemList} {p : EntryPtr}
    (h : sl.retuneEntry w = .ok (p, sl')) : sl'.retune = false := by
  unfold retuneEntry at h
  split at h
  · cases h
  · next hskip =>
    split at h
    · cases h
    · split at h
      · cases h
      · cases h
        exact retune_skipBins hskip

section Rewind

variable {w : Nat} {bandwidth : Int} {base sl sl' : SystemList} {p : EntryPtr}
  (hbase : Binned w bandwidth base)
include hbase

/-- An entry has one place in the bins. -/
theorem place_unique {i j k m : Nat} {b c : EntryBin} (hb : base.bins[i]? = some b)
    (hp : b.entries[k]? = some p) (hc : base.bins[j]? = some c) (hq : c.entries[m]? = some p) :
    i = j ∧ k = m := by
  obtain ⟨hnodup, hpair⟩ := List.nodup_flatMap.mp (nodup_bins hbase)
  have hpb := List.mem_of_getElem? hp
  have hpc := List.mem_of_getElem? hq
  obtain ⟨hi, rfl⟩ := List.getElem?_eq_some_iff.mp hb
  obtain ⟨hj, rfl⟩ := List.getElem?_eq_some_iff.mp hc
  have hij : i = j := by
    rcases Nat.lt_trichotomy i j with hlt | heq | hgt
    · exact absurd hpc (List.pairwise_iff_getElem.mp hpair i j hi hj hlt hpb)
    · exact heq
    · exact absurd hpb (List.pairwise_iff_getElem.mp hpair j i hj hi hgt hpc)
  subst hij
  refine ⟨rfl, ?_⟩
  obtain ⟨hk, hpk⟩ := List.getElem?_eq_some_iff.mp hp
  obtain ⟨hm, hpm⟩ := List.getElem?_eq_some_iff.mp hq
  exact (hnodup _ (List.getElem_mem hi)).getElem_inj_iff.mp (hpk.trans hpm.symm)

omit hbase in
theorem mod_succ_eq_zero {a n : Nat} (h : a < n) : (a + 1) % n = 0 ↔ a = n - 1 := by
  rcases Nat.lt_or_ge (a + 1) n with hlt | hge
  · rw [Nat.mod_eq_of_lt hlt]
    omega
  · obtain rfl : n = a + 1 := by omega
    simp

/-- A round in a bin takes the cursor back to its start just with the last entry. -/
theorem binEntry_start_iff (hs : Scanning base sl) (h : sl.binEntry = .ok (p, sl')) :
    sl'.AtStart ↔ base.lastEntry = some p := by
  unfold binEntry at h
  split at h
  · cases h
  · next b hb =>
    split at h
    · cases h
    · next entry hentry =>
      dsimp only at h
      have hlt : sl.entryNum < b.size := hs.entryNum b hb
      have hend : sl'.AtStart ↔ sl.entryNum = b.size - 1 ∧ sl.binNum = sl.bins.length - 1 := by
        rw [← mod_succ_eq_zero hlt, ← mod_succ_eq_zero hs.binNum]
        split at h
        · next hzero =>
          cases h
          simp [AtStart, hzero]
        · next hzero =>
          cases h
          simp [AtStart, hzero]
      obtain rfl : entry = p := by
        split at h <;> cases h <;> rfl
      rw [hend]
      rw [hs.bins] at hb ⊢
      constructor
      · rintro ⟨hk, hi⟩
        rw [hi] at hb
        rw [hk] at hentry
        rw [lastEntry, List.getLast?_eq_getElem?, hb, Option.bind_some, List.getLast?_eq_getElem?]
        exact hentry
      · intro hlast
        rw [lastEntry, List.getLast?_eq_getElem?] at hlast
        obtain ⟨c, hc, hq⟩ := Option.bind_eq_some_iff.mp hlast
        rw [List.getLast?_eq_getElem?] at hq
        obtain ⟨hi, hk⟩ := place_unique hbase hb hentry hc hq
        rw [hi] at hb
        obtain rfl := Option.some.inj (hb.symm.trans hc)
        exact ⟨hk, hi⟩

/-- A call that returns has ended with a round that left the cursor where it is. -/
theorem getNextEntry_last (hscan : ∃ q, base.isScannable q = true)
    (h : base.getNextEntry w = .ok (p, sl')) :
    ∃ sl, Scanning base sl ∧ sl.nextCandidate w = .ok (p, sl') := by
  have hbody : ∀ s x t, Scanning base s → nextCandidate w s = .ok (x, t) → Scanning base t := by
    intro s x t hs hx
    obtain ⟨q, hq⟩ := hscan
    have hmem : q ∈ ring w base s := (ring_perm hs).mem_iff.mpr (scannable_candidate hbase hq)
    obtain ⟨y, ys, hring⟩ := List.exists_cons_of_ne_nil (List.ne_nil_of_mem hmem)
    obtain ⟨s', hs', hgood, -⟩ := (turns_nextCandidate hbase).turn s y ys hs hring
    rw [hx] at hs'
    cases hs'
    exact hgood
  obtain ⟨sl, hs, hlast, -⟩ := doWhile_last hbody (scanning_start hbase hscan) h
  exact ⟨sl, hs, hlast⟩

/-- What the round of a call that returns an entry has done. -/
theorem binEntry_of_nextCandidate (h : sl.nextCandidate w = .ok (p, sl'))
    (hp : p ∈ base.allEntries) : sl.binEntry = .ok (p, sl') := by
  unfold nextCandidate at h
  split at h
  · have hdummy : (base.deref p).isDummy = true := by
      unfold retuneEntry at h
      split at h
      · cases h
      · split at h
        · cases h
        · split at h
          · cases h
          · cases h
            rfl
    rw [not_dummy_entry hbase hp] at hdummy
    cases hdummy
  · exact h

omit hbase in
/-- A round that ends at the start has returned an entry of a bin. -/
theorem binEntry_of_atStart (h : sl.nextCandidate w = .ok (p, sl')) (hstart : sl'.AtStart) :
    sl.binEntry = .ok (p, sl') := by
  unfold nextCandidate at h
  split at h
  · have hretune : sl'.retune = false := retune_retuneEntry h
    rw [hstart.2.2] at hretune
    cases hretune
  · exact h

omit hbase in
theorem Scanning.eq_of_atStart (hs : Scanning base sl) (hbase : base.AtStart)
    (h : sl.AtStart) : sl = base := by
  obtain ⟨hsys, hbins, -⟩ := hs
  obtain ⟨hbin, hentry, hretune⟩ := h
  obtain ⟨hbin', hentry', hretune'⟩ := hbase
  cases sl
  cases base
  simp_all

omit hbase in
/-- The last entry is in the last bin. -/
theorem last_bin (hlast : base.lastEntry = some p) :
    ∃ bs b es, base.bins = bs ++ [b] ∧ b.entries = es ++ [p] := by
  obtain ⟨b, hb, hbp⟩ := Option.bind_eq_some_iff.mp hlast
  obtain ⟨bs, hbins⟩ := List.getLast?_eq_some_iff.mp hb
  obtain ⟨es, hes⟩ := List.getLast?_eq_some_iff.mp hbp
  exact ⟨bs, b, es, hbins, hes⟩

/-- The candidates end with those of the last bin. -/
theorem candidates_last (hp : base.isScannable p = true) {bs : List EntryBin} {b : EntryBin}
    {es : List EntryPtr} (hbins : base.bins = bs ++ [b]) (hes : b.entries = es ++ [p]) :
    base.bins.flatMap (base.candidates w) =
      bs.flatMap (base.candidates w) ++ base.retuneOf w b :: es ++ [p] := by
  have hopen : b.entriesLockedOut = false := by
    by_contra h
    rw [Bool.not_eq_false, hbase.entriesLockedOut_iff (by simp [hbins])] at h
    rw [h p (by simp [hes])] at hp
    cases hp
  have hcand : base.candidates w b = base.retuneOf w b :: es ++ [p] := by
    rw [candidates, hopen, hes]
    rfl
  rw [hbins, List.flatMap_append, List.flatMap_singleton, hcand]
  simp

theorem visible_scannable (hp : base.isScannable p = true) : base.visible p = true := by
  rw [visible_entry hbase (mem_allEntries_of_scannable hbase.addressed hp), hp]

/-- The candidates that are not locked out end with the last entry, if it is one. -/
theorem view_last (hlast : base.lastEntry = some p) (hp : base.isScannable p = true) :
    ∃ F, view w base base = F ++ [p] := by
  obtain ⟨bs, b, es, hbins, hes⟩ := last_bin hlast
  refine ⟨(bs.flatMap (base.candidates w) ++ base.retuneOf w b :: es).filter base.visible, ?_⟩
  rw [view_start hbase ⟨p, hp⟩, candidates_last hbase hp hbins hes, List.filter_append,
    List.filter_singleton, visible_scannable hbase hp]
  rfl

/-- It is among them once. -/
theorem not_mem_of_view {F : List EntryPtr} (hp : base.isScannable p = true)
    (hview : view w base base = F ++ [p]) : p ∉ F := by
  have hreal := not_dummy_entry hbase (mem_allEntries_of_scannable hbase.addressed hp)
  have horder := nonDummies_view (w := w) hbase ⟨p, hp⟩
  have hnodup : (nonDummies base (F ++ [p])).Nodup := by
    rw [← hview, horder]
    exact (nodup_bins hbase).filter _
  rw [nonDummies, List.filter_append, List.filter_singleton, hreal] at hnodup
  intro hmem
  exact (List.nodup_append.mp hnodup).2.2 p (List.mem_filter.mpr ⟨hmem, by simp [hreal]⟩) p
    (List.mem_singleton_self p) rfl

theorem OnlyLast.view (h : base.OnlyLast p) : SystemList.view w base base = [p] := by
  obtain ⟨F, hF⟩ := view_last (w := w) hbase h.last h.scannable
  have hscan : ∃ q, base.isScannable q = true := ⟨p, h.scannable⟩
  have hs : Scanning base base := scanning_start hbase hscan
  have hall : ∀ q ∈ SystemList.view w base base, q = p := by
    intro q hq
    obtain ⟨hring, hvis⟩ := List.mem_filter.mp hq
    rcases mem_candidates hbase ((ring_perm hs).mem_iff.mp hring) with ⟨b, hb, rfl⟩ | hmem
    · -- there is a first system, and it locks the dummies
      have hne := systems_ne_nil
        (List.ne_nil_of_mem (mem_allEntries_of_scannable hbase.addressed h.scannable))
      obtain ⟨s₀, rest, hsys⟩ := List.exists_cons_of_ne_nil hne
      have h₀ : base.systems[0]? = some s₀ := by rw [hsys]; rfl
      have hreal := view_locked hbase h₀ (h.first s₀ h₀) hq hs
      rw [isDummy_retuneOf] at hreal
      cases hreal
    · rw [visible_entry hbase hmem] at hvis
      exact h.only q hvis
  have hnone : F = [] := by
    refine List.eq_nil_iff_forall_not_mem.mpr fun q hq => ?_
    obtain rfl := hall q (hF ▸ List.mem_append_left _ hq)
    exact not_mem_of_view hbase h.scannable hF hq
  rw [hF, hnone, List.nil_append]

/-- The only candidate that is not locked out. -/
theorem onlyLast_of_view (hlast : base.lastEntry = some p) (hp : base.isScannable p = true)
    (hview : view w base base = [p]) : base.OnlyLast p := by
  have hscan : ∃ q, base.isScannable q = true := ⟨p, hp⟩
  have hmem : ∀ q ∈ base.bins.flatMap (base.candidates w), base.visible q = true → q = p := by
    intro q hq hvis
    have hin : q ∈ view w base base := by
      rw [view_start hbase hscan]
      exact List.mem_filter.mpr ⟨hq, hvis⟩
    rw [hview] at hin
    exact List.mem_singleton.mp hin
  refine ⟨hlast, hp, fun q hq => ?_, fun s hs => ?_⟩
  · exact hmem q (scannable_candidate hbase hq) (visible_scannable hbase hq)
  · by_contra hlocked
    have hopen : s.lockedOut = false := by simpa using hlocked
    obtain ⟨bs, b, es, hbins, hes⟩ := last_bin hlast
    have hdummy : base.retuneOf w b = p := by
      refine hmem _ ?_ ?_
      · rw [candidates_last hbase hp hbins hes]
        simp
      · simp [visible, lockedOut_retuneOf hs b, hopen]
    have hreal := not_dummy_entry hbase (mem_allEntries_of_scannable hbase.addressed hp)
    rw [← hdummy, isDummy_retuneOf] at hreal
    cases hreal

/-- **A single call** leaves the cursor at its start just where only the last entry is not
locked out. -/
theorem getNextEntry_start_iff (hne : base.allEntries ≠ []) :
    base.getNextEntry w = .ok (p, base) ↔ base.OnlyLast p := by
  have hstart : base.AtStart := ⟨hbase.binNum, hbase.entryNum, hbase.retune⟩
  constructor
  · intro h
    have hscan : ∃ q, base.isScannable q = true := by
      by_contra hno
      rw [getNextEntry_locked hbase hne hno] at h
      cases h
    obtain ⟨sl, hs, hround⟩ := getNextEntry_last hbase hscan h
    have hlast : base.lastEntry = some p :=
      (binEntry_start_iff hbase hs (binEntry_of_atStart hround hstart)).mp hstart
    obtain ⟨q, V, sl', hview, hok, -, -⟩ :=
      getNextEntry_ring hbase hscan (scanning_start hbase hscan)
    obtain ⟨rfl, -⟩ := Prod.mk.inj (Except.ok.inj (hok.symm.trans h))
    have hp : base.isScannable q = true := by
      obtain ⟨bs, b, es, hbins, hes⟩ := last_bin hlast
      have hmem := hbase.mem_bin (b := b) (by simp [hbins]) (p := q) (by simp [hes])
      have hin : q ∈ view w base base := by
        rw [hview]
        exact List.mem_cons_self ..
      rw [← visible_entry hbase hmem]
      exact (List.mem_filter.mp hin).2
    obtain ⟨F, hF⟩ := view_last (w := w) hbase hlast hp
    have hnone : F = [] := by
      cases F with
      | nil => rfl
      | cons f F =>
        rw [hF] at hview
        obtain ⟨rfl, -⟩ := List.cons.inj hview
        exact absurd (List.mem_cons_self ..) (not_mem_of_view hbase hp hF)
    exact onlyLast_of_view hbase hlast hp (by rw [hF, hnone, List.nil_append])
  · intro h
    have hscan : ∃ q, base.isScannable q = true := ⟨p, h.scannable⟩
    obtain ⟨q, V, sl', hview, hok, hs', -⟩ :=
      getNextEntry_ring hbase hscan (scanning_start hbase hscan)
    rw [h.view hbase] at hview
    obtain ⟨rfl, -⟩ := List.cons.inj hview
    obtain ⟨sl, hs, hround⟩ := getNextEntry_last hbase hscan hok
    have hmem := mem_allEntries_of_scannable hbase.addressed h.scannable
    have hback : sl'.AtStart :=
      (binEntry_start_iff hbase hs (binEntry_of_nextCandidate hbase hround hmem)).mpr h.last
    rw [hok, hs'.eq_of_atStart hstart hback]

end Rewind

end PiScan.Scan.SystemList

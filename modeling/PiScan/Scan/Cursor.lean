import PiScan.Scan.Bins

/-!
# The walk of the scan cursor

A cursor state is read as a ring of candidates: what is left of the bin under
the cursor, the bins after it, the bins before it, and what the cursor has
already passed of its own bin.  A bin whose entries are all locked out has
nothing in the ring; every other bin has its retune dummy and its entries.

`turns_nextCandidate`: one round of the loop of `getNextEntry` hands out the
head of the ring and moves it to the back.
-/

namespace PiScan.Scan.SystemList

open TwosComplement Carousel

/-! ## The ring of candidates -/

/-- The dummy that `getNextEntry` makes for the bin `b`. -/
def retuneOf (w : Nat) (sl : SystemList) (b : EntryBin) : EntryPtr :=
  match sl.getCenterFreq w b with
  | .ok center => .owned (Entry.dummyChannel w center)
  | .error _ => .owned (Entry.dummyChannel w 0)

/-- The candidates of one pass over a bin. -/
def candidates (w : Nat) (sl : SystemList) (b : EntryBin) : List EntryPtr :=
  if b.entriesLockedOut then [] else sl.retuneOf w b :: b.entries

/-- The ring of the cursor of `sl`, over the candidates of the list `base`. -/
def ring (w : Nat) (base sl : SystemList) : List EntryPtr :=
  match sl.bins.rotate sl.binNum with
  | [] => []
  | b :: rest =>
    if sl.retune then (b :: rest).flatMap (base.candidates w)
    else (base.candidates w b).drop (sl.entryNum + 1) ++ rest.flatMap (base.candidates w) ++
      (base.candidates w b).take (sl.entryNum + 1)

/-- The cursor is on an entry of a bin; inside a bin, or after its dummy, the
bin is not locked out. -/
structure Scanning (base sl : SystemList) : Prop where
  systems : sl.systems = base.systems
  bins : sl.bins = base.bins
  binNum : sl.binNum < sl.bins.length
  entryNum : ∀ b, sl.bins[sl.binNum]? = some b → sl.entryNum < b.size
  retune : sl.entryNum ≠ 0 → sl.retune = false
  inside : sl.retune = false → ∀ b, sl.bins[sl.binNum]? = some b → b.entriesLockedOut = false

/-- The bins from the cursor on, in cyclic order. -/
theorem rotate_bins (bins : List EntryBin) {n : Nat} (h : n < bins.length) :
    ∃ b rest, bins[n]? = some b ∧ bins.rotate n = b :: rest ∧
      bins.rotate ((n + 1) % bins.length) = rest ++ [b] := by
  have hr : bins.rotate n = bins[n] :: (bins.drop (n + 1) ++ bins.take n) := by
    rw [List.rotate_eq_drop_append_take (Nat.le_of_lt h), List.drop_eq_getElem_cons h,
      List.cons_append]
  refine ⟨bins[n], bins.drop (n + 1) ++ bins.take n, List.getElem?_eq_getElem h, hr, ?_⟩
  rw [List.rotate_mod, ← List.rotate_rotate, hr, List.rotate_cons_succ, List.rotate_zero]

theorem ring_start {w : Nat} {base sl : SystemList} {b : EntryBin} {rest : List EntryBin}
    (h : sl.bins.rotate sl.binNum = b :: rest) (hr : sl.retune = true) :
    ring w base sl = (b :: rest).flatMap (base.candidates w) := by
  simp only [ring, h, if_pos hr]

theorem ring_inside {w : Nat} {base : SystemList} (sl : SystemList) {b : EntryBin}
    {rest : List EntryBin} (h : sl.bins.rotate sl.binNum = b :: rest) (hr : sl.retune = false) :
    ring w base sl = (base.candidates w b).drop (sl.entryNum + 1) ++
      rest.flatMap (base.candidates w) ++ (base.candidates w b).take (sl.entryNum + 1) := by
  simp only [ring, h, hr, Bool.false_eq_true, ↓reduceIte]

/-! ## One round of the loop -/

/-- The skip loop leaves the locked bins behind and stops at the next one that
is not locked. -/
theorem skipBins_spec (fuel : Nat) (sl : SystemList) (hid rest : List EntryBin) (b : EntryBin)
    (hn : sl.binNum < sl.bins.length) (hr : sl.bins.rotate sl.binNum = hid ++ b :: rest)
    (hhid : ∀ x ∈ hid, x.entriesLockedOut = true) (hb : b.entriesLockedOut = false)
    (hf : hid.length < fuel) :
    ∃ n, sl.skipBins fuel = .ok { sl with binNum := n } ∧ n < sl.bins.length ∧
      sl.bins.rotate n = b :: rest ++ hid := by
  induction hid generalizing sl rest fuel with
  | nil =>
    obtain ⟨f, rfl⟩ := Nat.exists_eq_succ_of_ne_zero (Nat.ne_of_gt hf)
    obtain ⟨c, rest', hc, hrot, -⟩ := rotate_bins sl.bins hn
    rw [hrot] at hr
    obtain ⟨rfl, rfl⟩ := List.cons.inj hr
    refine ⟨sl.binNum, ?_, hn, by simpa using hrot⟩
    simp [skipBins, hc, hb]
  | cons x hid ih =>
    obtain ⟨f, rfl⟩ := Nat.exists_eq_succ_of_ne_zero
      (Nat.ne_of_gt (Nat.lt_of_le_of_lt (Nat.zero_le _) hf))
    obtain ⟨c, rest', hc, hrot, hrot'⟩ := rotate_bins sl.bins hn
    rw [hrot] at hr
    obtain ⟨rfl, rfl⟩ := List.cons.inj hr
    have hlen : 0 < sl.bins.length := Nat.lt_of_le_of_lt (Nat.zero_le _) hn
    obtain ⟨n, hs, hlt, hrn⟩ := ih f { sl with binNum := (sl.binNum + 1) % sl.bins.length }
      (rest ++ [c]) (Nat.mod_lt _ hlen) (by simpa using hrot')
      (fun y hy => hhid y (List.mem_cons_of_mem _ hy)) (by simpa using hf)
    refine ⟨n, ?_, hlt, by simpa using hrn⟩
    simp [skipBins, hc, hhid c (List.mem_cons_self ..), hs]

/-- A list of bins that has candidates has a first bin that is not locked. -/
theorem first_unlocked {w : Nat} {sl : SystemList} (bins : List EntryBin)
    (h : bins.flatMap (sl.candidates w) ≠ []) :
    ∃ hid b rest, bins = hid ++ b :: rest ∧ (∀ x ∈ hid, x.entriesLockedOut = true) ∧
      b.entriesLockedOut = false := by
  induction bins with
  | nil => simp at h
  | cons c bins ih =>
    cases hc : c.entriesLockedOut with
    | false => exact ⟨[], c, bins, rfl, by simp, hc⟩
    | true =>
      obtain ⟨hid, b, rest, rfl, hhid, hb⟩ := ih (by simpa [candidates, hc] using h)
      refine ⟨c :: hid, b, rest, rfl, ?_, hb⟩
      intro x hx
      rcases List.mem_cons.mp hx with rfl | hx
      · exact hc
      · exact hhid x hx

theorem flatMap_candidates_locked (w : Nat) (sl : SystemList) (bins : List EntryBin)
    (h : ∀ x ∈ bins, x.entriesLockedOut = true) : bins.flatMap (sl.candidates w) = [] := by
  rw [List.flatMap_eq_nil_iff]
  intro x hx
  simp [candidates, h x hx]

section Turn

variable {w : Nat} {bandwidth : Int} {base : SystemList} (hbase : Binned w bandwidth base)
include hbase

theorem Scanning.nonempty {sl : SystemList} (hs : Scanning base sl) {n : Nat} {b : EntryBin}
    (h : sl.bins[n]? = some b) : b.entries ≠ [] := by
  apply hbase.nonempty b
  rw [← hs.bins]
  exact List.mem_of_getElem? h

/-- At the start of a bin, the round returns the dummy of the next bin that is
not locked out. -/
theorem retuneEntry_turn {sl : SystemList} (hs : Scanning base sl) (hret : sl.retune = true)
    {x : EntryPtr} {ys : List EntryPtr} (hring : ring w base sl = x :: ys) :
    ∃ sl', sl.retuneEntry w = .ok (x, sl') ∧ Scanning base sl' ∧
      ring w base sl' = ys ++ [x] := by
  have he : sl.entryNum = 0 := by
    by_contra h
    rw [hs.retune h] at hret
    cases hret
  obtain ⟨c, rest₀, -, hrot₀, -⟩ := rotate_bins sl.bins hs.binNum
  rw [ring_start hrot₀ hret] at hring
  obtain ⟨hid, b, rest, hsplit, hhid, hb⟩ :=
    first_unlocked (c :: rest₀) (by rw [hring]; exact List.cons_ne_nil _ _)
  rw [hsplit] at hrot₀ hring
  have hfuel : hid.length < sl.bins.length + 1 := by
    have := congrArg List.length hrot₀
    rw [List.length_rotate, List.length_append, List.length_cons] at this
    omega
  obtain ⟨n, hskip, hn, hrot⟩ :=
    skipBins_spec (sl.bins.length + 1) { sl with retune := false } hid rest b
    hs.binNum hrot₀ hhid hb hfuel
  have hget : sl.bins[n]? = some b := by
    obtain ⟨b', rest', hget, hrot', -⟩ := rotate_bins sl.bins hn
    rw [(List.cons.inj (hrot'.symm.trans hrot)).1] at hget
    exact hget
  have hne := hs.nonempty hbase hget
  obtain ⟨center, hcenter⟩ := getCenterFreq_ok w sl hne
  have hcenter₀ : base.getCenterFreq w b = .ok center := by
    rw [← getCenterFreq_congr hs.systems, hcenter]
  -- the head of the ring is the dummy of `b`
  have hcand : base.candidates w b = .owned (Entry.dummyChannel w center) :: b.entries := by
    simp [candidates, hb, retuneOf, hcenter₀]
  have hhid' := flatMap_candidates_locked w base hid hhid
  rw [List.flatMap_append, hhid', List.nil_append, List.flatMap_cons, hcand,
    List.cons_append] at hring
  obtain ⟨rfl, rfl⟩ := List.cons.inj hring
  refine ⟨{ sl with binNum := n, retune := false }, ?_, ?_, ?_⟩
  · have hcenter' : getCenterFreq w { sl with binNum := n, retune := false } b = .ok center :=
      hcenter
    simp [retuneEntry, hskip, hget, hcenter']
  · refine ⟨hs.systems, hs.bins, hn, ?_, fun _ => rfl, ?_⟩
    · intro d hd
      obtain rfl : b = d := Option.some.inj (hget.symm.trans hd)
      simp only [he]
      exact List.length_pos_of_ne_nil hne
    · intro _ d hd
      obtain rfl : b = d := Option.some.inj (hget.symm.trans hd)
      exact hb
  · rw [ring_inside { sl with binNum := n, retune := false } hrot rfl]
    simp [hcand, he, hhid']

/-- Inside a bin, the round returns the entry under the cursor. -/
theorem binEntry_turn {sl : SystemList} (hs : Scanning base sl) (hret : sl.retune = false)
    {x : EntryPtr} {ys : List EntryPtr} (hring : ring w base sl = x :: ys) :
    ∃ sl', sl.binEntry = .ok (x, sl') ∧ Scanning base sl' ∧ ring w base sl' = ys ++ [x] := by
  obtain ⟨b, rest, hget, hrot, hrot'⟩ := rotate_bins sl.bins hs.binNum
  have hlt : sl.entryNum < b.entries.length := hs.entryNum b hget
  have hcand : base.candidates w b = base.retuneOf w b :: b.entries := by
    simp [candidates, hs.inside hret b hget]
  have hentry : b.entries[sl.entryNum]? = some (b.entries[sl.entryNum]) :=
    List.getElem?_eq_getElem hlt
  rw [ring_inside sl hrot hret, hcand, List.drop_succ_cons, List.take_succ_cons,
    List.drop_eq_getElem_cons hlt, List.cons_append, List.cons_append] at hring
  obtain ⟨rfl, rfl⟩ := List.cons.inj hring
  have hpos : 0 < sl.bins.length := Nat.lt_of_le_of_lt (Nat.zero_le _) hs.binNum
  have htake : b.entries.take sl.entryNum ++ [b.entries[sl.entryNum]] =
      b.entries.take (sl.entryNum + 1) := List.take_append_getElem hlt
  by_cases hlast : sl.entryNum + 1 = b.entries.length
  · -- the last entry of the bin: the cursor moves to the next bin
    have hmod : (sl.entryNum + 1) % b.size = 0 := by
      simp only [EntryBin.size, hlast, Nat.mod_self]
    refine ⟨{ sl with entryNum := 0, binNum := (sl.binNum + 1) % sl.bins.length, retune := true },
      ?_, ⟨hs.systems, hs.bins, Nat.mod_lt _ hpos, ?_, by simp, by simp⟩, ?_⟩
    · simp [binEntry, hget, hentry, hmod]
    · intro d hd
      exact List.length_pos_of_ne_nil (hs.nonempty hbase hd)
    · obtain ⟨c, rest', hc⟩ : ∃ c rest', rest ++ [b] = c :: rest' := by
        cases rest with
        | nil => exact ⟨b, [], rfl⟩
        | cons c rest => exact ⟨c, rest ++ [b], rfl⟩
      rw [ring_start (hrot'.trans hc) rfl, ← hc, List.flatMap_append, List.flatMap_singleton, hcand,
        List.drop_eq_nil_of_le (Nat.le_of_eq hlast.symm), List.nil_append, List.append_assoc,
        List.cons_append, htake, hlast, List.take_length]
  · -- the cursor moves on inside the bin
    have hmod : (sl.entryNum + 1) % b.size = sl.entryNum + 1 := by
      apply Nat.mod_eq_of_lt
      simp only [EntryBin.size]
      omega
    refine ⟨{ sl with entryNum := sl.entryNum + 1 }, ?_,
      ⟨hs.systems, hs.bins, hs.binNum, ?_, fun _ => hret, hs.inside⟩, ?_⟩
    · simp [binEntry, hget, hentry, hmod]
    · intro d hd
      obtain rfl : b = d := Option.some.inj (hget.symm.trans hd)
      simp only [EntryBin.size]
      omega
    · rw [ring_inside { sl with entryNum := sl.entryNum + 1 } hrot hret, hcand,
        List.drop_succ_cons, List.take_succ_cons, List.append_assoc, List.append_assoc,
        List.append_assoc, List.cons_append, htake]

/-- **One round.** -/
theorem turns_nextCandidate : Turns (Scanning base) (ring w base) (nextCandidate w) := by
  refine ⟨fun sl x ys hs hring => ?_⟩
  cases hret : sl.retune with
  | true =>
    have he : sl.entryNum = 0 := by
      by_contra h
      rw [hs.retune h] at hret
      cases hret
    obtain ⟨sl', hok, hs', hr'⟩ := retuneEntry_turn hbase hs hret hring
    exact ⟨sl', by simp [nextCandidate, he, hret, hok], hs', hr'⟩
  | false =>
    obtain ⟨sl', hok, hs', hr'⟩ := binEntry_turn hbase hs hret hring
    exact ⟨sl', by simp [nextCandidate, hret, hok], hs', hr'⟩

end Turn

end PiScan.Scan.SystemList

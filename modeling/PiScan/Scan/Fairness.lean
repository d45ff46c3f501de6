import Mathlib.Data.List.Pairwise
import PiScan.Scan.Cursor

/-!
# Scanning is complete and fair

The results of `getNextEntry` over any number of calls after `sortBins`.

* `getNextEntry_ring`: every call terminates and returns the first candidate
  of the ring that is not locked out;
* `getNextEntry_complete`: as many consecutive results as there are unlocked
  entries, dummies aside, are all of them, each once, in the cyclic order of
  the bins;
* `retune_before_bin_iff`: each pass over a bin is preceded by the dummy of
  that bin exactly when the first system is not locked out, because the dummy
  carries system index 0 through the lockout filter.
-/

namespace PiScan.Scan.SystemList

open TwosComplement Carousel

/-- What the `while` condition of `getNextEntry` lets through. -/
def visible (sl : SystemList) (p : EntryPtr) : Bool :=
  match sl.lockedOut p with
  | .ok locked => !locked
  | .error _ => false

/-- The unlocked entries, in the order of the concatenated bins. -/
def scanOrder (sl : SystemList) : List EntryPtr :=
  (sl.bins.flatMap EntryBin.entries).filter sl.isScannable

/-- The results that are not retune dummies. -/
def nonDummies (sl : SystemList) (ps : List EntryPtr) : List EntryPtr :=
  ps.filter fun p => !(sl.deref p).isDummy

/-- A window of results that scans the database once: the unlocked entries,
each once, in the cyclic order of the concatenated bins. -/
structure FullRound (sl : SystemList) (window : List EntryPtr) : Prop where
  cyclic : ∃ k, window = (scanOrder sl).rotate k
  once : window.Nodup
  complete : ∀ p, p ∈ window ↔ sl.isScannable p = true

/-! ## The candidates and their locks -/

section Ring

variable {w : Nat} {base : SystemList}

theorem ring_perm {sl : SystemList} (hs : Scanning base sl) :
    (ring w base sl).Perm (base.bins.flatMap (base.candidates w)) := by
  obtain ⟨b, rest, -, hrot, -⟩ := rotate_bins sl.bins hs.binNum
  have hbins : ((b :: rest).flatMap (base.candidates w)).Perm
      (base.bins.flatMap (base.candidates w)) := by
    rw [← hrot, ← hs.bins]
    exact (List.rotate_perm _ _).flatMap_right _
  refine List.Perm.trans ?_ hbins
  cases hret : sl.retune with
  | true => rw [ring_start hrot hret]
  | false =>
    rw [ring_inside sl hrot hret, List.flatMap_cons]
    refine List.perm_append_comm.trans ?_
    rw [← List.append_assoc, List.take_append_drop]

theorem candidates_length_le (bs : List EntryBin) :
    (bs.flatMap (base.candidates w)).length ≤ (bs.map fun b => b.size + 1).sum := by
  induction bs with
  | nil => simp
  | cons b bs ih =>
    have hb : (base.candidates w b).length ≤ b.size + 1 := by
      unfold candidates
      split <;> simp [EntryBin.size]
    simp only [List.flatMap_cons, List.length_append, List.map_cons, List.sum_cons]
    omega

theorem ring_length_le {sl : SystemList} (hs : Scanning base sl) :
    (ring w base sl).length ≤ sl.rounds := by
  rw [(ring_perm hs).length_eq, rounds, hs.bins]
  exact (candidates_length_le base.bins).trans (Nat.le_succ _)

theorem systems_ne_nil (h : base.allEntries ≠ []) : base.systems ≠ [] := by
  intro hs
  simp [allEntries, hs] at h

theorem isDummy_retuneOf (sl : SystemList) (b : EntryBin) :
    (sl.deref (sl.retuneOf w b)).isDummy = true := by
  unfold retuneOf
  split <;> rfl

/-- The dummy has system index 0, so it is locked out with the first system. -/
theorem lockedOut_retuneOf {s₀ : AnalogSystem} (h₀ : base.systems[0]? = some s₀) (b : EntryBin) :
    base.lockedOut (base.retuneOf w b) = .ok s₀.lockedOut := by
  unfold retuneOf
  split <;> simp [lockedOut, deref, Entry.dummyChannel, Entry.channel, Entry.isLockedOut,
    Entry.lockoutOf, h₀]

end Ring

section Candidates

variable {w : Nat} {bandwidth : Int} {base : SystemList} (hbase : Binned w bandwidth base)
include hbase

theorem mem_candidates {p : EntryPtr} (hp : p ∈ base.bins.flatMap (base.candidates w)) :
    (∃ b ∈ base.bins, p = base.retuneOf w b) ∨ p ∈ base.allEntries := by
  obtain ⟨b, hb, hp⟩ := List.mem_flatMap.mp hp
  unfold candidates at hp
  split at hp
  · simp at hp
  · rcases List.mem_cons.mp hp with rfl | hp
    · exact Or.inl ⟨b, hb, rfl⟩
    · exact Or.inr (hbase.mem_bin hb hp)

theorem visible_entry {p : EntryPtr} (hp : p ∈ base.allEntries) :
    base.visible p = base.isScannable p := by
  simp [visible, lockedOut_entry hbase.addressed hp]

theorem not_dummy_entry {p : EntryPtr} (hp : p ∈ base.allEntries) :
    (base.deref p).isDummy = false := by
  obtain ⟨i, k, s, e, rfl, h⟩ := (mem_allEntries hbase.addressed).mp hp
  rw [deref_channel h]
  exact (hbase.addressed i s h.1).channels e (List.mem_of_getElem? h.2)

theorem lockedOut_candidate {p : EntryPtr} (hp : p ∈ base.bins.flatMap (base.candidates w)) :
    base.lockedOut p = .ok (!base.visible p) := by
  have hok : ∃ locked, base.lockedOut p = .ok locked := by
    rcases mem_candidates hbase hp with ⟨b, hb, rfl⟩ | hp
    · obtain ⟨q, hq⟩ := List.exists_mem_of_ne_nil _ (hbase.nonempty b hb)
      have hne := systems_ne_nil (List.ne_nil_of_mem (hbase.mem_bin hb hq))
      obtain ⟨s₀, rest, hs⟩ := List.exists_cons_of_ne_nil hne
      exact ⟨_, lockedOut_retuneOf (by rw [hs]; rfl) b⟩
    · exact ⟨_, lockedOut_entry hbase.addressed hp⟩
  obtain ⟨locked, h⟩ := hok
  simp [visible, h]

/-- An entry that can be scanned is a candidate. -/
theorem scannable_candidate {p : EntryPtr} (hp : base.isScannable p = true) :
    p ∈ base.bins.flatMap (base.candidates w) := by
  have hmem := mem_allEntries_of_scannable hbase.addressed hp
  obtain ⟨b, hb, hpb⟩ := List.mem_flatMap.mp (hbase.perm.mem_iff.mpr hmem)
  have hopen : b.entriesLockedOut = false := by
    by_contra h
    rw [Bool.not_eq_false, hbase.entriesLockedOut_iff hb] at h
    rw [h p hpb] at hp
    cases hp
  refine List.mem_flatMap.mpr ⟨b, hb, ?_⟩
  simp [candidates, hopen, hpb]

/-! ## Every call -/

/-- The candidates that are not locked out, from the cursor on. -/
def view (w : Nat) (base sl : SystemList) : List EntryPtr := (ring w base sl).filter base.visible

/-- **One call of `getNextEntry`** terminates and returns the head of the view. -/
theorem getNextEntry_ring (hscan : ∃ p, base.isScannable p = true) {sl : SystemList}
    (hs : Scanning base sl) :
    ∃ p V sl', view w base sl = p :: V ∧ sl.getNextEntry w = .ok (p, sl') ∧ Scanning base sl' ∧
      view w base sl' = V ++ [p] := by
  obtain ⟨q, hq⟩ := hscan
  have hqc := scannable_candidate (w := w) hbase hq
  have hvis : ∃ p ∈ ring w base sl, base.visible p = true := by
    refine ⟨q, (ring_perm hs).mem_iff.mpr hqc, ?_⟩
    rw [visible_entry hbase (mem_allEntries_of_scannable hbase.addressed hq), hq]
  have hagain : ∀ s, Scanning base s → ∀ p ∈ ring w base s,
      s.lockedOut p = .ok (!base.visible p) := by
    intro s hs' p hp
    rw [lockedOut_congr hs'.systems]
    exact lockedOut_candidate hbase ((ring_perm hs').mem_iff.mp hp)
  obtain ⟨p, V, sl', hv, hok, hs', hv', -⟩ :=
    doWhile_ring (e := Fault.diverges) (turns_nextCandidate hbase) hagain sl.rounds sl hs hvis
      (ring_length_le hs)
  exact ⟨p, V, sl', hv, hok, hs', hv'⟩

theorem scanning_start (hscan : ∃ p, base.isScannable p = true) : Scanning base base := by
  obtain ⟨q, hq⟩ := hscan
  have hlen : 0 < base.bins.length := by
    obtain ⟨b, hb, -⟩ := List.mem_flatMap.mp (scannable_candidate (w := w) hbase hq)
    exact List.length_pos_of_mem hb
  refine ⟨rfl, rfl, by rw [hbase.binNum]; exact hlen, ?_, ?_, ?_⟩
  · intro b hb
    rw [hbase.entryNum]
    exact List.length_pos_of_ne_nil (hbase.nonempty b (List.mem_of_getElem? hb))
  · intro h
    exact absurd hbase.entryNum h
  · intro h
    rw [hbase.retune] at h
    cases h

/-- **Any number of calls** after `sortBins`. -/
theorem calls_getNextEntry (hscan : ∃ p, base.isScannable p = true) (n : Nat) :
    ∃ sl', calls (getNextEntry w) n base = .ok (spin n (view w base base), sl') ∧
      Scanning base sl' ∧ view w base sl' = (view w base base).rotate n :=
  calls_spin (fun _ hs => getNextEntry_ring hbase hscan hs) n base (scanning_start hbase hscan)

theorem view_start (hscan : ∃ p, base.isScannable p = true) :
    view w base base = (base.bins.flatMap (base.candidates w)).filter base.visible := by
  obtain ⟨b, rest, -, hrot, -⟩ := rotate_bins base.bins (scanning_start hbase hscan).binNum
  have hbins : base.bins = b :: rest := by
    rw [← hrot, hbase.binNum, List.rotate_zero]
  rw [view, ring_start hrot hbase.retune, ← hbins]

/-- Dummies aside, the view holds the unlocked entries in the order of the bins. -/
theorem nonDummies_view (hscan : ∃ p, base.isScannable p = true) :
    nonDummies base (view w base base) = scanOrder base := by
  rw [view_start hbase hscan, nonDummies, scanOrder, List.filter_filter]
  have hbin : ∀ b ∈ base.bins,
      (base.candidates w b).filter (fun p => !(base.deref p).isDummy && base.visible p) =
        b.entries.filter base.isScannable := by
    intro b hb
    have hentries : b.entries.filter (fun p => !(base.deref p).isDummy && base.visible p) =
        b.entries.filter base.isScannable := by
      apply List.filter_congr
      intro p hp
      have hmem := hbase.mem_bin hb hp
      rw [not_dummy_entry hbase hmem, visible_entry hbase hmem, Bool.not_false, Bool.true_and]
    cases hl : b.entriesLockedOut with
    | true =>
      rw [hbase.entriesLockedOut_iff hb] at hl
      simp only [candidates, (hbase.entriesLockedOut_iff hb).mpr hl, ↓reduceIte, List.filter_nil]
      exact (List.filter_eq_nil_iff.mpr fun p hp => by simp [hl p hp]).symm
    | false =>
      simp [candidates, hl, isDummy_retuneOf, hentries]
  rw [List.filter_flatMap, List.filter_flatMap]
  exact List.flatMap_congr hbin

theorem nodup_bins : (base.bins.flatMap EntryBin.entries).Nodup :=
  hbase.perm.nodup_iff.mpr base.nodup_allEntries

/-- The unlocked entries are counted by `scanOrder`, each once. -/
theorem length_scanOrder : (scanOrder base).length = base.allEntries.countP base.isScannable := by
  rw [scanOrder, ← List.countP_eq_length_filter]
  exact hbase.perm.countP_eq _

/-- As many consecutive non-dummy results as there are unlocked entries. -/
theorem fullRound_window {n : Nat} {V window : List EntryPtr}
    (hV : nonDummies base V = scanOrder base) (hw : window <:+: nonDummies base (spin n V))
    (hlen : window.length = base.allEntries.countP base.isScannable) : FullRound base window := by
  obtain ⟨m, hm⟩ := spin_filter (fun p => !(base.deref p).isDummy) n V
  rw [nonDummies, hm, show V.filter _ = scanOrder base from hV] at hw
  obtain ⟨k, hk⟩ := window_spin hw (by rw [hlen, length_scanOrder hbase])
  refine ⟨⟨k, hk⟩, ?_, ?_⟩
  · rw [hk, List.nodup_rotate]
    exact (nodup_bins hbase).filter _
  · intro p
    rw [hk, List.mem_rotate, scanOrder, List.mem_filter]
    refine ⟨And.right, fun hp => ⟨?_, hp⟩⟩
    exact hbase.perm.mem_iff.mpr (mem_allEntries_of_scannable hbase.addressed hp)

/-- What a call returns is not locked out: a dummy, or an entry to scan. -/
theorem returned_of_mem_view {sl : SystemList} (hs : Scanning base sl) {p : EntryPtr}
    (hp : p ∈ view w base sl) :
    base.lockedOut p = .ok false ∧ ((base.deref p).isDummy = true ∨ base.isScannable p = true) := by
  obtain ⟨hring, hvis⟩ := List.mem_filter.mp hp
  have hc := (ring_perm hs).mem_iff.mp hring
  refine ⟨by rw [lockedOut_candidate hbase hc, hvis]; rfl, ?_⟩
  rcases mem_candidates hbase hc with ⟨b, -, rfl⟩ | hmem
  · exact Or.inl (isDummy_retuneOf base b)
  · exact Or.inr (by rw [← visible_entry hbase hmem, hvis])

end Candidates

/-! ## Every run of calls after `sortBins` -/

/-- **Scanning is complete and fair.**  From every cursor that calls of
`getNextEntry` reach, the next call returns an entry that is not locked out,
and every window of non-dummy results as long as there are unlocked entries is
a full round; such a window comes. -/
theorem getNextEntry_complete (w : Nat) (bandwidth : Int) {sl : SystemList} (hf : sl.Fresh)
    (hscan : ∃ p, sl.isScannable p = true) :
    ∃ sorted, sl.sortBins w bandwidth = .ok sorted ∧ sorted.systems = sl.systems ∧
      ∀ n, ∃ before cursor, calls (getNextEntry w) n sorted = .ok (before, cursor) ∧
        (∃ p next, cursor.getNextEntry w = .ok (p, next) ∧ sl.lockedOut p = .ok false ∧
          ((sl.deref p).isDummy = true ∨ sl.isScannable p = true)) ∧
        (∀ m, ∃ results last, calls (getNextEntry w) m cursor = .ok (results, last) ∧
          ∀ window, window <:+: nonDummies sl results →
            window.length = sl.allEntries.countP sl.isScannable → FullRound sorted window) ∧
        (∃ m results last, calls (getNextEntry w) m cursor = .ok (results, last) ∧
          (nonDummies sl results).length = sl.allEntries.countP sl.isScannable) := by
  have hne : sl.allEntries ≠ [] := by
    obtain ⟨p, hp⟩ := hscan
    exact List.ne_nil_of_mem (mem_allEntries_of_scannable hf.addressed hp)
  obtain ⟨bins, hsort, hbase⟩ := sortBins_binned w bandwidth hf hne
  refine ⟨_, hsort, rfl, fun n => ?_⟩
  set base : SystemList := { sl with bins := bins }
  have hscan' : ∃ p, base.isScannable p = true := hscan
  have hnon := nonDummies_view hbase hscan'
  obtain ⟨cursor, hcalls, hcur, hview⟩ := calls_getNextEntry hbase hscan' n
  have hmore : ∀ m, ∃ last, calls (getNextEntry w) m cursor =
      .ok (spin m ((view w base base).rotate n), last) := by
    intro m
    obtain ⟨last, h, -, -⟩ := calls_spin (v := view w base)
      (fun _ hs => getNextEntry_ring hbase hscan' hs) m cursor hcur
    exact ⟨last, by rw [h, hview]⟩
  refine ⟨_, cursor, hcalls, ?_, ?_, ?_⟩
  · obtain ⟨p, V, next, hv, hok, -, -⟩ := getNextEntry_ring hbase hscan' hcur
    exact ⟨p, next, hok, returned_of_mem_view hbase hcur (by rw [hv]; exact List.mem_cons_self ..)⟩
  · intro m
    obtain ⟨last, h⟩ := hmore m
    refine ⟨_, last, h, fun window hw hlen => ?_⟩
    -- a window of the later calls is a window of all calls since `sortBins`
    have hall : nonDummies base (spin (n + m) (view w base base)) =
        nonDummies base (spin n (view w base base)) ++
          nonDummies base (spin m ((view w base base).rotate n)) := by
      rw [spin_add, nonDummies, List.filter_append]
      rfl
    refine fullRound_window hbase hnon (n := n + m) ?_ hlen
    rw [hall]
    exact hw.trans (List.suffix_append _ _).isInfix
  · obtain ⟨last, h⟩ := hmore ((view w base base).rotate n).length
    refine ⟨_, _, last, h, ?_⟩
    have hperm : (nonDummies base ((view w base base).rotate n)).Perm
        (nonDummies base (view w base base)) := (List.rotate_perm _ n).filter _
    rw [spin_length]
    exact hperm.length_eq.trans (by rw [hnon]; exact length_scanOrder hbase)

/-- Two systems whose entries are two bins apart; the first one is locked out
on demand, and the second one has a locked entry. -/
def twoSystems (lo : Bool) : SystemList :=
  (empty.addSystem
    (((AnalogSystem.new "air" lo).setSysIndex 0).addEntry
      (Entry.amChannel 64 118000000 "tower" false 0))).addSystem
    ((((AnalogSystem.new "rail" false).setSysIndex 1).addEntry
      (Entry.fmChannel 64 160500000 "road" true 0)).addEntry
      (Entry.fmChannel 64 161000000 "yard" false 0))

theorem fresh_twoSystems (lo : Bool) : (twoSystems lo).Fresh := by
  refine (fresh_empty.addSystem ?_).addSystem ?_
  · exact (AnalogSystem.addressed_new "air" lo 0).addEntry rfl
  · exact ((AnalogSystem.addressed_new "rail" false 1).addEntry rfl).addEntry rfl

theorem scannable_twoSystems (lo : Bool) : ∃ p, (twoSystems lo).isScannable p = true :=
  ⟨.channel 1 1, by cases lo <;> rfl⟩

theorem getNextEntry_complete_twoSystems :
    ∃ sorted before cursor results last, (twoSystems true).sortBins 64 2048000 = .ok sorted ∧
      calls (getNextEntry 64) 3 sorted = .ok (before, cursor) ∧
      calls (getNextEntry 64) 5 cursor = .ok (results, last) ∧
      ∀ window, window <:+: nonDummies (twoSystems true) results → window.length = 1 →
        FullRound sorted window := by
  obtain ⟨sorted, hsort, -, h⟩ :=
    getNextEntry_complete 64 2048000 (fresh_twoSystems true) (scannable_twoSystems true)
  obtain ⟨before, cursor, hcalls, -, hwindow, -⟩ := h 3
  obtain ⟨results, last, hlater, hround⟩ := hwindow 5
  exact ⟨sorted, before, cursor, results, last, hsort, hcalls, hlater, hround⟩

/-! ## Retunes -/

/-- The first entry that is returned from a bin in each pass over it. -/
def firstOpen (sl : SystemList) (b : EntryBin) : Option EntryPtr :=
  b.entries.find? sl.isScannable

/-- The dummies among the results stand where the bins begin: one, tuned to the
centre of the bin, in front of the first entry from the bin, and nowhere else. -/
structure Retuned (w : Nat) (sl : SystemList) (results : List EntryPtr) : Prop where
  before_bin : ∀ xs p ys b, results = xs ++ p :: ys → b ∈ sl.bins → sl.firstOpen b = some p →
    ∃ zs d, xs = zs ++ [d] ∧ (sl.deref d).isDummy = true ∧
      sl.getCenterFreq w b = .ok (sl.deref d).freq
  only_before_bin : ∀ xs d p ys, results = xs ++ d :: p :: ys → (sl.deref d).isDummy = true →
    ∃ b ∈ sl.bins, sl.firstOpen b = some p

theorem Retuned.of_prefix {w : Nat} {sl : SystemList} {results whole : List EntryPtr}
    (h : Retuned w sl whole) (hp : results <+: whole) : Retuned w sl results := by
  obtain ⟨rest, rfl⟩ := hp
  refine ⟨?_, ?_⟩
  · intro xs p ys b hr
    exact h.before_bin xs p (ys ++ rest) b (by simp [hr])
  · intro xs d p ys hr
    exact h.only_before_bin xs d p (ys ++ rest) (by simp [hr])

theorem retuned_nil (w : Nat) (sl : SystemList) : Retuned w sl [] :=
  ⟨fun xs p ys b h => by simp at h, fun xs d p ys h => by simp at h⟩

/-- One pass over the bin `b`, while the first system is not locked out. -/
def pass (w : Nat) (sl : SystemList) (b : EntryBin) : List EntryPtr :=
  if b.entriesLockedOut then [] else sl.retuneOf w b :: b.entries.filter sl.isScannable

/-- The dummy of a bin is tuned to the centre of the bin. -/
theorem freq_retuneOf {w : Nat} (hw : 0 < w) (sl : SystemList) {b : EntryBin}
    (hb : b.entries ≠ []) :
    sl.getCenterFreq w b = .ok (sl.deref (sl.retuneOf w b)).freq := by
  obtain ⟨c, hc⟩ := getCenterFreq_ok w sl hb
  have hd : sl.retuneOf w b = .owned (Entry.dummyChannel w c) := by
    simp only [retuneOf, hc]
  rw [hc, hd]
  simp [deref, wrap_of_fits hw (getCenterFreq_fits hw sl hc)]

section Passes

variable {w : Nat} {bandwidth : Int} {base : SystemList} (hbase : Binned w bandwidth base)
include hbase

/-- Different bins have no entry in common. -/
theorem bin_unique {b c : EntryBin} (hb : b ∈ base.bins) (hc : c ∈ base.bins) {p : EntryPtr}
    (hpb : p ∈ b.entries) (hpc : p ∈ c.entries) : b = c := by
  by_contra hne
  have hdisj := (List.nodup_flatMap.mp (nodup_bins hbase)).2
  have hsymm : Std.Symm (Function.onFun List.Disjoint EntryBin.entries) :=
    ⟨fun _ _ h _ hc hb => h hb hc⟩
  exact hdisj.forall hb hc hne hpb hpc

theorem not_dummy_open {b : EntryBin} (hb : b ∈ base.bins) {p : EntryPtr}
    (hp : p ∈ b.entries.filter base.isScannable) : (base.deref p).isDummy = false :=
  not_dummy_entry hbase (hbase.mem_bin hb (List.mem_filter.mp hp).1)

/-- The first open entry of a bin is the first one of its pass. -/
theorem open_split {b c : EntryBin} (hb : b ∈ base.bins) (hc : c ∈ base.bins) {p : EntryPtr}
    (hfirst : base.firstOpen c = some p) {xs ys : List EntryPtr}
    (h : b.entries.filter base.isScannable = xs ++ p :: ys) : xs = [] ∧ c = b := by
  have hp : p ∈ b.entries.filter base.isScannable := by
    rw [h]
    exact List.mem_append_right _ (List.mem_cons_self ..)
  obtain rfl := bin_unique hbase hb hc (List.mem_filter.mp hp).1 (List.mem_of_find?_eq_some hfirst)
  refine ⟨?_, rfl⟩
  have hnodup : (b.entries.filter base.isScannable).Nodup :=
    ((List.nodup_flatMap.mp (nodup_bins hbase)).1 b hb).filter _
  have hhead : (b.entries.filter base.isScannable).head? = some p := by
    rw [List.head?_filter]
    exact hfirst
  rw [h] at hnodup hhead
  cases xs with
  | nil => rfl
  | cons x xs =>
    simp only [List.cons_append, List.head?_cons, Option.some.injEq] at hhead
    subst hhead
    simp at hnodup

/-- A pass over a bin puts its dummy in front of its first open entry. -/
theorem retuned_pass_append (hw : 0 < w) {b : EntryBin} (hb : b ∈ base.bins)
    {rest : List EntryPtr} (hrest : Retuned w base rest) :
    Retuned w base (pass w base b ++ rest) := by
  unfold pass
  split
  · exact hrest
  · rename_i hopen
    refine ⟨?_, ?_⟩
    · intro xs p ys c hr hc hfirst
      have hpc := List.mem_of_find?_eq_some hfirst
      rcases List.append_eq_append_iff.mp hr with ⟨xs', rfl, hr'⟩ | ⟨t, hpass, hr'⟩
      · -- `p` comes after this pass
        obtain ⟨zs, d, rfl, hd⟩ := hrest.before_bin xs' p ys c hr' hc hfirst
        exact ⟨base.retuneOf w b :: b.entries.filter base.isScannable ++ zs, d, by simp, hd⟩
      · cases t with
        | nil =>
          obtain ⟨zs, d, hnil, -⟩ := hrest.before_bin [] p ys c hr'.symm hc hfirst
          simp at hnil
        | cons q t =>
          obtain ⟨rfl, -⟩ := List.cons.inj hr'
          cases xs with
          | nil =>
            obtain ⟨rfl, -⟩ := List.cons.inj hpass
            have hnot := not_dummy_entry hbase (hbase.mem_bin hc hpc)
            rw [isDummy_retuneOf] at hnot
            cases hnot
          | cons x xs =>
            obtain ⟨rfl, hopens⟩ := List.cons.inj hpass
            obtain ⟨rfl, rfl⟩ := open_split hbase hb hc hfirst hopens
            exact ⟨[], _, rfl, isDummy_retuneOf _ _, freq_retuneOf hw base (hbase.nonempty _ hb)⟩
    · intro xs d p ys hr hd
      rcases List.append_eq_append_iff.mp hr with ⟨xs', rfl, hr'⟩ | ⟨t, hpass, hr'⟩
      · exact hrest.only_before_bin xs' d p ys hr' hd
      · cases t with
        | nil => exact hrest.only_before_bin [] d p ys hr'.symm hd
        | cons q t =>
          obtain ⟨rfl, hrest'⟩ := List.cons.inj hr'
          cases xs with
          | cons x xs =>
            -- a dummy inside the pass would be one of the entries
            obtain ⟨-, hpass⟩ := List.cons.inj hpass
            have hnot := not_dummy_open hbase hb (p := d) (by rw [hpass]; simp)
            rw [hd] at hnot
            cases hnot
          | nil =>
            obtain ⟨rfl, ht⟩ := List.cons.inj hpass
            refine ⟨b, hb, ?_⟩
            obtain ⟨s, S, hS⟩ : ∃ s S, b.entries.filter base.isScannable = s :: S := by
              apply List.exists_cons_of_ne_nil
              intro hnil
              refine hopen ((hbase.entriesLockedOut_iff hb).mpr fun q hq => ?_)
              simpa using List.filter_eq_nil_iff.mp hnil q hq
            rw [hS] at ht
            subst ht
            obtain ⟨rfl, -⟩ := List.cons.inj hrest'
            rw [firstOpen, ← List.head?_filter, hS, List.head?_cons]

theorem retuned_passes (hw : 0 < w) (bs : List EntryBin) (hbs : ∀ b ∈ bs, b ∈ base.bins) :
    Retuned w base (bs.flatMap (pass w base)) := by
  induction bs with
  | nil => exact retuned_nil w base
  | cons b bs ih =>
    rw [List.flatMap_cons]
    exact retuned_pass_append hbase hw (hbs b (List.mem_cons_self ..))
      (ih fun c hc => hbs c (List.mem_cons_of_mem b hc))

/-- While the first system is not locked out, the view is one pass after another. -/
theorem view_open (hscan : ∃ p, base.isScannable p = true) {s₀ : AnalogSystem}
    (h₀ : base.systems[0]? = some s₀) (hopen : s₀.lockedOut = false) :
    view w base base = base.bins.flatMap (pass w base) := by
  rw [view_start hbase hscan, List.filter_flatMap]
  apply List.flatMap_congr
  intro b hb
  have hd : base.visible (base.retuneOf w b) = true := by
    simp [visible, lockedOut_retuneOf h₀, hopen]
  have hentries : b.entries.filter base.visible = b.entries.filter base.isScannable := by
    apply List.filter_congr
    intro p hp
    exact visible_entry hbase (hbase.mem_bin hb hp)
  unfold candidates pass
  split
  · rfl
  · rw [List.filter_cons_of_pos hd, hentries]

/-- While the first system is locked out, no dummy passes the lockout filter. -/
theorem view_locked {s₀ : AnalogSystem} (h₀ : base.systems[0]? = some s₀)
    (hlocked : s₀.lockedOut = true) {d : EntryPtr} (hd : d ∈ view w base base)
    (hs : Scanning base base) : (base.deref d).isDummy = false := by
  obtain ⟨hring, hvis⟩ := List.mem_filter.mp hd
  rcases mem_candidates hbase ((ring_perm hs).mem_iff.mp hring) with ⟨b, -, rfl⟩ | hmem
  · simp [visible, lockedOut_retuneOf h₀, hlocked] at hvis
  · exact not_dummy_entry hbase hmem

end Passes

/-- **Retunes.**  The dummies stand exactly in front of the passes over the bins,
over any number of results, if and only if the first system is not locked out. -/
theorem retune_before_bin_iff {w : Nat} (hw : 0 < w) (bandwidth : Int) {sl : SystemList}
    (hf : sl.Fresh) (hscan : ∃ p, sl.isScannable p = true) :
    ∃ sorted, sl.sortBins w bandwidth = .ok sorted ∧
      ((∀ n, ∃ results last, calls (getNextEntry w) n sorted = .ok (results, last) ∧
          Retuned w sorted results) ↔
        ∀ s₀, sl.systems[0]? = some s₀ → s₀.lockedOut = false) := by
  obtain ⟨p, hp⟩ := hscan
  have hne := List.ne_nil_of_mem (mem_allEntries_of_scannable hf.addressed hp)
  obtain ⟨bins, hsort, hbase⟩ := sortBins_binned w bandwidth hf hne
  refine ⟨_, hsort, ?_⟩
  set base : SystemList := { sl with bins := bins }
  have hscan : ∃ p, base.isScannable p = true := ⟨p, hp⟩
  have hstart := scanning_start hbase hscan
  have hcalls := calls_getNextEntry hbase hscan
  constructor
  · intro h s₀ h₀
    by_contra hlocked
    rw [Bool.not_eq_false] at hlocked
    -- a whole turn of the view has the first open entry of some bin
    obtain ⟨last, hturn, -, -⟩ := hcalls (view w base base).length
    obtain ⟨results, last', hok, hret⟩ := h (view w base base).length
    rw [hturn, spin_length] at hok
    obtain ⟨rfl, -⟩ := Prod.mk.inj (Except.ok.inj hok)
    obtain ⟨b, hb, hpb⟩ := List.mem_flatMap.mp
      (hbase.perm.mem_iff.mpr (mem_allEntries_of_scannable hbase.addressed hp))
    obtain ⟨q, hq⟩ : ∃ q, base.firstOpen b = some q := by
      rw [← Option.isSome_iff_exists, firstOpen, List.find?_isSome]
      exact ⟨p, hpb, hp⟩
    have hqs : base.isScannable q = true := List.find?_some hq
    have hqv : q ∈ view w base base := by
      refine List.mem_filter.mpr ⟨(ring_perm hstart).mem_iff.mpr (scannable_candidate hbase hqs), ?_⟩
      rw [visible_entry hbase (mem_allEntries_of_scannable hbase.addressed hqs), hqs]
    obtain ⟨xs, ys, hsplit⟩ := List.append_of_mem hqv
    obtain ⟨zs, d, rfl, hd, -⟩ := hret.before_bin xs q ys b hsplit hb hq
    have hdv : d ∈ view w base base := by
      rw [hsplit]
      simp
    rw [view_locked hbase h₀ hlocked hdv hstart] at hd
    cases hd
  · intro hopen n
    obtain ⟨last, hok, -, -⟩ := hcalls n
    refine ⟨_, last, hok, ?_⟩
    obtain ⟨s₀, h₀⟩ : ∃ s₀, base.systems[0]? = some s₀ := by
      obtain ⟨s₀, rest, hs⟩ := List.exists_cons_of_ne_nil (systems_ne_nil hne)
      exact ⟨s₀, by rw [hs]; rfl⟩
    rw [view_open hbase hscan h₀ (hopen s₀ h₀)]
    -- whole turns are passes over the bins, time after time
    refine Retuned.of_prefix ?_ (spin_prefix_turns n _)
    rw [← flatMap_turns]
    refine retuned_passes hbase hw _ fun b hb => ?_
    obtain ⟨bs, hbs, hb⟩ := List.mem_flatten.mp hb
    rwa [List.eq_of_mem_replicate hbs] at hb

theorem retune_before_bin_twoSystems :
    ∃ sorted, (twoSystems false).sortBins 64 2048000 = .ok sorted ∧
      ∃ results last, calls (getNextEntry 64) 7 sorted = .ok (results, last) ∧
        Retuned 64 sorted results := by
  obtain ⟨sorted, hsort, hiff⟩ := retune_before_bin_iff (w := 64) (by decide) 2048000
    (fresh_twoSystems false) (scannable_twoSystems false)
  exact ⟨sorted, hsort, hiff.mpr (fun s₀ h => by cases h; rfl) 7⟩

/-- With its first system locked out, the list returns entries of the second
one without any retune. -/
theorem no_retune_twoSystems :
    (twoSystems true).Fresh ∧ (twoSystems true).isScannable (.channel 1 1) = true ∧
      ∃ sorted results last, (twoSystems true).sortBins 64 2048000 = .ok sorted ∧
        calls (getNextEntry 64) 1 sorted = .ok (results, last) ∧ ¬Retuned 64 sorted results := by
  refine ⟨fresh_twoSystems true, rfl, _, [.channel 1 1], _, rfl, rfl, fun h => ?_⟩
  obtain ⟨zs, d, hnil, -⟩ := h.before_bin [] (.channel 1 1) []
    { entries := [.channel 1 0, .channel 1 1], lockedEntries := 1 } rfl (by decide) rfl
  simp at hnil

end PiScan.Scan.SystemList

import PiScan.Scan.Fairness
import PiScan.Scan.Reload

/-!
# What a loaded list hands out

`Offers` lists the pointers that `getNextEntry` and `getEntryByIndex` can
return.  A list is `Stocked` if `populateFromFile` and `sortBins` made it and
the cursor has moved since.

* `getNextEntry_offers`, `getEntryByIndex_offers`: only the cursor moves;
* `Stocked.offers`: what a stocked list offers is one of its entries, or a
  dummy, and then some entry can be scanned;
* `Stocked.restock`: the systems of a stocked list are loaded and sorted again
  after a save, with the cursor at its start.
-/

namespace PiScan.Scan

/-- A pointer that a list can hand out: the dummy of a bin that is not all
locked, unless it is locked out with the first system, an entry of a bin, or
the entry at an index. -/
inductive SystemList.Offers (sl : SystemList) : EntryPtr → Prop
  | dummy {b : EntryBin} {center : Int} (hb : b ∈ sl.bins) (hopen : b.entriesLockedOut = false)
      (hfree : sl.lockedOut (.owned (Entry.dummyChannel 64 center)) = .ok false) :
      Offers sl (.owned (Entry.dummyChannel 64 center))
  | binned {b : EntryBin} {p : EntryPtr} (hb : b ∈ sl.bins) (hp : p ∈ b.entries) : Offers sl p
  | indexed {i k : Nat} {s : AnalogSystem} (hs : sl.systems[i]? = some s)
      (hk : k < s.entries.length) : Offers sl (.channel i k)

namespace SystemList

open Carousel

/-- The cursor of `sl'` may have moved. -/
structure SameEntries (sl sl' : SystemList) : Prop where
  systems : sl'.systems = sl.systems
  bins : sl'.bins = sl.bins

theorem SameEntries.refl (sl : SystemList) : SameEntries sl sl := ⟨rfl, rfl⟩

theorem SameEntries.trans {a b c : SystemList} (h : SameEntries a b) (h' : SameEntries b c) :
    SameEntries a c :=
  ⟨h'.systems.trans h.systems, h'.bins.trans h.bins⟩

theorem SameEntries.offers {a b : SystemList} (h : SameEntries a b) {p : EntryPtr}
    (hp : b.Offers p) : a.Offers p := by
  cases hp with
  | dummy hb hopen hfree =>
    exact .dummy (h.bins ▸ hb) hopen (by rw [← lockedOut_congr h.systems]; exact hfree)
  | binned hb hp => exact .binned (h.bins ▸ hb) hp
  | indexed hs hk => exact .indexed (h.systems ▸ hs) hk

/-- The skip loop ends at a bin that is not all locked. -/
theorem skipBins_same {fuel : Nat} {sl sl' : SystemList} (h : skipBins fuel sl = .ok sl') :
    SameEntries sl sl' ∧ ∀ b, sl'.bins[sl'.binNum]? = some b → b.entriesLockedOut = false := by
  induction fuel generalizing sl with
  | zero => cases h
  | succ fuel ih =>
    unfold skipBins at h
    split at h
    · cases h
    · rename_i b hb
      split at h
      · obtain ⟨hs, hopen⟩ := ih h
        exact ⟨⟨hs.systems, hs.bins⟩, hopen⟩
      · rename_i hl
        rw [← Except.ok.inj h]
        refine ⟨.refl sl, fun c hc => ?_⟩
        rw [hb, Option.some.injEq] at hc
        rw [← hc]
        simpa using hl

/-- A candidate is offered if it passes the lockout test of the loop. -/
theorem nextCandidate_offers {sl sl' : SystemList} {p : EntryPtr}
    (h : sl.nextCandidate 64 = .ok (p, sl')) :
    SameEntries sl sl' ∧ (sl.lockedOut p = .ok false → sl.Offers p) := by
  unfold nextCandidate at h
  split at h
  · unfold retuneEntry at h
    split at h
    · cases h
    · rename_i sl₁ hskip
      obtain ⟨hs, hopen⟩ := skipBins_same hskip
      split at h
      · cases h
      · rename_i b hb
        split at h
        · cases h
        · obtain ⟨rfl, rfl⟩ := Prod.mk.inj (Except.ok.inj h)
          refine ⟨⟨hs.systems, hs.bins⟩, .dummy (b := b) ?_ (hopen b hb)⟩
          have hmem := List.mem_of_getElem? hb
          rwa [hs.bins] at hmem
  · unfold binEntry at h
    split at h
    · cases h
    · rename_i b hb
      split at h
      · cases h
      · rename_i entry hentry
        have hoff := Offers.binned (List.mem_of_getElem? hb) (List.mem_of_getElem? hentry)
        simp only at h
        split at h
        · obtain ⟨rfl, rfl⟩ := Prod.mk.inj (Except.ok.inj h)
          exact ⟨⟨rfl, rfl⟩, fun _ => hoff⟩
        · obtain ⟨rfl, rfl⟩ := Prod.mk.inj (Except.ok.inj h)
          exact ⟨⟨rfl, rfl⟩, fun _ => hoff⟩

theorem getNextEntry_offers {sl sl' : SystemList} {p : EntryPtr}
    (h : sl.getNextEntry 64 = .ok (p, sl')) :
    SameEntries sl sl' ∧ sl.Offers p ∧ sl.lockedOut p = .ok false := by
  have hloop : ∀ (fuel : Nat) (s : SystemList),
      doWhile Fault.diverges (nextCandidate 64) lockedOut fuel s = .ok (p, sl') →
        SameEntries s sl' ∧ s.Offers p ∧ s.lockedOut p = .ok false := by
    intro fuel
    induction fuel with
    | zero =>
      intro s hs
      cases hs
    | succ fuel ih =>
      intro s hs
      unfold doWhile at hs
      split at hs
      · cases hs
      · rename_i q s₁ hbody
        obtain ⟨hsame, hoff⟩ := nextCandidate_offers hbody
        split at hs
        · cases hs
        · obtain ⟨hsame', hoff', hfree⟩ := ih s₁ hs
          rw [lockedOut_congr hsame.systems] at hfree
          exact ⟨hsame.trans hsame', hsame.offers hoff', hfree⟩
        · rename_i hfree
          obtain ⟨rfl, rfl⟩ := Prod.mk.inj (Except.ok.inj hs)
          rw [lockedOut_congr hsame.systems] at hfree
          exact ⟨hsame, hoff hfree, hfree⟩
  exact hloop sl.rounds sl h

theorem getEntryByIndex_offers {sl sl' : SystemList} {p : EntryPtr} {index : List Int}
    (h : sl.getEntryByIndex 64 index = .ok (p, sl')) : SameEntries sl sl' ∧ sl.Offers p := by
  have hnext : sl.getNextEntry 64 = .ok (p, sl') → SameEntries sl sl' ∧ sl.Offers p := fun h =>
    ⟨(getNextEntry_offers h).1, (getNextEntry_offers h).2.1⟩
  unfold getEntryByIndex at h
  split at h
  · split at h
    · exact hnext h
    · split at h
      · cases h
      · rename_i s hs
        split at h
        · exact hnext h
        · split at h
          · rename_i hk
            obtain ⟨rfl, rfl⟩ := Prod.mk.inj (Except.ok.inj h)
            exact ⟨.refl sl, .indexed hs hk⟩
          · cases h
  · exact hnext h

/-! ## Stocked lists -/

/-- A list that was loaded and sorted, wherever the cursor is now. -/
structure Stocked (sl : SystemList) : Prop where
  loaded : sl.Loaded
  empty : sl.systems = [] → sl.bins = []
  nonempty : sl.systems ≠ [] → sl.allEntries ≠ []
  binned : sl.systems ≠ [] → ∃ rate base, Binned 64 rate base ∧ SameEntries base sl

theorem stocked_empty : SystemList.empty.Stocked :=
  ⟨⟨fresh_empty.addressed, fun s hs => by cases hs⟩, fun _ => rfl, fun h => absurd rfl h,
    fun h => absurd rfl h⟩

theorem Stocked.same {sl sl' : SystemList} (h : sl.Stocked) (hs : SameEntries sl sl') :
    sl'.Stocked := by
  refine ⟨h.loaded.congr hs.systems, fun he => ?_, fun hne => ?_, fun hne => ?_⟩
  · rw [hs.bins]
    exact h.empty (hs.systems.symm.trans he)
  · rw [allEntries_congr hs.systems]
    exact h.nonempty fun he => hne (hs.systems.trans he)
  · obtain ⟨rate, base, hb, hsame⟩ := h.binned fun he => hne (hs.systems.trans he)
    exact ⟨rate, base, hb, hsame.trans hs⟩

/-- **`ST_Load` stocks the list.** -/
theorem stocked_load {file : SystemsFile} {rate : Int} {sl sorted : SystemList}
    (hload : SystemList.empty.populateFromFile 64 file = .ok sl)
    (hsort : sl.sortBins 64 rate = .ok sorted) : sorted.Stocked := by
  have hfresh := populateFromFile_fresh fresh_empty hload
  have hl := loaded_populateFromFile hload
  rcases sortBins_cases hfresh hsort with ⟨hnil, rfl⟩ | ⟨hall, hbinned, hsys⟩
  · exact ⟨hl, fun _ => hfresh.bins, fun hne => absurd hnil hne, fun hne => absurd hnil hne⟩
  · refine ⟨hl.congr hsys, fun hnil => ?_, fun _ => by rwa [allEntries_congr hsys],
      fun _ => ⟨rate, sorted, hbinned, .refl _⟩⟩
    have hall : sorted.allEntries = [] := by simp [allEntries, hnil]
    refine List.eq_nil_iff_forall_not_mem.mpr fun b hb => ?_
    obtain ⟨p, hp⟩ := List.exists_mem_of_ne_nil _ (hbinned.nonempty b hb)
    have hmem := hbinned.mem_bin hb hp
    rw [hall] at hmem
    cases hmem

/-- A pointer to an entry of the list, or to a dummy that the list can make:
some entry can be scanned, and the first system is not locked out. -/
inductive Known (sl : SystemList) : EntryPtr → Prop
  | channel {i k : Nat} {s : AnalogSystem} {e : Entry} (h : sl.Holds i k s e) :
      Known sl (.channel i k)
  | dummy {center : Int} {s₀ : AnalogSystem} (hscan : ∃ q, sl.isScannable q = true)
      (h₀ : sl.systems[0]? = some s₀) (hfree : s₀.lockedOut = false) :
      Known sl (.owned (Entry.dummyChannel 64 center))

theorem Known.same {sl sl' : SystemList} {p : EntryPtr} (h : sl.Known p)
    (hs : SameEntries sl sl') : sl'.Known p := by
  cases h with
  | channel h => exact .channel ⟨by rw [hs.systems]; exact h.1, h.2⟩
  | dummy hscan h₀ hfree =>
    refine .dummy ?_ (by rw [hs.systems]; exact h₀) hfree
    simpa only [isScannable_congr hs.systems] using hscan

theorem Stocked.systems_ne {sl : SystemList} (h : sl.Stocked) {b : EntryBin} (hb : b ∈ sl.bins) :
    sl.systems ≠ [] := by
  intro he
  rw [h.empty he] at hb
  cases hb

/-- The entries in the bins are the entries of the list. -/
theorem Stocked.mem_bin {sl : SystemList} (h : sl.Stocked) {b : EntryBin} (hb : b ∈ sl.bins)
    {p : EntryPtr} (hp : p ∈ b.entries) : p ∈ sl.allEntries := by
  obtain ⟨rate, base, hbinned, hsame⟩ := h.binned (h.systems_ne hb)
  rw [allEntries_congr hsame.systems]
  exact hbinned.mem_bin (hsame.bins ▸ hb) hp

/-- In a bin that is not all locked, an entry can be scanned. -/
theorem Stocked.scannable {sl : SystemList} (h : sl.Stocked) {b : EntryBin} (hb : b ∈ sl.bins)
    (hopen : b.entriesLockedOut = false) : ∃ q, sl.isScannable q = true := by
  obtain ⟨rate, base, hbinned, hsame⟩ := h.binned (h.systems_ne hb)
  by_contra hno
  have hall : b.entriesLockedOut = true := by
    rw [hbinned.entriesLockedOut_iff (hsame.bins ▸ hb)]
    intro p _
    rw [← isScannable_congr hsame.systems]
    by_contra hp
    exact hno ⟨p, by simpa using hp⟩
  rw [hopen] at hall
  cases hall

/-- **What a stocked list offers is known.** -/
theorem Stocked.offers {sl : SystemList} (h : sl.Stocked) {p : EntryPtr} (hp : sl.Offers p) :
    sl.Known p := by
  cases hp with
  | @dummy b center hb hopen hfree =>
    cases h₀ : sl.systems[0]? with
    | none => simp [lockedOut, deref, Entry.dummyChannel, Entry.channel, Entry.isLockedOut,
        Entry.lockoutOf, h₀] at hfree
    | some s₀ =>
      refine .dummy (h.scannable hb hopen) h₀ ?_
      simpa [lockedOut, deref, Entry.dummyChannel, Entry.channel, Entry.isLockedOut,
        Entry.lockoutOf, h₀] using hfree
  | binned hb hp =>
    obtain ⟨i, k, s, e, rfl, hholds⟩ := (mem_allEntries h.loaded.addressed).mp (h.mem_bin hb hp)
    exact .channel hholds
  | indexed hs hk => exact .channel ⟨hs, List.getElem?_eq_getElem hk⟩

/-- **If `getNextEntry` returns, some entry can be scanned.** -/
theorem Stocked.scannable_of_next {sl sl' : SystemList} (h : sl.Stocked) {p : EntryPtr}
    (hn : sl.getNextEntry 64 = .ok (p, sl')) : ∃ q, sl.isScannable q = true := by
  obtain ⟨-, hoff, hfree⟩ := getNextEntry_offers hn
  cases h.offers hoff with
  | @channel i k s e hholds =>
    rw [lockedOut_channel h.loaded.addressed hholds, Except.ok.injEq, Bool.not_eq_false'] at hfree
    exact ⟨_, hfree⟩
  | dummy hscan h₀ _ => exact hscan

/-- **After a save, a stocked list is loaded and sorted again.** -/
theorem Stocked.restock {sl : SystemList} (h : sl.Stocked) (hne : sl.systems ≠ []) (rate : Int) :
    ∃ fresh base, SystemList.empty.populateFromFile 64 sl.writeToFile = .ok fresh ∧
      fresh.sortBins 64 rate = .ok base ∧ Binned 64 rate base ∧ base.systems = sl.systems := by
  have hload := reload_loaded h.loaded
  have hall : ({ SystemList.empty with systems := sl.systems } : SystemList).allEntries ≠ [] :=
    h.nonempty hne
  obtain ⟨bins, hsort, hb⟩ :=
    sortBins_binned 64 rate (populateFromFile_fresh fresh_empty hload) hall
  exact ⟨_, _, hload, hsort, hb, rfl⟩

end SystemList

end PiScan.Scan

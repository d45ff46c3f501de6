import PiScan.Scan.Reload
import PiScan.Scan.Fairness

/-!
# Is the scan list indexed in range?

A session is `sortBins` followed by calls of `getEntryByIndex` and
`getNextEntry`, as `ST_Load`, `startScanner` and the handlers make them.  It is
in bounds if it does not end in an access that does not exist; it may go on
forever, when everything is locked out.

* `getEntryByIndex_cases`: an index is that of an entry, or falls through to
  `getNextEntry`;
* `Walking.call`: from a sorted list with at least one entry every call stays
  in bounds;
* `session_inBounds_iff`: so a session is in bounds just when there is an entry,
  or no system and no call.
-/

namespace PiScan.Scan.SystemList

open Carousel

/-- The calls that move the cursor, or look up an index. -/
inductive ListCall
  | getEntryByIndex (index : List Int)
  | getNextEntry
  deriving DecidableEq, Repr

def ListCall.run (w : Nat) : ListCall → SystemList → Except Fault (EntryPtr × SystemList)
  | .getEntryByIndex index, sl => SystemList.getEntryByIndex w index sl
  | .getNextEntry, sl => SystemList.getNextEntry w sl

/-- Calls one after the other; the result is what the last one leaves. -/
def runCalls (w : Nat) : List ListCall → SystemList → Except Fault SystemList
  | [], sl => .ok sl
  | call :: rest, sl =>
    match call.run w sl with
    | .error f => .error f
    | .ok (_, sl) => runCalls w rest sl

/-- `sortBins`, then the calls. -/
def session (w : Nat) (bandwidth : Int) (cs : List ListCall) (sl : SystemList) :
    Except Fault SystemList :=
  match sl.sortBins w bandwidth with
  | .error f => .error f
  | .ok sorted => runCalls w cs sorted

/-- No element was accessed that does not exist; a loop may have no end. -/
def InBounds {α : Type} (r : Except Fault α) : Prop := ∀ f, r = .error f → f = .diverges

theorem inBounds_ok {α : Type} (a : α) : InBounds (Except.ok a : Except Fault α) := by
  intro f h
  cases h

theorem inBounds_diverges {α : Type} : InBounds (.error .diverges : Except Fault α) := by
  intro f h
  exact (Except.error.inj h).symm

variable {w : Nat} {bandwidth : Int} {base sl : SystemList}

/-! ## One call -/

/-- **An index** is that of an entry, or falls through to `getNextEntry`. -/
theorem getEntryByIndex_cases (ha : sl.Addressed) (index : List Int) :
    sl.getEntryByIndex w index = sl.getNextEntry w ∨
      ∃ p, sl.getEntryByIndex w index = .ok (p, sl) := by
  unfold getEntryByIndex
  split
  · next i k _ =>
    split
    · exact .inl rfl
    · next hi =>
      have hlt : i.toNat < sl.systems.length := by
        simp only [SystemList.size] at hi
        omega
      rw [List.getElem?_eq_getElem hlt]
      have hnum := (ha i.toNat _ (List.getElem?_eq_getElem hlt)).numEntries
      simp only
      split
      · exact .inl rfl
      · next hk =>
        right
        rw [if_pos]
        · exact ⟨_, rfl⟩
        · simp only [AnalogSystem.size] at hk
          omega
  · exact .inl rfl

/-- With all bins locked out, the skip loop has no end. -/
theorem skipBins_locked (fuel : Nat) (hn : sl.binNum < sl.bins.length)
    (hall : ∀ b ∈ sl.bins, b.entriesLockedOut = true) :
    sl.skipBins fuel = .error .diverges := by
  induction fuel generalizing sl with
  | zero => rfl
  | succ fuel ih =>
    have hlocked := hall _ (List.getElem_mem hn)
    simp only [skipBins, List.getElem?_eq_getElem hn, hlocked, if_true]
    exact ih (Nat.mod_lt _ (Nat.lt_of_le_of_lt (Nat.zero_le _) hn)) hall

/-- `getNextEntry` does not return when nothing can be scanned. -/
theorem getNextEntry_locked (hbase : Binned w bandwidth base) (hne : base.allEntries ≠ [])
    (hno : ¬∃ p, base.isScannable p = true) : base.getNextEntry w = .error .diverges := by
  have hlen : base.binNum < base.bins.length := by
    rw [hbase.binNum]
    exact List.length_pos_of_ne_nil (hbase.bins_ne_nil hne)
  have hall : ∀ b ∈ base.bins, b.entriesLockedOut = true := by
    intro b hb
    rw [hbase.entriesLockedOut_iff hb]
    intro p _
    by_contra hp
    exact hno ⟨p, by simpa using hp⟩
  have hskip : skipBins (base.bins.length + 1) { base with retune := false } = .error .diverges :=
    skipBins_locked _ hlen hall
  have hbody : base.nextCandidate w = .error .diverges := by
    rw [nextCandidate, if_pos ⟨hbase.entryNum, hbase.retune⟩, retuneEntry, hskip]
  simp only [getNextEntry, rounds, doWhile, hbody]

/-! ## Any calls -/

/-- A list after some calls that returned: the cursor moves only if something can
be scanned. -/
def Walking (w : Nat) (bandwidth : Int) (base sl : SystemList) : Prop :=
  Binned w bandwidth base ∧ base.allEntries ≠ [] ∧
    ((∃ p, base.isScannable p = true) ∧ Scanning base sl ∨
      (¬∃ p, base.isScannable p = true) ∧ sl = base)

theorem Binned.walking (hbase : Binned w bandwidth base) (hne : base.allEntries ≠ []) :
    Walking w bandwidth base base := by
  refine ⟨hbase, hne, ?_⟩
  by_cases hscan : ∃ p, base.isScannable p = true
  · exact .inl ⟨hscan, scanning_start hbase hscan⟩
  · exact .inr ⟨hscan, rfl⟩

theorem Walking.addressed (h : Walking w bandwidth base sl) : sl.Addressed := by
  obtain ⟨hbase, -, ⟨-, hs⟩ | ⟨-, rfl⟩⟩ := h
  · intro i s hi
    rw [hs.systems] at hi
    exact hbase.addressed i s hi
  · exact hbase.addressed

theorem Walking.getNextEntry (h : Walking w bandwidth base sl) :
    (∃ p sl', sl.getNextEntry w = .ok (p, sl') ∧ Walking w bandwidth base sl') ∨
      sl.getNextEntry w = .error .diverges := by
  obtain ⟨hbase, hne, ⟨hscan, hs⟩ | ⟨hno, rfl⟩⟩ := h
  · obtain ⟨p, V, sl', -, hok, hs', -⟩ := getNextEntry_ring hbase hscan hs
    exact .inl ⟨p, sl', hok, hbase, hne, .inl ⟨hscan, hs'⟩⟩
  · exact .inr (getNextEntry_locked hbase hne hno)

/-- **A call stays in bounds.** -/
theorem Walking.call (h : Walking w bandwidth base sl) (call : ListCall) :
    (∃ p sl', call.run w sl = .ok (p, sl') ∧ Walking w bandwidth base sl') ∨
      call.run w sl = .error .diverges := by
  cases call with
  | getNextEntry => exact h.getNextEntry
  | getEntryByIndex index =>
    simp only [ListCall.run]
    rcases getEntryByIndex_cases (w := w) h.addressed index with hnext | ⟨p, hp⟩
    · rw [hnext]
      exact h.getNextEntry
    · exact .inl ⟨p, sl, hp, h⟩

theorem Walking.runCalls (h : Walking w bandwidth base sl) (cs : List ListCall) :
    InBounds (runCalls w cs sl) := by
  induction cs generalizing sl with
  | nil => exact inBounds_ok sl
  | cons call cs ih =>
    unfold SystemList.runCalls
    rcases h.call call with ⟨p, sl', hok, hw⟩ | herr
    · rw [hok]
      exact ih hw
    · rw [herr]
      exact inBounds_diverges

/-! ## Lists without an entry -/

/-- Every call looks into the bins of a list without systems. -/
theorem call_empty (hsys : sl.systems = []) (hbins : sl.bins = []) (call : ListCall) :
    call.run w sl = .error .outOfRange := by
  have hbody : sl.nextCandidate w = .error .outOfRange := by
    unfold nextCandidate retuneEntry binEntry
    simp [hbins, skipBins]
  have hnext : sl.getNextEntry w = .error .outOfRange := by
    simp only [getNextEntry, rounds, doWhile, hbody]
  cases call with
  | getNextEntry => exact hnext
  | getEntryByIndex index =>
    have ha : sl.Addressed := by
      intro i s hi
      rw [hsys] at hi
      cases hi
    rcases getEntryByIndex_cases (w := w) ha index with h | ⟨p, hp⟩
    · exact h.trans hnext
    · -- an index of an entry needs a system
      exfalso
      unfold getEntryByIndex at hp
      split at hp
      · split at hp
        · rw [hnext] at hp
          cases hp
        · simp [hsys] at hp
      · rw [hnext] at hp
        cases hp

/-- Systems without an entry: the only bin is empty, and `sortBins` asks it for
its centre. -/
theorem sortBins_no_entries (hf : sl.Fresh) (hsys : sl.systems ≠ [])
    (hnone : sl.allEntries = []) : sl.sortBins w bandwidth = .error .emptyBin := by
  have hsize : sl.size ≠ 0 := fun h => hsys (List.length_eq_zero_iff.mp h)
  have hcount := hf.addressed.no_short_system
  simp [sortBins, hsize, hcount, hnone, mergeSort, fillBins, hf.bins, EntryBin.empty]

/-- **The scan list in bounds.**  For what `populateFromFile` makes, any bandwidth
and any calls with any indices, nothing but existing elements is accessed just when
some system has an entry, or there is no system and no call. -/
theorem session_inBounds_iff {file : SystemsFile}
    (hload : SystemList.empty.populateFromFile w file = .ok sl) (bandwidth : Int)
    (cs : List ListCall) :
    InBounds (sl.session w bandwidth cs) ↔ sl.allEntries ≠ [] ∨ sl.systems = [] ∧ cs = [] := by
  have hf := populateFromFile_fresh fresh_empty hload
  unfold session
  by_cases hne : sl.allEntries = []
  · by_cases hsys : sl.systems = []
    · have hsort : sl.sortBins w bandwidth = .ok sl := by
        simp [sortBins, SystemList.size, hsys]
      rw [hsort]
      cases cs with
      | nil => simp [SystemList.runCalls, inBounds_ok, hsys]
      | cons call cs =>
        simp only [SystemList.runCalls, call_empty hsys hf.bins call]
        constructor
        · intro h
          cases h _ rfl
        · rintro (h | ⟨-, h⟩)
          · exact absurd hne h
          · cases h
    · rw [sortBins_no_entries hf hsys hne]
      constructor
      · intro h
        cases h _ rfl
      · rintro (h | ⟨h, -⟩)
        · exact absurd hne h
        · exact absurd h hsys
  · obtain ⟨bins, hsort, hbinned⟩ := sortBins_binned w bandwidth hf hne
    rw [hsort]
    have hwalk := hbinned.walking hne
    exact ⟨fun _ => .inl hne, fun _ => hwalk.runCalls cs⟩

/-- An index that is none, and the scan of one channel. -/
theorem session_oneChannel :
    ∃ sl, SystemList.empty.populateFromFile 64 (oneChannel 446006250).writeToFile = .ok sl ∧
      InBounds (sl.session 64 2048000 [.getEntryByIndex [7, -1], .getNextEntry]) := by
  have hload : SystemList.empty.populateFromFile 64 (oneChannel 446006250).writeToFile =
      .ok (oneChannel 446006250) := by rfl
  exact ⟨_, hload, (session_inBounds_iff hload 2048000 _).mpr (.inl (by decide))⟩

/-- One system without channels. -/
def noChannels : SystemList :=
  SystemList.empty.addSystem ((AnalogSystem.new "spare" false).setSysIndex 0)

/-- A system without channels has its empty bin asked for the centre; with no file
a stored index reads the first of no bins. -/
theorem session_out_of_bounds :
    (∃ sl, SystemList.empty.populateFromFile 64 noChannels.writeToFile = .ok sl ∧
      sl.session 64 2048000 [] = .error .emptyBin) ∧
    ∃ sl, SystemList.empty.populateFromFile 64 .absent = .ok sl ∧
      sl.session 64 2048000 [.getEntryByIndex [0, 0]] = .error .outOfRange :=
  ⟨⟨noChannels, rfl, rfl⟩, SystemList.empty, rfl, rfl⟩

end PiScan.Scan.SystemList

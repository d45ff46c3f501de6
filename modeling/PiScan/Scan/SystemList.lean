import PiScan.Lib.Carousel
import PiScan.Scan.Entry
import PiScan.Scan.MergeSort

/-!
# The scan list

`SystemList` of `scan/SystemList.h`: the systems, their entries sorted into
frequency bins, and the scan cursor (`binNum`, `entryNum`, `retune`).

An `EntryPtr` is a `shared_ptr` to an entry: either one that a system owns, or
an object of its own (a retune dummy, a manual entry).  Reading through a
pointer cannot fail; indexing a vector can, and then the model reports a
`Fault` where the C++ program has undefined behaviour.
-/

namespace PiScan.Scan

open TwosComplement Carousel

inductive EntryPtr
  | channel (sys pos : Nat)
  | owned (e : Entry)
  deriving DecidableEq, Repr, Inhabited

/-- `SystemList::EntryBin`. -/
structure EntryBin where
  entries : List EntryPtr
  lockedEntries : Nat
  deriving DecidableEq, Repr, Inhabited

namespace EntryBin

def empty : EntryBin := { entries := [], lockedEntries := 0 }

def size (b : EntryBin) : Nat := b.entries.length

def entriesLockedOut (b : EntryBin) : Bool := b.lockedEntries == b.size

/-- `if(locked) lockedEntries++; push_back(p);`. -/
def push (b : EntryBin) (p : EntryPtr) (locked : Bool) : EntryBin :=
  { entries := b.entries ++ [p]
    lockedEntries := if locked then b.lockedEntries + 1 else b.lockedEntries }

end EntryBin

structure SystemList where
  systems : List AnalogSystem
  bins : List EntryBin
  binNum : Nat
  entryNum : Nat
  retune : Bool
  deriving DecidableEq, Repr, Inhabited

namespace SystemList

def empty : SystemList := { systems := [], bins := [], binNum := 0, entryNum := 0, retune := true }

def size (sl : SystemList) : Nat := sl.systems.length

def addSystem (sl : SystemList) (system : AnalogSystem) : SystemList :=
  { sl with systems := sl.systems ++ [system] }

/-- The object behind a pointer. -/
def deref (sl : SystemList) : EntryPtr → Entry
  | .owned e => e
  | .channel i k => ((sl.systems[i]?).bind fun s => s.entries[k]?).getD default

/-- `entry->isLockedOut() || _systems[entry->getSysIndex()]->lockedOut()`. -/
def lockedOut (sl : SystemList) (p : EntryPtr) : Except Fault Bool :=
  if (sl.deref p).isLockedOut then .ok true
  else
    match sl.systems[(sl.deref p).sysIndex]? with
    | none => .error .outOfRange
    | some s => .ok s.lockedOut

/-! ## Sorting into bins -/

/-- The entries of `_systems[i]`, in order, as the two loops of `sortBins`
collect them. -/
def systemEntries (i : Nat) (s : AnalogSystem) : List EntryPtr :=
  (List.range s.size).map (.channel i)

def allEntries (sl : SystemList) : List EntryPtr :=
  sl.systems.zipIdx.flatMap fun (s, i) => systemEntries i s

/-- The comparison of `merge`: both frequencies as `long`. -/
def freqLe (w : Nat) (sl : SystemList) (a b : EntryPtr) : Bool :=
  wrap w (sl.deref a).freq ≤ wrap w (sl.deref b).freq

/-- `newBin->size() && freq >= (newBin->front()->freq() + bandwidth)`. -/
def startsNewBin (sl : SystemList) (bandwidth : Int) (newBin : EntryBin) (p : EntryPtr) : Bool :=
  match newBin.entries with
  | [] => false
  | front :: _ => wrap 64 ((sl.deref front).freq + bandwidth) ≤ (sl.deref p).freq

/-- The loop of `sortBins` over the sorted entries; the result lists `newBin`
and the bins made after it. -/
def fillBins (sl : SystemList) (bandwidth : Int) :
    EntryBin → List EntryPtr → Except Fault (List EntryBin)
  | newBin, [] => .ok [newBin]
  | newBin, p :: ps =>
    match sl.lockedOut p with
    | .error f => .error f
    | .ok locked =>
      if sl.startsNewBin bandwidth newBin p then
        match fillBins sl bandwidth (EntryBin.empty.push p locked) ps with
        | .error f => .error f
        | .ok bins => .ok (newBin :: bins)
      else fillBins sl bandwidth (newBin.push p locked) ps

/-- `EntryBin::getCenterFreq`, a `long`. -/
def getCenterFreq (w : Nat) (sl : SystemList) (b : EntryBin) : Except Fault Int :=
  match b.entries with
  | [] => .error .emptyBin
  | [front] => .ok (wrap w (sl.deref front).freq)
  | front :: second :: rest =>
    let back := (second :: rest).getLast (List.cons_ne_nil _ _)
    let range := wrap w (wrap 64 ((sl.deref back).freq + (sl.deref front).freq))
    .ok (range.tdiv 2)

/-- `SystemList::sortBins`; the last loop asks every bin for its centre. -/
def sortBins (w : Nat) (bandwidth : Int) (sl : SystemList) : Except Fault SystemList :=
  if sl.size = 0 then .ok sl
  else if sl.systems.any fun s => s.entries.length < s.size then .error .outOfRange
  else
    let entries := sl.allEntries
    let sorted := mergeSort (sl.freqLe w) entries.length entries 0 (entries.length - 1)
    match sl.fillBins bandwidth .empty sorted with
    | .error f => .error f
    | .ok bins =>
      if (sl.bins ++ bins).any fun b => b.entries.isEmpty then .error .emptyBin
      else .ok { sl with bins := sl.bins ++ bins }

/-! ## The scan cursor -/

/-- `for(;_bins[_binNum]->entriesLockedOut();_binNum = (_binNum + 1) % _bins.size());`
A round over all bins that finds every one locked never ends. -/
def skipBins : Nat → SystemList → Except Fault SystemList
  | 0, _ => .error .diverges
  | fuel + 1, sl =>
    match sl.bins[sl.binNum]? with
    | none => .error .outOfRange
    | some b =>
      if b.entriesLockedOut then
        skipBins fuel { sl with binNum := (sl.binNum + 1) % sl.bins.length }
      else .ok sl

/-- The first branch of `getNextEntry`: the dummy in front of a bin. -/
def retuneEntry (w : Nat) (sl : SystemList) : Except Fault (EntryPtr × SystemList) :=
  match skipBins (sl.bins.length + 1) { sl with retune := false } with
  | .error f => .error f
  | .ok sl =>
    match sl.bins[sl.binNum]? with
    | none => .error .outOfRange
    | some b =>
      match sl.getCenterFreq w b with
      | .error f => .error f
      | .ok center => .ok (.owned (Entry.dummyChannel w center), sl)

/-- The second branch of `getNextEntry`: the entry under the cursor. -/
def binEntry (sl : SystemList) : Except Fault (EntryPtr × SystemList) :=
  match sl.bins[sl.binNum]? with
  | none => .error .outOfRange
  | some b =>
    match b.entries[sl.entryNum]? with
    | none => .error .outOfRange
    | some entry =>
      let entryNum := (sl.entryNum + 1) % b.size
      if entryNum = 0 then
        .ok (entry,
          { sl with entryNum, binNum := (sl.binNum + 1) % sl.bins.length, retune := true })
      else .ok (entry, { sl with entryNum })

/-- The body of the `do` loop of `getNextEntry`. -/
def nextCandidate (w : Nat) (sl : SystemList) : Except Fault (EntryPtr × SystemList) :=
  if sl.entryNum = 0 ∧ sl.retune then sl.retuneEntry w else sl.binEntry

/-- One round of the loop for each entry and each bin, and one more. -/
def rounds (sl : SystemList) : Nat := (sl.bins.map fun b => b.size + 1).sum + 1

/-- `SystemList::getNextEntry`: the `do` loop over the candidates, while the
candidate or its system is locked out. -/
def getNextEntry (w : Nat) (sl : SystemList) : Except Fault (EntryPtr × SystemList) :=
  doWhile .diverges (nextCandidate w) lockedOut sl.rounds sl

/-- `SystemList::getEntryByIndex`. -/
def getEntryByIndex (w : Nat) (index : List Int) (sl : SystemList) :
    Except Fault (EntryPtr × SystemList) :=
  match index with
  | i :: k :: _ =>
    if i < 0 ∨ k < 0 ∨ (sl.size : Int) ≤ i then sl.getNextEntry w
    else
      match sl.systems[i.toNat]? with
      | none => .error .outOfRange
      | some s =>
        if (s.size : Int) ≤ k then sl.getNextEntry w
        else if k.toNat < s.entries.length then .ok (.channel i.toNat k.toNat, sl)
        else .error .outOfRange
  | _ => sl.getNextEntry w

/-! ## Well addressed lists -/

/-- Every system and every entry knows its own position. -/
def Addressed (sl : SystemList) : Prop :=
  ∀ (i : Nat) (s : AnalogSystem), sl.systems[i]? = some s → s.Addressed i

/-- A list as `populateFromFile` leaves it: addressed, not sorted yet, the
cursor at its start. -/
structure Fresh (sl : SystemList) : Prop where
  addressed : sl.Addressed
  bins : sl.bins = []
  binNum : sl.binNum = 0
  entryNum : sl.entryNum = 0
  retune : sl.retune = true

theorem fresh_empty : empty.Fresh :=
  ⟨fun i s h => by simp [empty] at h, rfl, rfl, rfl, rfl⟩

theorem Fresh.addSystem {sl : SystemList} (h : sl.Fresh) {s : AnalogSystem}
    (hs : s.Addressed sl.size) : (sl.addSystem s).Fresh := by
  refine ⟨?_, h.bins, h.binNum, h.entryNum, h.retune⟩
  intro i t ht
  simp only [SystemList.addSystem] at ht
  rcases Nat.lt_trichotomy i sl.systems.length with hlt | heq | hgt
  · rw [List.getElem?_append_left hlt] at ht
    exact h.addressed i t ht
  · subst heq
    simp only [List.getElem?_concat_length, Option.some.injEq] at ht
    subst ht
    exact hs
  · rw [List.getElem?_eq_none (by simp; omega)] at ht
    cases ht

end SystemList

end PiScan.Scan

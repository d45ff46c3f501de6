import PiScan.Lib.Run
import PiScan.Scan.Partition
import PiScan.Scan.Stock

/-!
# The lock counters of the bins

`sortBins` counts the locked entries of each bin once; `Entry::lockout` and
`RadioSystem::lockout` change the locks later and know nothing of the bins.

* `LockStep.countsTrue_iff`: a call keeps the counters right just when no entry
  gains or loses a lock through it;
* `countsHold_iff`: so they are right in every state of a run if and only if
  every lockout after `sortBins` is harmless.
-/

namespace PiScan.Scan.SystemList

open Runs

/-! ## The calls -/

/-- `lockout(val)` of an entry that system `i` holds at `k`. -/
def lockEntry (i k : Nat) (val : Bool) (sl : SystemList) : SystemList :=
  { sl with
    systems := sl.systems.modify i fun s =>
      { s with entries := s.entries.modify k (Entry.setLockout val) } }

/-- `lockout(val)` of system `i`. -/
def lockSystem (i : Nat) (val : Bool) (sl : SystemList) : SystemList :=
  { sl with systems := sl.systems.modify i (AnalogSystem.setLockout val) }

inductive LockCall
  | sortBins
  | entryLockout (i k : Nat) (val : Bool)
  | systemLockout (i : Nat) (val : Bool)
  | getNextEntry
  deriving DecidableEq, Repr

/-- A call that returns.  `sortBins` runs once, on a list without bins. -/
inductive LockStep (bandwidth : Int) : SystemList → LockCall → SystemList → Prop
  | sortBins {sl sl' : SystemList} (hbins : sl.bins = [])
      (h : sl.sortBins 64 bandwidth = .ok sl') : LockStep bandwidth sl .sortBins sl'
  | entryLockout {sl : SystemList} {i k : Nat} {s : AnalogSystem} {e : Entry}
      (h : sl.Holds i k s e) (val : Bool) :
      LockStep bandwidth sl (.entryLockout i k val) (sl.lockEntry i k val)
  | systemLockout {sl : SystemList} {i : Nat} {s : AnalogSystem} (h : sl.systems[i]? = some s)
      (val : Bool) : LockStep bandwidth sl (.systemLockout i val) (sl.lockSystem i val)
  | getNextEntry {sl sl' : SystemList} {p : EntryPtr} (h : sl.getNextEntry 64 = .ok (p, sl')) :
      LockStep bandwidth sl .getNextEntry sl'

/-! ## What the counters promise -/

/-- Every bin counts its entries that cannot be scanned now. -/
def CountsTrue (sl : SystemList) : Prop :=
  ∀ b ∈ sl.bins, b.lockedEntries = b.entries.countP fun p => !sl.isScannable p

/-- The counters are right; a bin is passed over just when nothing in it can be
scanned, and an entry that can be scanned is in a bin that is not. -/
structure CountsHold (sl : SystemList) : Prop where
  counts : sl.CountsTrue
  lockedOut : ∀ b ∈ sl.bins,
    b.entriesLockedOut = true ↔ ∀ p ∈ b.entries, sl.isScannable p = false
  reached : sl.bins ≠ [] → ∀ p, sl.isScannable p = true →
    ∃ b ∈ sl.bins, p ∈ b.entries ∧ b.entriesLockedOut = false

/-- A lockout before `sortBins`, or one that changes for no entry whether it can
be scanned. -/
def Harmless (sl : SystemList) : LockCall → Prop
  | .sortBins => True
  | .entryLockout i k val =>
    sl.bins = [] ∨ ∀ s e, sl.Holds i k s e → e.isLockedOut = val ∨ s.lockedOut = true
  | .systemLockout i val =>
    sl.bins = [] ∨ ∀ s, sl.systems[i]? = some s →
      s.lockedOut = val ∨ ∀ e ∈ s.entries, e.isLockedOut = true
  | .getNextEntry => True

/-! ## A list that was sorted at most once -/

/-- The list before `sortBins`, or its bins hold all entries. -/
structure Sorted (sl : SystemList) : Prop where
  addressed : sl.Addressed
  perm : sl.Fresh ∨
    (sl.bins ≠ [] ∧ (sl.bins.flatMap EntryBin.entries).Perm sl.allEntries)

theorem Sorted.mem_bin {sl : SystemList} (h : sl.Sorted) (hne : sl.bins ≠ []) {p : EntryPtr} :
    p ∈ sl.allEntries ↔ ∃ b ∈ sl.bins, p ∈ b.entries := by
  rcases h.perm with hf | ⟨-, hperm⟩
  · exact absurd hf.bins hne
  · rw [← hperm.mem_iff, List.mem_flatMap]

theorem countsHold_iff_countsTrue {sl : SystemList} (h : sl.Sorted) :
    sl.CountsHold ↔ sl.CountsTrue := by
  constructor
  · intro hc
    exact hc.counts
  · intro hc
    have hlocked : ∀ b ∈ sl.bins,
        b.entriesLockedOut = true ↔ ∀ p ∈ b.entries, sl.isScannable p = false := by
      intro b hb
      simp [EntryBin.entriesLockedOut, EntryBin.size, hc b hb]
    refine ⟨hc, hlocked, ?_⟩
    intro hne p hp
    obtain ⟨b, hb, hpb⟩ := (h.mem_bin hne).mp (mem_allEntries_of_scannable h.addressed hp)
    refine ⟨b, hb, hpb, ?_⟩
    by_contra hopen
    have hno := (hlocked b hb).mp (by simpa using hopen) p hpb
    rw [hp] at hno
    cases hno

/-- Two counts of which one includes the other are equal just when they count
the same elements. -/
theorem countP_eq_iff_of_imp {α : Type} {l : List α} {P Q : α → Bool}
    (h : ∀ x ∈ l, P x = true → Q x = true) :
    l.countP P = l.countP Q ↔ ∀ x ∈ l, P x = Q x := by
  induction l with
  | nil => simp
  | cons x l ih =>
    have htail : ∀ y ∈ l, P y = true → Q y = true := fun y hy => h y (List.mem_cons_of_mem x hy)
    have hle : l.countP P ≤ l.countP Q := List.countP_mono_left htail
    have hx := h x (List.mem_cons_self ..)
    have ih := ih htail
    simp only [List.countP_cons, List.forall_mem_cons]
    cases hP : P x with
    | true => simp [hx hP, ih]
    | false =>
      cases hQ : Q x with
      | false => simp [ih]
      | true =>
        simp only [Bool.false_eq_true, ↓reduceIte, Bool.false_eq_true, false_and, iff_false]
        omega

/-- **The counters after a change of the locks** in one direction. -/
theorem countsTrue_iff_unchanged {sl sl' : SystemList} (h : sl.Sorted) (hne : sl.bins ≠ [])
    (hc : sl.CountsTrue) (hbins : sl'.bins = sl.bins)
    (hdir : (∀ p, sl.isScannable p = true → sl'.isScannable p = true) ∨
      ∀ p, sl'.isScannable p = true → sl.isScannable p = true) :
    sl'.CountsTrue ↔ ∀ p ∈ sl.allEntries, sl'.isScannable p = sl.isScannable p := by
  have hbin : ∀ b : EntryBin,
      ((b.entries.countP fun p => !sl.isScannable p) =
          b.entries.countP fun p => !sl'.isScannable p) ↔
        ∀ p ∈ b.entries, sl'.isScannable p = sl.isScannable p := by
    intro b
    rcases hdir with hup | hdown
    · rw [eq_comm, countP_eq_iff_of_imp]
      · simp
      · intro p _ hp
        have hmono := hup p
        cases hs : sl.isScannable p <;> simp_all
    · rw [countP_eq_iff_of_imp]
      · simp [eq_comm]
      · intro p _ hp
        have hmono := hdown p
        cases hs : sl'.isScannable p <;> simp_all
  unfold CountsTrue
  rw [hbins]
  constructor
  · intro hc' p hp
    obtain ⟨b, hb, hpb⟩ := (h.mem_bin hne).mp hp
    exact (hbin b).mp ((hc b hb).symm.trans (hc' b hb)) p hpb
  · intro hsame b hb
    rw [hc b hb, hbin b]
    intro p hp
    exact hsame p ((h.mem_bin hne).mpr ⟨b, hb, hp⟩)

/-! ## One lockout -/

theorem Holds.unique {sl : SystemList} {i k : Nat} {s s' : AnalogSystem} {e e' : Entry}
    (h : sl.Holds i k s e) (h' : sl.Holds i k s' e') : s = s' ∧ e = e' := by
  obtain rfl : s = s' := Option.some.inj (h.1.symm.trans h'.1)
  exact ⟨rfl, Option.some.inj (h.2.symm.trans h'.2)⟩

theorem isLockedOut_setLockout (val : Bool) (e : Entry) :
    (e.setLockout val).isLockedOut = val := by
  cases val <;> rfl

theorem isScannable_lockEntry {sl : SystemList} {i k : Nat} {s : AnalogSystem} {e : Entry}
    (h : sl.Holds i k s e) (val : Bool) (p : EntryPtr) :
    (sl.lockEntry i k val).isScannable p =
      if p = .channel i k then !val && !s.lockedOut else sl.isScannable p := by
  obtain ⟨hs, he⟩ := h
  cases p with
  | owned e => simp [isScannable]
  | channel j m =>
    by_cases hj : j = i
    · subst hj
      by_cases hm : m = k
      · subst hm
        simp [isScannable, lockEntry, List.getElem?_modify_eq, hs, he, isLockedOut_setLockout,
          AnalogSystem.lockedOut]
      · have hne : (EntryPtr.channel j m = .channel j k) = False := by simp [hm]
        simp [isScannable, lockEntry, List.getElem?_modify_eq, hs, hm,
          List.getElem?_modify_ne _ _ (Ne.symm hm), AnalogSystem.lockedOut]
    · simp [isScannable, lockEntry, hj, List.getElem?_modify_ne _ _ (Ne.symm hj)]

theorem isScannable_lockSystem {sl : SystemList} {i : Nat} {s : AnalogSystem}
    (h : sl.systems[i]? = some s) (val : Bool) (j k : Nat) :
    (sl.lockSystem i val).isScannable (.channel j k) =
      if j = i then (s.entries[k]?.elim false fun e => !e.isLockedOut && !val)
      else sl.isScannable (.channel j k) := by
  by_cases hj : j = i
  · subst hj
    cases he : s.entries[k]? with
    | none => simp [isScannable, lockSystem, h, AnalogSystem.setLockout, he]
    | some e =>
      simp [isScannable, lockSystem, h, AnalogSystem.setLockout, he, AnalogSystem.lockedOut]
  · simp [isScannable, lockSystem, hj, List.getElem?_modify_ne _ _ (Ne.symm hj)]

theorem isScannable_channel_of_system {sl : SystemList} {i : Nat} {s : AnalogSystem}
    (h : sl.systems[i]? = some s) (k : Nat) :
    sl.isScannable (.channel i k) =
      s.entries[k]?.elim false fun e => !e.isLockedOut && !s.lockedOut := by
  cases he : s.entries[k]? <;> simp [isScannable, h, he]

/-- An entry lockout works in one direction. -/
theorem lockEntry_direction {sl : SystemList} {i k : Nat} {s : AnalogSystem} {e : Entry}
    (h : sl.Holds i k s e) (val : Bool) :
    (∀ p, sl.isScannable p = true → (sl.lockEntry i k val).isScannable p = true) ∨
      ∀ p, (sl.lockEntry i k val).isScannable p = true → sl.isScannable p = true := by
  simp only [isScannable_lockEntry h]
  cases val with
  | true =>
    right
    intro p
    by_cases hp : p = .channel i k <;> simp [hp]
  | false =>
    left
    intro p hp
    by_cases hpe : p = .channel i k
    · subst hpe
      rw [isScannable_channel h] at hp
      simp_all
    · simp [hpe, hp]

/-- So does a system lockout. -/
theorem lockSystem_direction {sl : SystemList} {i : Nat} {s : AnalogSystem}
    (h : sl.systems[i]? = some s) (val : Bool) :
    (∀ p, sl.isScannable p = true → (sl.lockSystem i val).isScannable p = true) ∨
      ∀ p, (sl.lockSystem i val).isScannable p = true → sl.isScannable p = true := by
  cases val with
  | true =>
    right
    intro p hp
    cases p with
    | owned e => exact hp
    | channel j k =>
      rw [isScannable_lockSystem h] at hp
      by_cases hj : j = i
      · cases he : s.entries[k]? <;> simp [hj, he] at hp
      · simpa [hj] using hp
  | false =>
    left
    intro p hp
    cases p with
    | owned e => exact hp
    | channel j k =>
      rw [isScannable_lockSystem h]
      by_cases hj : j = i
      · subst hj
        rw [isScannable_channel_of_system h] at hp
        cases he : s.entries[k]? <;> simp_all
      · simpa [hj] using hp

/-- **A harmless entry lockout** changes for no entry whether it can be scanned. -/
theorem lockEntry_unchanged_iff {sl : SystemList} (ha : sl.Addressed) {i k : Nat}
    {s : AnalogSystem} {e : Entry} (h : sl.Holds i k s e) (val : Bool) :
    (∀ p ∈ sl.allEntries, (sl.lockEntry i k val).isScannable p = sl.isScannable p) ↔
      e.isLockedOut = val ∨ s.lockedOut = true := by
  simp only [isScannable_lockEntry h]
  constructor
  · intro hall
    have hp := hall (.channel i k) ((mem_allEntries ha).mpr ⟨i, k, s, e, rfl, h⟩)
    rw [if_pos rfl, isScannable_channel h] at hp
    cases hl : s.lockedOut with
    | true => exact .inr rfl
    | false =>
      left
      simpa [hl, eq_comm] using hp
  · intro hharm p _
    by_cases hp : p = .channel i k
    · subst hp
      rw [if_pos rfl, isScannable_channel h]
      rcases hharm with rfl | hl
      · rfl
      · simp [hl]
    · rw [if_neg hp]

/-- **A harmless system lockout** likewise. -/
theorem lockSystem_unchanged_iff {sl : SystemList} (ha : sl.Addressed) {i : Nat}
    {s : AnalogSystem} (h : sl.systems[i]? = some s) (val : Bool) :
    (∀ p ∈ sl.allEntries, (sl.lockSystem i val).isScannable p = sl.isScannable p) ↔
      s.lockedOut = val ∨ ∀ e ∈ s.entries, e.isLockedOut = true := by
  constructor
  · intro hall
    by_cases hl : s.lockedOut = val
    · exact .inl hl
    · right
      intro e he
      obtain ⟨k, hk⟩ := List.mem_iff_getElem?.mp he
      have hp := hall (.channel i k) ((mem_allEntries ha).mpr ⟨i, k, s, e, rfl, h, hk⟩)
      rw [isScannable_lockSystem h, if_pos rfl, isScannable_channel ⟨h, hk⟩] at hp
      cases he : e.isLockedOut with
      | true => rfl
      | false =>
        -- an entry without a lock of its own follows its system
        simp only [hk, Option.elim_some, he, Bool.not_false, Bool.true_and] at hp
        exact absurd (Bool.not_inj hp).symm hl
  · intro hharm p hp
    obtain ⟨j, k, s', e, rfl, hs', he⟩ := (mem_allEntries ha).mp hp
    rw [isScannable_lockSystem h]
    by_cases hj : j = i
    · subst hj
      obtain rfl : s = s' := Option.some.inj (h.symm.trans hs')
      rw [if_pos rfl, isScannable_channel ⟨h, he⟩, he, Option.elim_some]
      rcases hharm with rfl | hlocked
      · rfl
      · simp [hlocked e (List.mem_of_getElem? he)]
    · rw [if_neg hj]

/-! ## What the calls leave alone -/

/-- A change to one system that keeps its size keeps the list of entries. -/
theorem allEntries_modify (sl : SystemList) (i : Nat) {f : AnalogSystem → AnalogSystem}
    (hf : ∀ s, (f s).size = s.size) :
    ({ sl with systems := sl.systems.modify i f } : SystemList).allEntries = sl.allEntries := by
  have hsizes : (sl.systems.modify i f).map AnalogSystem.size =
      sl.systems.map AnalogSystem.size := by
    apply List.ext_getElem?
    intro j
    simp only [List.getElem?_map, List.getElem?_modify]
    cases sl.systems[j]? with
    | none => rfl
    | some s => by_cases hj : i = j <;> simp [hj, hf]
  have hall : ∀ systems : List AnalogSystem,
      (systems.zipIdx.flatMap fun p => systemEntries p.2 p.1) =
        (systems.map AnalogSystem.size).zipIdx.flatMap fun p =>
          (List.range p.1).map (.channel p.2) := by
    intro systems
    rw [List.zipIdx_map, List.flatMap_map]
    rfl
  show (sl.systems.modify i f).zipIdx.flatMap (fun p => systemEntries p.2 p.1) =
    sl.systems.zipIdx.flatMap fun p => systemEntries p.2 p.1
  rw [hall, hall, hsizes]

theorem addressed_modify {sl : SystemList} (ha : sl.Addressed) (i : Nat)
    {f : AnalogSystem → AnalogSystem} (hf : ∀ s, s.Addressed i → (f s).Addressed i) :
    ({ sl with systems := sl.systems.modify i f } : SystemList).Addressed := by
  intro j s hs
  simp only [List.getElem?_modify] at hs
  cases hj : sl.systems[j]? with
  | none => simp [hj] at hs
  | some t =>
    have ht := ha j t hj
    by_cases hij : i = j
    · subst hij
      obtain rfl : f t = s := by simpa [hj] using hs
      exact hf t ht
    · obtain rfl : t = s := by simpa [hj, hij] using hs
      exact ht

theorem addressed_entry_setLockout {i k : Nat} (val : Bool) (s : AnalogSystem)
    (h : s.Addressed i) :
    ({ s with entries := s.entries.modify k (Entry.setLockout val) } : AnalogSystem).Addressed i := by
  have hmod : ∀ (m : Nat) (e : Entry), (s.entries.modify k (Entry.setLockout val))[m]? = some e →
      ∃ e₀, s.entries[m]? = some e₀ ∧ (e = e₀ ∨ e = e₀.setLockout val) := by
    intro m e he
    simp only [List.getElem?_modify] at he
    cases hm : s.entries[m]? with
    | none => simp [hm] at he
    | some e₀ =>
      refine ⟨e₀, rfl, ?_⟩
      by_cases hk : k = m
      · exact .inr (by simpa [hm, hk, eq_comm] using he)
      · exact .inl (by simpa [hm, hk, eq_comm] using he)
  constructor
  case sysIndex => exact h.sysIndex
  case numEntries =>
    rw [List.length_modify]
    exact h.numEntries
  case channels =>
    intro e he
    obtain ⟨m, hm⟩ := List.mem_iff_getElem?.mp he
    obtain ⟨e₀, he₀, heq⟩ := hmod m e hm
    have hd := h.channels e₀ (List.mem_of_getElem? he₀)
    rcases heq with rfl | rfl
    · exact hd
    · exact hd
  case entries =>
    intro m e hm
    obtain ⟨e₀, he₀, heq⟩ := hmod m e hm
    have hidx := h.entries m e₀ he₀
    rcases heq with rfl | rfl
    · exact hidx
    · exact hidx

theorem addressed_setLockout {i : Nat} (val : Bool) (s : AnalogSystem) (h : s.Addressed i) :
    (s.setLockout val).Addressed i :=
  ⟨h.sysIndex, h.numEntries, h.channels, h.entries⟩

theorem Sorted.modify {sl : SystemList} (h : sl.Sorted) (i : Nat)
    {f : AnalogSystem → AnalogSystem} (hsize : ∀ s, (f s).size = s.size)
    (hf : ∀ s, s.Addressed i → (f s).Addressed i) :
    ({ sl with systems := sl.systems.modify i f } : SystemList).Sorted := by
  have ha := addressed_modify h.addressed i hf
  refine ⟨ha, ?_⟩
  rcases h.perm with hfresh | ⟨hne, hperm⟩
  · exact .inl ⟨ha, hfresh.bins, hfresh.binNum, hfresh.entryNum, hfresh.retune⟩
  · refine .inr ⟨hne, ?_⟩
    rw [allEntries_modify sl i hsize]
    exact hperm

/-- Without bins `getNextEntry` indexes an empty vector. -/
theorem getNextEntry_fresh {sl : SystemList} (hf : sl.Fresh) :
    sl.getNextEntry 64 = .error .outOfRange := by
  simp [getNextEntry, rounds, hf.bins, Carousel.doWhile, nextCandidate, hf.entryNum, hf.retune,
    retuneEntry, skipBins]

/-! ## One call -/

variable {bandwidth : Int} {sl sl' : SystemList} {call : LockCall}

theorem LockStep.sorted (hstep : LockStep bandwidth sl call sl') (h : sl.Sorted) : sl'.Sorted := by
  cases hstep with
  | sortBins hbins hsort =>
    have hf : sl.Fresh := h.perm.resolve_right fun hne => hne.1 hbins
    rcases sortBins_cases hf hsort with ⟨-, rfl⟩ | ⟨hne, hbinned, hsys⟩
    · exact h
    · have hall : sl'.allEntries ≠ [] := by rwa [allEntries_congr hsys]
      exact ⟨hbinned.addressed, .inr ⟨hbinned.bins_ne_nil hall, hbinned.perm⟩⟩
  | entryLockout hholds val =>
    exact h.modify _ (fun _ => rfl) (addressed_entry_setLockout val)
  | systemLockout hs val =>
    exact h.modify _ (fun _ => rfl) (addressed_setLockout val)
  | getNextEntry hnext =>
    rcases h.perm with hf | ⟨hne, hperm⟩
    · rw [getNextEntry_fresh hf] at hnext
      cases hnext
    · have hsame := (getNextEntry_offers hnext).1
      refine ⟨?_, .inr ⟨?_, ?_⟩⟩
      · unfold Addressed
        rw [hsame.systems]
        exact h.addressed
      · rw [hsame.bins]
        exact hne
      · rw [hsame.bins, allEntries_congr hsame.systems]
        exact hperm

/-- **One call** keeps the counters right just when it is harmless. -/
theorem LockStep.countsTrue_iff (hstep : LockStep bandwidth sl call sl') (h : sl.Sorted)
    (hc : sl.CountsTrue) : sl'.CountsTrue ↔ sl.Harmless call := by
  cases hstep with
  | sortBins hbins hsort =>
    have hf : sl.Fresh := h.perm.resolve_right fun hne => hne.1 hbins
    simp only [Harmless, iff_true]
    rcases sortBins_cases hf hsort with ⟨-, rfl⟩ | ⟨-, hbinned, -⟩
    · exact hc
    · intro b hb
      exact (hbinned.binOk b hb).count
  | @entryLockout i k s e hholds val =>
    by_cases hbins : sl.bins = []
    · have hc' : (sl.lockEntry i k val).CountsTrue := by
        intro b hb
        have hnil : (sl.lockEntry i k val).bins = [] := hbins
        simp [hnil] at hb
      simp [Harmless, hbins, hc']
    · have hsame : (sl.lockEntry i k val).bins = sl.bins := rfl
      rw [countsTrue_iff_unchanged h hbins hc hsame (lockEntry_direction hholds val),
        lockEntry_unchanged_iff h.addressed hholds]
      constructor
      · intro hharm
        refine .inr ?_
        intro s' e' hholds'
        obtain ⟨rfl, rfl⟩ := hholds.unique hholds'
        exact hharm
      · intro hharm
        exact hharm.resolve_left hbins s e hholds
  | @systemLockout i s hs val =>
    by_cases hbins : sl.bins = []
    · have hc' : (sl.lockSystem i val).CountsTrue := by
        intro b hb
        have hnil : (sl.lockSystem i val).bins = [] := hbins
        simp [hnil] at hb
      simp [Harmless, hbins, hc']
    · have hsame : (sl.lockSystem i val).bins = sl.bins := rfl
      rw [countsTrue_iff_unchanged h hbins hc hsame (lockSystem_direction hs val),
        lockSystem_unchanged_iff h.addressed hs]
      simp [Harmless, hbins, hs]
  | getNextEntry hnext =>
    have hsame := (getNextEntry_offers hnext).1
    simp only [Harmless, iff_true]
    intro b hb
    rw [hsame.bins] at hb
    rw [hc b hb]
    simp only [isScannable_congr hsame.systems]

/-- A call has one result. -/
theorem LockStep.unique (s : SystemList) (call : LockCall) (t t' : SystemList)
    (h : LockStep bandwidth s call t) (h' : LockStep bandwidth s call t') : t = t' := by
  cases h with
  | sortBins _ h =>
    cases h' with
    | sortBins _ h' => exact Except.ok.inj (h.symm.trans h')
  | entryLockout _ val =>
    cases h'
    rfl
  | systemLockout _ val =>
    cases h'
    rfl
  | getNextEntry h =>
    cases h' with
    | getNextEntry h' => exact congrArg Prod.snd (Except.ok.inj (h.symm.trans h'))

/-- **The lock counters stay true** in every state of a run from a loaded list
if and only if every lockout of the run is harmless. -/
theorem countsHold_iff (hf : sl.Fresh) {calls : List LockCall}
    (hrun : Run (LockStep bandwidth) sl calls sl') :
    Throughout (LockStep bandwidth) CountsHold sl calls ↔
      Run (Guarded (LockStep bandwidth) Harmless) sl calls sl' := by
  have hsorted : sl.Sorted := ⟨hf.addressed, .inl hf⟩
  have hstart : sl.CountsTrue := by
    intro b hb
    simp [hf.bins] at hb
  apply hrun.throughout_iff LockStep.unique (I := Sorted) ?_ ?_ hsorted
  · exact (countsHold_iff_countsTrue hsorted).mpr hstart
  · intro s call t hs hstep
    exact hstep.sorted hs
  · intro s call t hs hc hstep
    rw [countsHold_iff_countsTrue (hstep.sorted hs)]
    exact hstep.countsTrue_iff hs hc.counts

/-- One FM channel, sorted into one bin. -/
def oneChannel : SystemList := fmSystem 64 [446006250]

def oneBin : SystemList :=
  { oneChannel with bins := [{ entries := [.channel 0 0], lockedEntries := 0 }] }

theorem sortBins_oneChannel (bandwidth : Int) :
    LockStep bandwidth oneChannel .sortBins oneBin :=
  .sortBins rfl rfl

theorem holds_oneBin : ∃ s e, oneBin.Holds 0 0 s e ∧ e.isLockedOut = false :=
  ⟨_, Entry.fmChannel 64 446006250 "car" false 0, ⟨rfl, rfl⟩, rfl⟩

theorem countsHold_oneChannel : ∃ last,
    Run (LockStep 2048000) oneChannel [.sortBins, .entryLockout 0 0 false] last ∧
      Throughout (LockStep 2048000) CountsHold oneChannel
        [.sortBins, .entryLockout 0 0 false] := by
  obtain ⟨s, e, hholds, hopen⟩ := holds_oneBin
  have hrun : Run (LockStep 2048000) oneChannel [.sortBins, .entryLockout 0 0 false]
      (oneBin.lockEntry 0 0 false) :=
    .cons (sortBins_oneChannel _) (.cons (.entryLockout hholds false) (.nil _))
  refine ⟨_, hrun, (countsHold_iff (fresh_fmSystem 64 _) hrun).mpr ?_⟩
  refine .cons ⟨sortBins_oneChannel _, trivial⟩ (.cons ⟨.entryLockout hholds false, ?_⟩ (.nil _))
  -- the entry was not locked out before either
  right
  intro s' e' hholds'
  obtain ⟨rfl, rfl⟩ := hholds.unique hholds'
  exact .inl hopen

/-- The channel is locked out after it was counted. -/
theorem counts_wrong_oneChannel : ∃ last,
    Run (LockStep 2048000) oneChannel [.sortBins, .entryLockout 0 0 true] last ∧
      ¬last.CountsHold := by
  obtain ⟨s, e, hholds, -⟩ := holds_oneBin
  refine ⟨oneBin.lockEntry 0 0 true,
    .cons (sortBins_oneChannel _) (.cons (.entryLockout hholds true) (.nil _)), ?_⟩
  intro h
  exact absurd (h.counts _ (List.mem_singleton_self _)) (by decide)

end PiScan.Scan.SystemList

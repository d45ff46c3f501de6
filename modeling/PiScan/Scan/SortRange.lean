import PiScan.Scan.Partition

/-!
# The sort of a range, cell by cell

`SystemList::merge` and `SystemList::mergeSort` of `scan/SystemList.cpp` as the
code indexes: the three cursors `i`, `j` and `k`, every read and every write of
an array at an index that may lie outside it, and the loops and the recursion
without a bound on their number of rounds.  The indices are unbounded: the code
computes none above `r + 1`, and does not use that one.

* `InPlace.merge_eq`, `InPlace.mergeSort_eq`: on a range inside the array no
  index is out of range, and the result is the one of `merge` and `mergeSort`;
* `mergeSort_sortsRange`: the sort changes nothing outside its range and leaves
  the range permuted, in the order of the frequencies, and stably so.
-/

namespace PiScan.Scan

open TwosComplement

namespace InPlace

variable {α : Type} (le : α → α → Bool)

/-! ## The code -/

/-- `xs[i]` as a value. -/
def read (xs : List α) (i : Int) : Except Fault α :=
  if i < 0 then .error .outOfRange
  else
    match xs[i.toNat]? with
    | none => .error .outOfRange
    | some x => .ok x

/-- `xs[i] = x`. -/
def write (xs : List α) (i : Int) (x : α) : Except Fault (List α) :=
  if i < 0 ∨ xs.length ≤ i then .error .outOfRange else .ok (xs.set i.toNat x)

/-- `for (i = 0; i < n; i++) L[i] = arr[first + i];` for a new array `L` of `n`
cells. -/
def copyOut (arr : List α) (first : Int) : Nat → Except Fault (List α)
  | 0 => .ok []
  | n + 1 => do
    let x ← read arr first
    let L ← copyOut arr (first + 1) n
    .ok (x :: L)

/-- `while (i < n1 && j < n2)`: the cursors and the array behind the loop. -/
def mergeBoth (L R : List α) (i j k : Int) (arr : List α) :
    Except Fault (Int × Int × Int × List α) :=
  if i < L.length ∧ j < R.length then do
    let a ← read L i
    let b ← read R j
    if le a b then
      let arr ← write arr k a
      mergeBoth L R (i + 1) j (k + 1) arr
    else
      let arr ← write arr k b
      mergeBoth L R i (j + 1) (k + 1) arr
  else .ok (i, j, k, arr)
termination_by (L.length - i).toNat + (R.length - j).toNat

/-- `while (i < n)`, which copies what remains of one of the temporary arrays:
the cursor `k` and the array behind the loop. -/
def copyRest (xs : List α) (i k : Int) (arr : List α) : Except Fault (Int × List α) :=
  if i < xs.length then do
    let x ← read xs i
    let arr ← write arr k x
    copyRest xs (i + 1) (k + 1) arr
  else .ok (k, arr)
termination_by (xs.length - i).toNat

/-- The two loops over the remaining elements of `L` and of `R`. -/
def copyRests (L R : List α) (i j k : Int) (arr : List α) : Except Fault (List α) := do
  let (k, arr) ← copyRest L i k arr
  let (_, arr) ← copyRest R j k arr
  .ok arr

/-- The three loops of `merge`, from any place of the cursors. -/
def mergeLoops (L R : List α) (i j k : Int) (arr : List α) : Except Fault (List α) := do
  let (i, j, k, arr) ← mergeBoth le L R i j k arr
  copyRests L R i j k arr

/-- `SystemList::merge`. -/
def merge (arr : List α) (l m r : Int) : Except Fault (List α) := do
  let n1 := m - l + 1
  let n2 := r - m
  let L ← copyOut arr l n1.toNat
  let R ← copyOut arr (m + 1) n2.toNat
  mergeLoops le L R 0 0 l arr

/-- `SystemList::mergeSort`. -/
def mergeSort (arr : List α) (l r : Int) : Except Fault (List α) :=
  if l < r then do
    let m := l + (r - l) / 2
    let arr ← mergeSort arr l m
    let arr ← mergeSort arr (m + 1) r
    merge le arr l m r
  else .ok arr
termination_by (r - l).toNat

/-! ## Cells inside the array -/

theorem read_eq {xs : List α} {i : Nat} (hi : i < xs.length) : read xs i = .ok xs[i] := by
  have hneg : ¬ (i : Int) < 0 := by omega
  simp only [read, if_neg hneg, Int.toNat_natCast, List.getElem?_eq_getElem hi]

theorem write_eq {xs : List α} {k : Nat} (hk : k < xs.length) (x : α) :
    write xs k x = .ok (xs.set k x) := by
  have hin : ¬ ((k : Int) < 0 ∨ (xs.length : Int) ≤ k) := by omega
  simp only [write, if_neg hin, Int.toNat_natCast]

theorem copyOut_eq {arr : List α} {first : Nat} (n : Nat) (h : first + n ≤ arr.length) :
    copyOut arr first n = .ok ((arr.drop first).take n) := by
  induction n generalizing first with
  | zero => rfl
  | succ n ih =>
    have hfirst : first < arr.length := by omega
    have hrest : copyOut arr ((first + 1 : Nat) : Int) n = .ok ((arr.drop (first + 1)).take n) :=
      ih (by omega)
    push_cast at hrest
    simp only [copyOut, read_eq hfirst, hrest, List.drop_eq_getElem_cons hfirst,
      List.take_succ_cons]
    rfl

/-! ## The loops -/

/-- Where one temporary array is used up, the other one is copied behind `k`. -/
theorem mergeLoop_nil_comm (fuel : Nat) (xs : List α) (k : Nat) (arr : List α) :
    mergeLoop le fuel [] xs k arr = mergeLoop le fuel xs [] k arr := by
  induction fuel generalizing xs k arr with
  | zero => rfl
  | succ fuel ih =>
    cases xs with
    | nil => rfl
    | cons x xs => exact ih xs (k + 1) (arr.set k x)

theorem copyRest_done {xs : List α} {i : Nat} (hi : xs.length ≤ i) (k : Int) (arr : List α) :
    copyRest xs i k arr = .ok (k, arr) := by
  have hend : ¬ (i : Int) < xs.length := by omega
  rw [copyRest, if_neg hend]

/-- The second and the third loop. -/
theorem copyRest_eq (fuel : Nat) (xs : List α) (i k : Nat) (arr : List α)
    (hf : xs.length - i ≤ fuel) (hk : k + (xs.length - i) ≤ arr.length) :
    ∃ k', copyRest xs i k arr = .ok (k', mergeLoop le fuel (xs.drop i) [] k arr) := by
  induction fuel generalizing i k arr with
  | zero => exact ⟨k, copyRest_done (by omega) k arr⟩
  | succ fuel ih =>
    by_cases hi : i < xs.length
    · have hk' : k < arr.length := by omega
      have hlt : (i : Int) < xs.length := by omega
      obtain ⟨k', hrest⟩ := ih (i + 1) (k + 1) (arr.set k xs[i]) (by omega)
        (by rw [List.length_set]; omega)
      refine ⟨k', ?_⟩
      push_cast at hrest
      rw [copyRest, if_pos hlt, read_eq hi, List.drop_eq_getElem_cons hi]
      simp only [Bind.bind, Except.bind, write_eq hk', mergeLoop]
      exact hrest
    · refine ⟨k, ?_⟩
      rw [copyRest_done (by omega), List.drop_eq_nil_of_le (by omega)]
      rfl

/-- One round of the first loop. -/
theorem mergeLoops_step {L R : List α} {i j k : Nat} {arr : List α} (hi : i < L.length)
    (hj : j < R.length) (hk : k < arr.length) :
    mergeLoops le L R i j k arr =
      if le L[i] R[j] then mergeLoops le L R (i + 1 : Nat) j (k + 1 : Nat) (arr.set k L[i])
      else mergeLoops le L R i (j + 1 : Nat) (k + 1 : Nat) (arr.set k R[j]) := by
  have hboth : (i : Int) < L.length ∧ (j : Int) < R.length := by omega
  simp only [mergeLoops]
  rw [mergeBoth, if_pos hboth, read_eq hi, read_eq hj]
  push_cast
  cases hle : le L[i] R[j] with
  | true => simp [Bind.bind, Except.bind, write_eq hk, hle]
  | false => simp [Bind.bind, Except.bind, write_eq hk, hle]

/-- Behind the first loop. -/
theorem mergeLoops_rest {L R : List α} {i j k : Nat} {arr : List α}
    (h : L.length ≤ i ∨ R.length ≤ j) :
    mergeLoops le L R i j k arr = copyRests L R i j k arr := by
  have hend : ¬ ((i : Int) < L.length ∧ (j : Int) < R.length) := by omega
  simp only [mergeLoops]
  rw [mergeBoth, if_neg hend]
  rfl

/-- **The loops of `merge`** with their cursors compute those of the lists that
the cursors leave. -/
theorem mergeLoops_eq (fuel : Nat) (L R : List α) (i j k : Nat) (arr : List α)
    (hf : (L.length - i) + (R.length - j) ≤ fuel)
    (hk : k + (L.length - i) + (R.length - j) ≤ arr.length) :
    mergeLoops le L R i j k arr = .ok (mergeLoop le fuel (L.drop i) (R.drop j) k arr) := by
  induction fuel generalizing i j k arr with
  | zero =>
    have hL : L.length ≤ i := by omega
    have hR : R.length ≤ j := by omega
    simp only [mergeLoops_rest le (.inl hL), copyRests, copyRest_done hL, copyRest_done hR,
      Bind.bind, Except.bind, mergeLoop]
  | succ fuel ih =>
    rcases Nat.lt_or_ge i L.length with hi | hi
    · rcases Nat.lt_or_ge j R.length with hj | hj
      · -- both arrays have a next cell
        have hL : (arr.set k L[i]).length = arr.length := List.length_set
        have hR : (arr.set k R[j]).length = arr.length := List.length_set
        rw [mergeLoops_step le hi hj (by omega), List.drop_eq_getElem_cons hi,
          List.drop_eq_getElem_cons hj]
        simp only [mergeLoop]
        split
        · rw [ih (i + 1) j (k + 1) _ (by omega) (by omega), List.drop_eq_getElem_cons hj]
        · rw [ih i (j + 1) (k + 1) _ (by omega) (by omega), List.drop_eq_getElem_cons hi]
      · -- only `L` has
        obtain ⟨k', hrest⟩ := copyRest_eq le (fuel + 1) L i k arr (by omega) (by omega)
        rw [mergeLoops_rest le (.inr hj), List.drop_eq_nil_of_le hj]
        simp only [copyRests, hrest, Bind.bind, Except.bind, copyRest_done hj]
    · -- `L` is used up
      obtain ⟨k', hrest⟩ := copyRest_eq le (fuel + 1) R j k arr (by omega) (by omega)
      rw [mergeLoops_rest le (.inl hi), List.drop_eq_nil_of_le hi, mergeLoop_nil_comm]
      simp only [copyRests, copyRest_done hi, Bind.bind, Except.bind, hrest]

/-! ## The sort -/

theorem length_mergeLoop (fuel : Nat) (L R : List α) (k : Nat) (arr : List α) :
    (mergeLoop le fuel L R k arr).length = arr.length := by
  induction fuel generalizing L R k arr with
  | zero => rfl
  | succ fuel ih =>
    cases L with
    | nil =>
      cases R with
      | nil => rfl
      | cons b R => simp only [mergeLoop, ih, List.length_set]
    | cons a L =>
      cases R with
      | nil => simp only [mergeLoop, ih, List.length_set]
      | cons b R =>
        simp only [mergeLoop]
        split
        · simp only [ih, List.length_set]
        · simp only [ih, List.length_set]

theorem length_mergeSort (fuel : Nat) (arr : List α) (l r : Int) :
    (Scan.mergeSort le fuel arr l r).length = arr.length := by
  induction fuel generalizing arr l r with
  | zero => rfl
  | succ fuel ih =>
    simp only [Scan.mergeSort]
    split
    · simp only [Scan.merge, length_mergeLoop, ih]
    · rfl

/-- **`merge`** of two adjacent ranges inside the array. -/
theorem merge_eq (arr : List α) (l m r : Nat) (hlm : l ≤ m) (hmr : m < r) (hr : r < arr.length) :
    merge le arr l m r = .ok (Scan.merge le arr l m r) := by
  have hn1 : ((m : Int) - l + 1).toNat = m - l + 1 := by omega
  have hn2 : ((r : Int) - m).toNat = r - m := by omega
  have hL : copyOut arr l (m - l + 1) = .ok ((arr.drop l).take (m - l + 1)) :=
    copyOut_eq _ (by omega)
  have hR : copyOut arr ((m + 1 : Nat) : Int) (r - m) = .ok ((arr.drop (m + 1)).take (r - m)) :=
    copyOut_eq _ (by omega)
  push_cast at hR
  have hloops := mergeLoops_eq le
    (((arr.drop l).take (m - l + 1)).length + ((arr.drop (m + 1)).take (r - m)).length)
    ((arr.drop l).take (m - l + 1)) ((arr.drop (m + 1)).take (r - m)) 0 0 l arr (by omega)
    (by simp only [List.length_take, List.length_drop]; omega)
  simp only [merge, hn1, hn2, hL, hR, Bind.bind, Except.bind]
  exact hloops

/-- **`mergeSort`** reads and writes inside the array, and computes what the
sort of lists computes. -/
theorem mergeSort_eq (fuel : Nat) (arr : List α) (l r : Int) (hl : 0 ≤ l) (hr : r < arr.length)
    (hf : (r - l + 1).toNat ≤ fuel) :
    mergeSort le arr l r = .ok (Scan.mergeSort le fuel arr l r) := by
  induction fuel generalizing arr l r with
  | zero =>
    have hempty : ¬ l < r := by omega
    rw [mergeSort, if_neg hempty]
    rfl
  | succ fuel ih =>
    rw [mergeSort]
    by_cases hlt : l < r
    · have hleft := ih arr l (l + (r - l) / 2) hl (by omega) (by omega)
      have hlen := length_mergeSort le fuel arr l (l + (r - l) / 2)
      have hright := ih (Scan.mergeSort le fuel arr l (l + (r - l) / 2))
        (l + (r - l) / 2 + 1) r (by omega) (by omega) (by omega)
      have hlen' := length_mergeSort le fuel (Scan.mergeSort le fuel arr l (l + (r - l) / 2))
        (l + (r - l) / 2 + 1) r
      obtain ⟨l', rfl⟩ := Int.eq_ofNat_of_zero_le hl
      obtain ⟨r', rfl⟩ := Int.eq_ofNat_of_zero_le (show 0 ≤ r by omega)
      obtain ⟨m', hm'⟩ := Int.eq_ofNat_of_zero_le (show 0 ≤ (l' : Int) + (r' - l') / 2 by omega)
      rw [hm'] at hleft hright hlen hlen'
      have hmerge := merge_eq le
        (Scan.mergeSort le fuel (Scan.mergeSort le fuel arr l' m') (m' + 1) r') l' m' r' (by omega)
        (by omega) (by omega)
      simp only [if_pos hlt, Scan.mergeSort, hm', hleft, hright, hmerge, Bind.bind, Except.bind,
        Int.toNat_natCast]
    · simp only [if_neg hlt, Scan.mergeSort]

end InPlace

/-! ## The sorted range -/

section Range

variable {α : Type}

/-- `xs[l..r]`, empty where `r < l`. -/
def range (l r : Int) (xs : List α) : List α := (xs.drop l.toNat).take (r - l + 1).toNat

theorem range_of_lt {l r : Int} (h : r < l) (xs : List α) : range l r xs = [] := by
  have hn : (r - l + 1).toNat = 0 := by omega
  rw [range, hn, List.take_zero]

/-- A range inside the array, between what is in front of it and behind it. -/
theorem exists_range {xs : List α} {l r : Int} (hl : 0 ≤ l) (hlr : l ≤ r) (hr : r < xs.length) :
    ∃ pre post, xs = pre ++ range l r xs ++ post ∧ l = pre.length ∧
      r = pre.length + (range l r xs).length - 1 := by
  refine ⟨xs.take l.toNat, (xs.drop l.toNat).drop (r - l + 1).toNat, ?_, ?_, ?_⟩
  · rw [range, List.append_assoc, List.take_append_drop, List.take_append_drop]
  · rw [List.length_take]
    omega
  · rw [range, List.length_take, List.length_take, List.length_drop]
    omega

/-- The same range of an array whose middle was replaced. -/
theorem range_append (pre mid post : List α) :
    range pre.length (pre.length + mid.length - 1) (pre ++ mid ++ post) = mid := by
  have hn : ((pre.length + mid.length - 1 : Int) - pre.length + 1).toNat = mid.length := by omega
  rw [range, hn, Int.toNat_natCast, List.append_assoc, List.drop_left, List.take_left]

/-- `sorted` is `arr` with `arr[l..r]` in the order of `freq`, stably so. -/
structure SortsRange (freq : α → Int) (l r : Int) (arr sorted : List α) : Prop where
  length : sorted.length = arr.length
  outside : ∀ i : Nat, (i : Int) < l ∨ r < i → sorted[i]? = arr[i]?
  perm : (range l r sorted).Perm (range l r arr)
  increasing : (range l r sorted).Pairwise fun p q => freq p ≤ freq q
  stable : ∀ f, (range l r sorted).filter (fun p => freq p = f) =
    (range l r arr).filter fun p => freq p = f

/-- An empty range is sorted. -/
theorem sortsRange_of_lt {freq : α → Int} {l r : Int} (h : r < l) (arr : List α) :
    SortsRange freq l r arr arr := by
  constructor
  case length => rfl
  case outside => exact fun _ _ => rfl
  case perm => exact List.Perm.refl _
  case increasing =>
    rw [range_of_lt h]
    exact List.Pairwise.nil
  case stable => exact fun _ => rfl

end Range

namespace SystemList

variable {w : Nat} {sl : SystemList}

/-- The sort of the middle of an array, as `List.mergeSort` computes it. -/
theorem sortsRange_mergeSort (hw : 0 < w) (pre mid post : List EntryPtr)
    (hfits : ∀ p ∈ mid, Fits w (sl.deref p).freq) :
    SortsRange (fun p => (sl.deref p).freq) pre.length (pre.length + mid.length - 1)
      (pre ++ mid ++ post) (pre ++ List.mergeSort mid (sl.freqLe w) ++ post) := by
  have hlen : (List.mergeSort mid (sl.freqLe w)).length = mid.length := List.length_mergeSort mid
  have hsorted := range_append pre (List.mergeSort mid (sl.freqLe w)) post
  rw [hlen] at hsorted
  constructor
  case length => simp only [List.length_append, hlen]
  case outside =>
    intro i hi
    rcases hi with hi | hi
    · have hpre : i < pre.length := by omega
      rw [List.append_assoc, List.append_assoc, List.getElem?_append_left hpre,
        List.getElem?_append_left hpre]
    · have hpost : (pre ++ mid).length ≤ i := by
        rw [List.length_append]
        omega
      have hpost' : (pre ++ List.mergeSort mid (sl.freqLe w)).length ≤ i := by
        rw [List.length_append, hlen]
        omega
      rw [List.getElem?_append_right hpost, List.getElem?_append_right hpost']
      simp only [List.length_append, hlen]
  case perm =>
    rw [hsorted, range_append]
    exact List.mergeSort_perm mid (sl.freqLe w)
  case increasing =>
    rw [hsorted]
    exact mergeSort_increasing hw hfits
  case stable =>
    intro f
    rw [hsorted, range_append]
    exact mergeSort_stable mid f

/-- **`mergeSort(arr, l, r)`** of a range inside the array, or of an empty one:
it returns, no index is out of range, and it sorts the range in place, stably,
where the frequencies of the range are values of a `long`. -/
theorem mergeSort_sortsRange (hw : 0 < w) (sl : SystemList) (arr : List EntryPtr) (l r : Int)
    (hl : 0 ≤ l) (hr : r < arr.length) (hfits : ∀ p ∈ range l r arr, Fits w (sl.deref p).freq) :
    ∃ sorted, InPlace.mergeSort (sl.freqLe w) arr l r = .ok sorted ∧
      SortsRange (fun p => (sl.deref p).freq) l r arr sorted := by
  have hrun := InPlace.mergeSort_eq (sl.freqLe w) (r - l + 1).toNat arr l r hl hr (Nat.le_refl _)
  refine ⟨_, hrun, ?_⟩
  rcases Int.lt_or_le r l with hlt | hle
  · have hn : (r - l + 1).toNat = 0 := by omega
    rw [hn, mergeSort]
    exact sortsRange_of_lt hlt arr
  · -- cut the array at the ends of the range
    obtain ⟨pre, post, harr, hpre, hmid⟩ := exists_range hl hle hr
    generalize range l r arr = mid at harr hmid hfits
    subst harr hpre hmid
    have hn : ((pre.length + mid.length - 1 : Int) - pre.length + 1).toNat = mid.length := by omega
    rw [hn, mergeSort_eq (sl.freqLe w) mid.length pre mid post (Nat.le_refl _)]
    exact sortsRange_mergeSort hw pre mid post hfits

/-- Four channels, two of them on one frequency. -/
def fourChannels : SystemList := fmSystem 64 [162400000, 161000000, 160000000, 161000000]

theorem mergeSort_sortsRange_fourChannels : ∃ sorted,
    InPlace.mergeSort (fourChannels.freqLe 64) fourChannels.allEntries 1 3 = .ok sorted ∧
      SortsRange (fun p => (fourChannels.deref p).freq) 1 3 fourChannels.allEntries sorted :=
  mergeSort_sortsRange (by decide) _ _ 1 3 (by decide) (by decide) (by decide)

end SystemList

end PiScan.Scan

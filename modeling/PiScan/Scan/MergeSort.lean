import Mathlib.Data.List.Sort

/-!
# The merge sort of the scan list

`SystemList::merge` and `SystemList::mergeSort` of `scan/SystemList.cpp`: an
in-place sort of `arr[l..r]`, with `le a b` for the comparison of the two
frequencies as `long`s.

* `merge_eq`: `merge` replaces two adjacent ranges by `List.merge` of them;
* `mergeSort_eq`: `mergeSort` replaces `arr[l..r]` by `List.mergeSort` of it
  and leaves the rest of the array alone, so the library facts about
  `List.mergeSort` (permutation, order, stability) are facts about the code.
-/

namespace PiScan.Scan

variable {α : Type*} (le : α → α → Bool)

/-- The three `while` loops of `merge`: `L` and `R` are what is left of the
temporary arrays, `k` is the next index of `arr`. -/
def mergeLoop : Nat → List α → List α → Nat → List α → List α
  | 0, _, _, _, arr => arr
  | fuel + 1, a :: L, b :: R, k, arr =>
    if le a b then mergeLoop fuel L (b :: R) (k + 1) (arr.set k a)
    else mergeLoop fuel (a :: L) R (k + 1) (arr.set k b)
  | fuel + 1, a :: L, [], k, arr => mergeLoop fuel L [] (k + 1) (arr.set k a)
  | fuel + 1, [], b :: R, k, arr => mergeLoop fuel [] R (k + 1) (arr.set k b)
  | _ + 1, [], [], _, arr => arr

def merge (arr : List α) (l m r : Nat) : List α :=
  let L := (arr.drop l).take (m - l + 1)
  let R := (arr.drop (m + 1)).take (r - m)
  mergeLoop le (L.length + R.length) L R l arr

/-- `mergeSort(arr, l, r)`; every call sorts a shorter range, and `fuel`
bounds the depth of the calls. -/
def mergeSort : Nat → List α → Int → Int → List α
  | 0, arr, _, _ => arr
  | fuel + 1, arr, l, r =>
    if l < r then
      let m := l + (r - l) / 2
      let arr := mergeSort fuel arr l m
      let arr := mergeSort fuel arr (m + 1) r
      merge le arr l.toNat m.toNat r.toNat
    else arr

/-! ## The loops compute `List.merge` -/

/-- The loops write the merge of what is left over as many cells of `arr`. -/
theorem mergeLoop_eq (fuel : Nat) (L R pre old post : List α)
    (hf : L.length + R.length ≤ fuel) (hold : old.length = L.length + R.length) :
    mergeLoop le fuel L R pre.length (pre ++ old ++ post) =
      pre ++ List.merge L R le ++ post := by
  -- one write at the end of `pre`
  have hset : ∀ (x y : α) (pre old : List α),
      (pre ++ y :: old ++ post).set pre.length x = (pre ++ [x]) ++ old ++ post := by
    intro x y pre old
    simp
  induction fuel generalizing L R pre old with
  | zero =>
    obtain rfl : L = [] := List.length_eq_zero_iff.mp (by omega)
    obtain rfl : R = [] := by simpa using hf
    obtain rfl : old = [] := List.length_eq_zero_iff.mp (by simpa using hold)
    simp [mergeLoop]
  | succ fuel ih =>
    cases old with
    | nil =>
      obtain rfl : L = [] := List.length_eq_zero_iff.mp (by simp at hold; omega)
      obtain rfl : R = [] := List.length_eq_zero_iff.mp (by simp at hold; omega)
      simp [mergeLoop]
    | cons y old =>
      have hlen : ∀ x : α, (pre ++ [x]).length = pre.length + 1 := by simp
      cases L with
      | nil =>
        cases R with
        | nil => simp at hold
        | cons b R =>
          simp only [List.length_nil, List.length_cons, Nat.zero_add] at hf hold
          simp only [mergeLoop, hset]
          rw [← hlen b, ih [] R (pre ++ [b]) old (by simp; omega) (by simp; omega)]
          simp
      | cons a L =>
        cases R with
        | nil =>
          simp only [List.length_nil, List.length_cons, Nat.add_zero] at hf hold
          simp only [mergeLoop, hset]
          rw [← hlen a, ih L [] (pre ++ [a]) old (by simp; omega) (by simp; omega)]
          simp
        | cons b R =>
          simp only [List.length_cons] at hf hold
          simp only [mergeLoop, hset, List.cons_merge_cons]
          cases hab : le a b with
          | true =>
            simp only [↓reduceIte]
            rw [← hlen a, ih L (b :: R) (pre ++ [a]) old (by simp; omega) (by simp; omega)]
            simp
          | false =>
            simp only [Bool.false_eq_true, ↓reduceIte]
            rw [← hlen b, ih (a :: L) R (pre ++ [b]) old (by simp; omega) (by simp; omega)]
            simp

/-- **`merge`** of the adjacent ranges `L` and `R`. -/
theorem merge_eq (pre L R post : List α) (hL : L ≠ []) :
    merge le (pre ++ L ++ R ++ post) pre.length (pre.length + L.length - 1)
        (pre.length + L.length + R.length - 1) =
      pre ++ List.merge L R le ++ post := by
  have hpos : 0 < L.length := List.length_pos_of_ne_nil hL
  have hcut : (((pre ++ L ++ R ++ post).drop pre.length).take
      (pre.length + L.length - 1 - pre.length + 1)) = L := by
    have h : pre.length + L.length - 1 - pre.length + 1 = L.length := by omega
    rw [h]
    simp [List.append_assoc]
  have hcutR : (((pre ++ L ++ R ++ post).drop (pre.length + L.length - 1 + 1)).take
      (pre.length + L.length + R.length - 1 - (pre.length + L.length - 1))) = R := by
    have h1 : pre.length + L.length - 1 + 1 = (pre ++ L).length := by simp; omega
    have h2 : pre.length + L.length + R.length - 1 - (pre.length + L.length - 1) = R.length := by
      omega
    rw [h1, h2, List.append_assoc (pre ++ L), List.drop_left, List.take_left]
  simp only [merge, hcut, hcutR]
  have h := mergeLoop_eq le (L.length + R.length) L R pre (L ++ R) post (Nat.le_refl _) (by simp)
  rw [← h]
  simp [List.append_assoc]

/-! ## The sort computes `List.mergeSort` -/

/-- `List.mergeSort` cuts a range where the code does. -/
theorem mergeSort_cut (A B : List α) (hA : A ≠ []) (hB : B ≠ [])
    (hcut : A.length = (A.length + B.length + 1) / 2) :
    List.mergeSort (A ++ B) le = List.merge (List.mergeSort A le) (List.mergeSort B le) le := by
  obtain ⟨a, A, rfl⟩ := List.exists_cons_of_ne_nil hA
  obtain ⟨b, B, rfl⟩ := List.exists_cons_of_ne_nil hB
  have hlen : (a :: A ++ b :: B).length = (a :: A).length + (b :: B).length := List.length_append
  have hhalf : ((a :: A ++ b :: B).length + 1) / 2 = (a :: A).length := by
    rw [hlen]
    exact hcut.symm
  have hsplit : ∀ x y xs, a :: A ++ b :: B = x :: y :: xs →
      List.mergeSort (a :: A ++ b :: B) le =
        List.merge (List.mergeSort (a :: A) le) (List.mergeSort (b :: B) le) le := by
    intro x y xs h
    rw [h, List.mergeSort]
    simp only [List.MergeSort.Internal.splitInTwo_fst, List.MergeSort.Internal.splitInTwo_snd]
    rw [← h, hhalf, List.take_left, List.drop_left]
  cases A with
  | nil => exact hsplit a b B rfl
  | cons c A => exact hsplit a c (A ++ b :: B) rfl

/-- **`mergeSort`** of the range `mid` of an array. -/
theorem mergeSort_eq (fuel : Nat) (pre mid post : List α) (hf : mid.length ≤ fuel) :
    mergeSort le fuel (pre ++ mid ++ post) pre.length (pre.length + mid.length - 1) =
      pre ++ List.mergeSort mid le ++ post := by
  induction fuel generalizing pre mid post with
  | zero =>
    obtain rfl : mid = [] := List.length_eq_zero_iff.mp (by omega)
    simp [mergeSort]
  | succ fuel ih =>
    by_cases hlong : 2 ≤ mid.length
    · -- cut the range where `m` cuts it
      obtain ⟨A, B, rfl, hA⟩ : ∃ A B, mid = A ++ B ∧ A.length = (mid.length + 1) / 2 :=
        ⟨mid.take ((mid.length + 1) / 2), mid.drop ((mid.length + 1) / 2), by simp,
          by rw [List.length_take]; omega⟩
      rw [List.length_append] at hA hf hlong
      have hB : 0 < B.length := by omega
      have hA0 : A ≠ [] := by
        rintro rfl
        simp at hA
        omega
      have hB0 : B ≠ [] := List.ne_nil_of_length_pos hB
      have hm : (pre.length : Int) + ((pre.length + (A ++ B).length - 1 : Int) - pre.length) / 2 =
          pre.length + A.length - 1 := by
        rw [List.length_append]
        push_cast
        omega
      have hlt : (pre.length : Int) < pre.length + (A ++ B).length - 1 := by
        rw [List.length_append]
        push_cast
        omega
      simp only [mergeSort, if_pos hlt, hm]
      -- the two halves
      have h1 := ih pre A (B ++ post) (by omega)
      have h2 := ih (pre ++ List.mergeSort A le) B post (by omega)
      have hpre : ((pre ++ List.mergeSort A le).length : Int) = pre.length + A.length - 1 + 1 := by
        rw [List.length_append, List.length_mergeSort]
        push_cast
        omega
      have hend : (pre.length + A.length - 1 + 1 + B.length - 1 : Int) =
          pre.length + (A ++ B).length - 1 := by
        rw [List.length_append]
        push_cast
        omega
      rw [hpre, hend] at h2
      have happ : pre ++ (A ++ B) ++ post = pre ++ A ++ (B ++ post) := by simp
      have happ' : pre ++ List.mergeSort A le ++ (B ++ post) =
          pre ++ List.mergeSort A le ++ B ++ post := by simp
      rw [happ, h1, happ', h2, mergeSort_cut le A B hA0 hB0 hA]
      -- the merge of the sorted halves
      have hne : List.mergeSort A le ≠ [] := by
        intro h
        have hlen : (List.mergeSort A le).length = A.length := List.length_mergeSort A
        rw [h] at hlen
        simp at hlen
        omega
      have h3 := merge_eq le pre (List.mergeSort A le) (List.mergeSort B le) post hne
      rw [List.length_mergeSort, List.length_mergeSort] at h3
      have e1 : ((pre.length : Int)).toNat = pre.length := Int.toNat_natCast _
      have e2 : ((pre.length : Int) + A.length - 1).toNat = pre.length + A.length - 1 := by omega
      have e3 : ((pre.length : Int) + (A ++ B).length - 1).toNat =
          pre.length + A.length + B.length - 1 := by
        rw [List.length_append]
        omega
      rw [e1, e2, e3]
      exact h3
    · have hge : ¬ (pre.length : Int) < pre.length + mid.length - 1 := by omega
      simp only [mergeSort, if_neg hge]
      rcases mid with _ | ⟨x, _ | ⟨y, ys⟩⟩
      · simp
      · simp
      · simp at hlong

/-- The call that sorts a whole array. -/
theorem mergeSort_all (xs : List α) :
    mergeSort le xs.length xs 0 (xs.length - 1) = List.mergeSort xs le := by
  have h := mergeSort_eq le xs.length [] xs [] (Nat.le_refl _)
  simpa using h

end PiScan.Scan

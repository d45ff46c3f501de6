import Mathlib.Order.Lattice
import Mathlib.Data.List.Dedup
import Mathlib.Data.List.Perm.Basic

/-!
# Sets ordered by a key

A `KeySet key` holds its elements in the strict order of their keys, so no two
of them have the same key: an insertion under a key that is taken changes
nothing.

* `mem_insert`: what an insertion adds;
* `mem_ofList_iff`: where equal keys mean equal elements nothing is lost;
* `toList_ofList`: a list in strict order is taken as it is.
-/

/-- The elements, in the order of their keys. -/
structure KeySet {α κ : Type} [LinearOrder κ] (key : α → κ) where
  toList : List α
  sorted : toList.Pairwise fun x y => key x < key y

namespace KeySet

variable {α κ : Type} [LinearOrder κ] {key : α → κ}

/-- The list with `x` at its place, unless its key is taken. -/
def insertList (key : α → κ) (x : α) : List α → List α
  | [] => [x]
  | y :: ys =>
    if key x < key y then x :: y :: ys
    else if key y < key x then y :: insertList key x ys
    else y :: ys

theorem mem_insertList {x y : α} {ys : List α} (h : y ∈ insertList key x ys) :
    y = x ∨ y ∈ ys := by
  induction ys with
  | nil => simpa [insertList] using h
  | cons z zs ih =>
    unfold insertList at h
    split at h
    · simpa using h
    · split at h
      · rcases List.mem_cons.mp h with rfl | h
        · exact .inr (List.mem_cons_self ..)
        · exact (ih h).imp_right (List.mem_cons_of_mem z)
      · exact .inr h

theorem insertList_sorted (x : α) {ys : List α} (h : ys.Pairwise fun x y => key x < key y) :
    (insertList key x ys).Pairwise fun x y => key x < key y := by
  induction ys with
  | nil => simp [insertList]
  | cons y ys ih =>
    unfold insertList
    split
    · rename_i hlt
      refine List.pairwise_cons.mpr ⟨?_, h⟩
      intro z hz
      rcases List.mem_cons.mp hz with rfl | hz
      · exact hlt
      · exact hlt.trans (List.rel_of_pairwise_cons h hz)
    · split
      · rename_i hlt
        refine List.pairwise_cons.mpr ⟨?_, ih h.of_cons⟩
        intro z hz
        rcases mem_insertList hz with rfl | hz
        · exact hlt
        · exact List.rel_of_pairwise_cons h hz
      · exact h

instance : Membership α (KeySet key) := ⟨fun s x => x ∈ s.toList⟩

theorem mem_toList {s : KeySet key} {x : α} : x ∈ s.toList ↔ x ∈ s := Iff.rfl

def empty : KeySet key := ⟨[], .nil⟩

def insert (s : KeySet key) (x : α) : KeySet key :=
  ⟨insertList key x s.toList, insertList_sorted x s.sorted⟩

def size (s : KeySet key) : Nat := s.toList.length

/-- The elements of a list, one after the other. -/
def ofList (xs : List α) : KeySet key := xs.foldl insert empty

theorem ext {s t : KeySet key} (h : s.toList = t.toList) : s = t := by
  cases s
  cases t
  simpa using h

/-! ## Insertion -/

/-- Elements of one key are the same. -/
theorem eq_of_key {s : KeySet key} {x y : α} (hx : x ∈ s) (hy : y ∈ s) (h : key x = key y) :
    x = y := by
  have hsame : s.toList.Pairwise fun x y => key x = key y → x = y :=
    s.sorted.imp fun hlt heq => absurd heq hlt.ne
  have hflip : s.toList.Pairwise fun x y => key y = key x → y = x :=
    s.sorted.imp fun hlt heq => absurd heq hlt.ne'
  exact hsame.forall_of_forall_of_flip (fun _ _ _ => rfl) hflip hx hy h

theorem insertList_of_taken {x : α} {ys : List α} (h : ∃ z ∈ ys, key z = key x)
    (hs : ys.Pairwise fun x y => key x < key y) : insertList key x ys = ys := by
  induction ys with
  | nil => simp at h
  | cons y ys ih =>
    obtain ⟨z, hz, hkey⟩ := h
    unfold insertList
    rcases List.mem_cons.mp hz with rfl | hz
    · rw [if_neg (by rw [hkey]; exact lt_irrefl _), if_neg (by rw [hkey]; exact lt_irrefl _)]
    · have hlt : key y < key x := hkey ▸ List.rel_of_pairwise_cons hs hz
      rw [if_neg (lt_asymm hlt), if_pos hlt, ih ⟨z, hz, hkey⟩ hs.of_cons]

theorem mem_insertList_self {x : α} {ys : List α} (h : ∀ z ∈ ys, key z ≠ key x) :
    x ∈ insertList key x ys := by
  induction ys with
  | nil => simp [insertList]
  | cons y ys ih =>
    unfold insertList
    split
    · simp
    · split
      · exact List.mem_cons_of_mem y (ih fun z hz => h z (List.mem_cons_of_mem y hz))
      · rename_i hlt hgt
        exact absurd (le_antisymm (not_lt.mp hlt) (not_lt.mp hgt)) (h y (List.mem_cons_self ..))

theorem mem_insertList_of_mem {x y : α} {ys : List α} (h : y ∈ ys) :
    y ∈ insertList key x ys := by
  induction ys with
  | nil => cases h
  | cons z zs ih =>
    unfold insertList
    split
    · exact List.mem_cons_of_mem x h
    · split
      · rcases List.mem_cons.mp h with rfl | h
        · exact List.mem_cons_self ..
        · exact List.mem_cons_of_mem z (ih h)
      · exact h

/-- **What an insertion adds**: the element, if its key is free. -/
theorem mem_insert {s : KeySet key} {x y : α} :
    y ∈ s.insert x ↔ y ∈ s ∨ (y = x ∧ ∀ z ∈ s, key z ≠ key x) := by
  constructor
  · intro h
    by_cases hfree : ∀ z ∈ s, key z ≠ key x
    · rcases mem_insertList h with rfl | h
      · exact .inr ⟨rfl, hfree⟩
      · exact .inl h
    · push Not at hfree
      have hsame : (s.insert x).toList = s.toList := insertList_of_taken hfree s.sorted
      rw [← mem_toList, hsame] at h
      exact .inl h
  · rintro (h | ⟨rfl, hfree⟩)
    · exact mem_insertList_of_mem h
    · exact mem_insertList_self hfree

/-! ## Lists -/

theorem mem_foldl_insert {xs : List α} {s : KeySet key} {y : α} (h : y ∈ xs.foldl insert s) :
    y ∈ s ∨ y ∈ xs := by
  induction xs generalizing s with
  | nil => exact .inl h
  | cons x xs ih =>
    rcases ih h with h | h
    · rcases mem_insert.mp h with h | ⟨rfl, -⟩
      · exact .inl h
      · exact .inr (List.mem_cons_self ..)
    · exact .inr (List.mem_cons_of_mem x h)

theorem mem_foldl_insert_of_mem {xs : List α} {s : KeySet key} {y : α} (h : y ∈ s) :
    y ∈ xs.foldl insert s := by
  induction xs generalizing s with
  | nil => exact h
  | cons x xs ih => exact ih (mem_insert.mpr (.inl h))

/-- No key of the list is missing. -/
theorem exists_key_foldl_insert {xs : List α} {s : KeySet key} {x : α} (hx : x ∈ xs) :
    ∃ y ∈ xs.foldl insert s, key y = key x := by
  induction xs generalizing s with
  | nil => cases hx
  | cons z zs ih =>
    rcases List.mem_cons.mp hx with rfl | hx
    · by_cases hfree : ∀ y ∈ s, key y ≠ key x
      · have hx : x ∈ s.insert x := mem_insert.mpr (.inr ⟨rfl, hfree⟩)
        exact ⟨x, mem_foldl_insert_of_mem (s := s.insert x) hx, rfl⟩
      · push Not at hfree
        obtain ⟨y, hy, hkey⟩ := hfree
        have hy' : y ∈ s.insert x := mem_insert.mpr (.inl hy)
        exact ⟨y, mem_foldl_insert_of_mem (s := s.insert x) hy', hkey⟩
    · exact ih hx

theorem mem_of_mem_ofList {xs : List α} {y : α} (h : y ∈ (ofList xs : KeySet key)) : y ∈ xs := by
  rcases mem_foldl_insert h with h | h
  · cases h
  · exact h

/-- Where equal keys mean equal elements, nothing is lost. -/
theorem mem_ofList_iff {xs : List α} (hinj : ∀ x ∈ xs, ∀ y ∈ xs, key x = key y → x = y) {y : α} :
    y ∈ (ofList xs : KeySet key) ↔ y ∈ xs := by
  constructor
  · exact mem_of_mem_ofList
  · intro hy
    obtain ⟨z, hz, hkey⟩ := exists_key_foldl_insert (s := (empty : KeySet key)) hy
    obtain rfl := hinj z (mem_of_mem_ofList hz) y hy hkey
    exact hz

theorem nodup (s : KeySet key) : s.toList.Nodup := by
  apply s.sorted.imp
  intro x y hlt heq
  exact hlt.ne (congrArg key heq)

/-- The elements are determined by what belongs to the set. -/
theorem toList_eq {s t : KeySet key} (h : ∀ x, x ∈ s ↔ x ∈ t) : s.toList = t.toList := by
  have hperm : s.toList.Perm t.toList := (List.perm_ext_iff_of_nodup s.nodup t.nodup).mpr h
  apply hperm.eq_of_pairwise ?_ s.sorted t.sorted
  intro x y _ _ hxy hyx
  exact absurd hyx (lt_asymm hxy)

/-- A list in strict order is taken as it is. -/
theorem toList_ofList {xs : List α} (h : xs.Pairwise fun x y => key x < key y) :
    (ofList xs : KeySet key).toList = xs := by
  have hset : (ofList xs : KeySet key).toList = (⟨xs, h⟩ : KeySet key).toList := by
    apply toList_eq
    intro x
    apply mem_ofList_iff
    intro x hx y hy hkey
    exact eq_of_key (s := ⟨xs, h⟩) hx hy hkey
  exact hset

end KeySet

import Mathlib.Data.List.Basic

/-!
# The changes of a sequence

`changes x l` lists the elements of `l` that differ from the one before them, where
`x` stands before the first: what an observer reports that starts at `x` and reports
only what is new to it.

* `changes_append`: a sequence can be reported in two parts;
* `getLastD_changes`: the last report is the last element;
* `mem_changes_of_start`, `mem_changes_insert`: another start, or one more element,
  loses no report but that of the start.
-/

namespace Changes

variable {α : Type*}

theorem getLastD_append (l r : List α) (x : α) :
    (l ++ r).getLastD x = r.getLastD (l.getLastD x) := by
  induction l generalizing x with
  | nil => rfl
  | cons y l ih => rw [List.cons_append, List.getLastD_cons, List.getLastD_cons, ih]

theorem getLastD_of_ne_nil {l : List α} (h : l ≠ []) (x y : α) : l.getLastD x = l.getLastD y := by
  cases l with
  | nil => exact absurd rfl h
  | cons z l => rw [List.getLastD_cons, List.getLastD_cons]

theorem getLastD_mem {l : List α} (h : l ≠ []) (x : α) : l.getLastD x ∈ l := by
  cases l with
  | nil => exact absurd rfl h
  | cons y l =>
    rw [List.getLastD_cons]
    exact List.getLastD_mem_cons

variable [DecidableEq α]

def changes : α → List α → List α
  | _, [] => []
  | x, y :: l => if y = x then changes x l else y :: changes y l

@[simp] theorem changes_nil (x : α) : changes x [] = [] := rfl

theorem changes_cons_self (x : α) (l : List α) : changes x (x :: l) = changes x l := if_pos rfl

theorem changes_cons_ne {x y : α} (h : y ≠ x) (l : List α) :
    changes x (y :: l) = y :: changes y l := if_neg h

theorem changes_append (x : α) (l r : List α) :
    changes x (l ++ r) = changes x l ++ changes (l.getLastD x) r := by
  induction l generalizing x with
  | nil => rfl
  | cons y l ih =>
    rw [List.cons_append, List.getLastD_cons]
    by_cases hy : y = x
    · subst hy
      rw [changes_cons_self, changes_cons_self, ih]
    · rw [changes_cons_ne hy, changes_cons_ne hy, ih, List.cons_append]

/-- The last change leads to the last element. -/
theorem getLastD_changes (x : α) (l : List α) : (changes x l).getLastD x = l.getLastD x := by
  induction l generalizing x with
  | nil => rfl
  | cons y l ih =>
    rw [List.getLastD_cons]
    by_cases hy : y = x
    · subst hy
      rw [changes_cons_self, ih]
    · rw [changes_cons_ne hy, List.getLastD_cons, ih]

theorem mem_of_mem_changes {x v : α} {l : List α} (h : v ∈ changes x l) : v ∈ l := by
  induction l generalizing x with
  | nil => cases h
  | cons y l ih =>
    by_cases hy : y = x
    · subst hy
      rw [changes_cons_self] at h
      exact List.mem_cons_of_mem y (ih h)
    · rw [changes_cons_ne hy] at h
      rcases List.mem_cons.mp h with rfl | h
      · exact List.mem_cons_self ..
      · exact List.mem_cons_of_mem y (ih h)

/-- From another start the same changes are seen, but perhaps that to the start. -/
theorem mem_changes_of_start {x v : α} {l : List α} (h : v ∈ changes x l) (y : α) :
    v = y ∨ v ∈ changes y l := by
  induction l with
  | nil => cases h
  | cons z l ih =>
    by_cases hx : z = x
    · rw [hx, changes_cons_self] at h
      by_cases hy : z = y
      · rw [hy, changes_cons_self]
        exact ih h
      · rw [changes_cons_ne hy, hx]
        exact .inr (List.mem_cons_of_mem x h)
    · rw [changes_cons_ne hx] at h
      by_cases hy : z = y
      · subst hy
        rw [changes_cons_self]
        exact List.mem_cons.mp h
      · rw [changes_cons_ne hy]
        exact .inr h

/-- One more element in between loses no change. -/
theorem mem_changes_insert {x v : α} {l r : List α} (h : v ∈ changes x (l ++ r)) (y : α) :
    v ∈ changes x (l ++ y :: r) := by
  rw [changes_append] at h ⊢
  rcases List.mem_append.mp h with h | h
  · exact List.mem_append_left _ h
  · refine List.mem_append_right _ ?_
    by_cases hy : y = l.getLastD x
    · rw [hy, changes_cons_self]
      exact h
    · rw [changes_cons_ne hy]
      exact List.mem_cons.mpr (mem_changes_of_start h y)

end Changes

import Mathlib.Data.List.Basic

/-!
# Delimited text

A text is a list of characters, of any type, and `getlines d` lists what
successive calls of `std::getline` with the delimiter `d` read from it: the
characters up to the next delimiter, which is not kept.  A text that ends with a
delimiter has no empty piece behind it.

* `splitOn_eq_getlines`: the pieces are those of `List.splitOn`, but for an empty
  last one;
* `pieces_intercalate`: the pieces that are not empty, of lists that were joined;
* `pieces_concat`: a delimiter at the end changes none of them.
-/

namespace Delimited

variable {α : Type*}

theorem mem_intercalate {c d : α} {ls : List (List α)} (h : c ∈ [d].intercalate ls) :
    c = d ∨ ∃ l ∈ ls, c ∈ l := by
  induction ls with
  | nil => cases h
  | cons l ls ih =>
    cases ls with
    | nil =>
      rw [List.intercalate_singleton] at h
      exact Or.inr ⟨l, List.mem_cons_self .., h⟩
    | cons l' ls =>
      rw [List.intercalate_cons_cons, List.mem_append, List.mem_append, List.mem_singleton] at h
      rcases h with (h | h) | h
      · exact Or.inr ⟨l, List.mem_cons_self .., h⟩
      · exact Or.inl h
      · rcases ih h with rfl | ⟨m, hm, hc⟩
        · exact Or.inl rfl
        · exact Or.inr ⟨m, List.mem_cons_of_mem _ hm, hc⟩

variable [DecidableEq α]

/-- What the loop `while(std::getline(text, piece, d))` reads. -/
def getlines (d : α) : List α → List (List α)
  | [] => []
  | c :: cs =>
    if c = d then [] :: getlines d cs
    else
      match getlines d cs with
      | [] => [[c]]
      | l :: ls => (c :: l) :: ls

/-- The pieces that are not empty. -/
def pieces (d : α) (text : List α) : List (List α) := (getlines d text).filter fun l => l ≠ []

theorem splitOn_eq_getlines (d : α) (text : List α) :
    text.splitOn d = getlines d text ++ [[]] ∨
      (text.splitOn d = getlines d text ∧ getlines d text ≠ []) := by
  induction text with
  | nil => exact Or.inl rfl
  | cons c cs ih =>
    rw [List.splitOn_cons_eq_if_modifyHead]
    by_cases h : c = d
    · subst h
      simp only [beq_self_eq_true, ↓reduceIte, getlines]
      rcases ih with ih | ⟨ih, -⟩
      · exact Or.inl (by rw [ih, List.cons_append])
      · exact Or.inr ⟨by rw [ih], List.cons_ne_nil _ _⟩
    · simp only [beq_false_of_ne h, Bool.false_eq_true, ↓reduceIte, getlines, if_neg h]
      rcases ih with ih | ⟨ih, hne⟩
      · rw [ih]
        cases getlines d cs with
        | nil => exact Or.inr ⟨rfl, List.cons_ne_nil _ _⟩
        | cons l ls => exact Or.inl rfl
      · rw [ih]
        cases hg : getlines d cs with
        | nil => exact absurd hg hne
        | cons l ls => exact Or.inr ⟨rfl, List.cons_ne_nil _ _⟩

theorem pieces_eq_splitOn (d : α) (text : List α) :
    pieces d text = (text.splitOn d).filter fun l => l ≠ [] := by
  rcases splitOn_eq_getlines d text with h | ⟨h, -⟩
  · rw [h, List.filter_append, pieces]
    simp
  · rw [h, pieces]

theorem pieces_intercalate {d : α} {ls : List (List α)} (h : ∀ l ∈ ls, d ∉ l) :
    pieces d ([d].intercalate ls) = ls.filter fun l => l ≠ [] := by
  cases ls with
  | nil => rfl
  | cons l ls => rw [pieces_eq_splitOn, List.splitOn_intercalate d h (List.cons_ne_nil _ _)]

theorem pieces_concat (d : α) (text : List α) : pieces d (text ++ [d]) = pieces d text := by
  rw [pieces_eq_splitOn, pieces_eq_splitOn, List.splitOn_append_cons_self, List.filter_append]
  simp

end Delimited

import Mathlib.Data.Multiset.Bind
import Mathlib.Data.Multiset.Filter
import Mathlib.Order.Bounds.Basic

/-!
# Groups of elements that are near each other

A grouping splits a multiset into groups whose elements are pairwise `near`.
Elements that are pairwise not `near` lie in different groups, so

* `Groups.length_le_card`: a grouping has at least as many groups as there
  are such elements, and
* `Groups.isLeast_card`: a grouping with exactly as many groups as there are such
  elements is a smallest one.
-/

namespace Grouping

variable {α : Type}

/-- The groups make up `s`, and any two elements of a group are `near`. -/
structure Groups (near : α → α → Prop) (s : Multiset α) (groups : Multiset (Multiset α)) : Prop where
  join : groups.join = s
  near : ∀ g ∈ groups, ∀ x ∈ g, ∀ y ∈ g, near x y

variable {near : α → α → Prop} {s : Multiset α} {groups : Multiset (Multiset α)}

theorem Groups.exists_group (h : Groups near s groups) {x : α} (hx : x ∈ s) :
    ∃ g ∈ groups, x ∈ g := by
  rw [← h.join] at hx
  exact Multiset.mem_join.mp hx

/-- Of elements that are pairwise not `near`, a group has at most one. -/
theorem length_le_one {g : Multiset α} (hg : ∀ x ∈ g, ∀ y ∈ g, near x y) {apart : List α}
    (happart : apart.Pairwise fun x y => ¬near x y) (hmem : ∀ x ∈ apart, x ∈ g) :
    apart.length ≤ 1 := by
  cases apart with
  | nil => simp
  | cons x rest =>
    cases rest with
    | nil => simp
    | cons y rest =>
      have hxy : ¬near x y := List.rel_of_pairwise_cons happart (List.mem_cons_self ..)
      have hx : x ∈ g := hmem x (by simp)
      have hy : y ∈ g := hmem y (by simp)
      exact absurd (hg x hx y hy) hxy

open Classical in
/-- Groups that cover elements which are pairwise not `near`. -/
theorem length_le_card_of_cover (hnear : ∀ g ∈ groups, ∀ x ∈ g, ∀ y ∈ g, near x y)
    {apart : List α} (happart : apart.Pairwise fun x y => ¬near x y)
    (hcover : ∀ x ∈ apart, ∃ g ∈ groups, x ∈ g) : apart.length ≤ groups.card := by
  induction groups using Multiset.induction_on generalizing apart with
  | empty =>
    cases apart with
    | nil => simp
    | cons x rest => simpa using hcover x (List.mem_cons_self ..)
  | cons g groups ih =>
    -- at most one of them is in `g`, and the others are covered by the rest
    have hin : (apart.filter fun x => decide (x ∈ g)).length ≤ 1 := by
      apply length_le_one (hnear g (Multiset.mem_cons_self ..)) (happart.filter _)
      intro x hx
      simpa using (List.mem_filter.mp hx).2
    have hout : (apart.filter fun x => !decide (x ∈ g)).length ≤ groups.card := by
      apply ih
      · intro g' hg'
        exact hnear g' (Multiset.mem_cons_of_mem hg')
      · exact happart.filter _
      · intro x hx
        obtain ⟨hx, hng⟩ := List.mem_filter.mp hx
        obtain ⟨g', hg', hxg'⟩ := hcover x hx
        rcases Multiset.mem_cons.mp hg' with rfl | hg'
        · simp [hxg'] at hng
        · exact ⟨g', hg', hxg'⟩
    have hsplit := List.length_eq_length_filter_add (l := apart) fun x => decide (x ∈ g)
    rw [Multiset.card_cons]
    omega

/-- **Packing is below covering.** -/
theorem Groups.length_le_card (h : Groups near s groups) {apart : List α}
    (happart : apart.Pairwise fun x y => ¬near x y) (hmem : ∀ x ∈ apart, x ∈ s) :
    apart.length ≤ groups.card :=
  length_le_card_of_cover h.near happart fun x hx => h.exists_group (hmem x hx)

/-- **A smallest grouping**: one that has an element of its own, far from those
of the others, in each group. -/
theorem Groups.isLeast_card (h : Groups near s groups) {apart : List α}
    (happart : apart.Pairwise fun x y => ¬near x y) (hmem : ∀ x ∈ apart, x ∈ s)
    (hlen : groups.card ≤ apart.length) :
    IsLeast {n | ∃ groups, Groups near s groups ∧ groups.card = n} groups.card := by
  constructor
  · exact ⟨groups, h, rfl⟩
  · rintro n ⟨other, hother, rfl⟩
    exact Nat.le_trans hlen (hother.length_le_card happart hmem)

end Grouping

import Mathlib.Data.Fintype.Basic
import Mathlib.Data.List.FinRange

/-!
# Slot tables

A fixed number of slots, each empty or with one member, where a member knows the
slot it is in by its handle.

* `Holds`: the slots hold the members of a list, each once and under its handle;
* `Holds.exists_free`: fewer members than slots leave a slot free;
* `Holds.place`, `Holds.clear`: a new member in a free slot, and a member that goes.
-/

namespace SlotTable

variable {n : Nat} {α : Type*}

/-- The first empty slot. -/
def free? (slots : Fin n → Option α) : Option (Fin n) :=
  (List.finRange n).find? fun i => (slots i).isNone

/-- The slots hold the members of the list, each in one slot and under its handle. -/
structure Holds (handle : α → Int) (slots : Fin n → Option α) (members : List α) : Prop where
  mem_iff : ∀ c, c ∈ members ↔ ∃ i, slots i = some c
  handle_eq : ∀ i c, slots i = some c → handle c = i

namespace Holds

variable {handle : α → Int} {slots : Fin n → Option α} {members : List α}

theorem slot_unique (h : Holds handle slots members) {i j : Fin n} {c : α}
    (hi : slots i = some c) (hj : slots j = some c) : i = j := by
  have hij := (h.handle_eq i c hi).symm.trans (h.handle_eq j c hj)
  exact Fin.ext (by exact_mod_cast hij)

/-- A full table holds `n` members. -/
theorem exists_free (h : Holds handle slots members) (hlen : members.length < n) :
    ∃ i, free? slots = some i ∧ slots i = none := by
  cases hfree : free? slots with
  | some i =>
    have hi := List.find?_some hfree
    exact ⟨i, rfl, Option.isNone_iff_eq_none.mp hi⟩
  | none =>
    exfalso
    have hfull : ∀ i, ∃ c, slots i = some c := by
      intro i
      have hi := List.find?_eq_none.mp hfree i (List.mem_finRange i)
      exact Option.ne_none_iff_exists'.mp (by simpa using hi)
    choose occupant hoccupant using hfull
    have hnodup : ((List.finRange n).map occupant).Nodup := by
      refine (List.nodup_finRange _).map_on ?_
      intro i _ j _ hij
      exact h.slot_unique (hoccupant i) (hij ▸ hoccupant j)
    have hsub : (List.finRange n).map occupant ⊆ members := by
      intro c hc
      obtain ⟨i, -, rfl⟩ := List.mem_map.mp hc
      exact (h.mem_iff _).mpr ⟨i, hoccupant i⟩
    have hle := (hnodup.subperm hsub).length_le
    rw [List.length_map, List.length_finRange] at hle
    omega

variable [DecidableEq α]

/-- A member that has no slot gets a free one. -/
theorem place (h : Holds handle slots members) {i : Fin n} {member : α}
    (hfree : slots i = none) (hnew : member ∉ members) :
    Holds (Function.update handle member i) (Function.update slots i (some member))
      (member :: members) where
  mem_iff c := by
    rw [List.mem_cons, h.mem_iff]
    constructor
    · rintro (rfl | ⟨j, hj⟩)
      · exact ⟨i, Function.update_self ..⟩
      · refine ⟨j, ?_⟩
        rw [Function.update_of_ne, hj]
        rintro rfl
        rw [hfree] at hj
        cases hj
    · rintro ⟨j, hj⟩
      by_cases hji : j = i
      · subst hji
        rw [Function.update_self] at hj
        exact .inl (Option.some.inj hj).symm
      · rw [Function.update_of_ne hji] at hj
        exact .inr ⟨j, hj⟩
  handle_eq j c hj := by
    by_cases hji : j = i
    · subst hji
      rw [Function.update_self] at hj
      cases hj
      exact Function.update_self ..
    · rw [Function.update_of_ne hji] at hj
      have hc : c ≠ member := by
        rintro rfl
        exact hnew ((h.mem_iff c).mpr ⟨j, hj⟩)
      rw [Function.update_of_ne hc, h.handle_eq j c hj]

/-- Clearing the slot of a member removes it. -/
theorem clear (h : Holds handle slots members) {i : Fin n} {member : α}
    (hi : slots i = some member) (hnodup : members.Nodup) :
    Holds handle (Function.update slots i none) (members.erase member) where
  mem_iff c := by
    rw [hnodup.mem_erase_iff, h.mem_iff]
    constructor
    · rintro ⟨hc, j, hj⟩
      refine ⟨j, ?_⟩
      rw [Function.update_of_ne, hj]
      rintro rfl
      exact hc (Option.some.inj (hj.symm.trans hi))
    · rintro ⟨j, hj⟩
      have hji : j ≠ i := by
        rintro rfl
        rw [Function.update_self] at hj
        cases hj
      rw [Function.update_of_ne hji] at hj
      refine ⟨?_, j, hj⟩
      rintro rfl
      exact hji (h.slot_unique hj hi)
  handle_eq j c hj := by
    have hji : j ≠ i := by
      rintro rfl
      rw [Function.update_self] at hj
      cases hj
    rw [Function.update_of_ne hji] at hj
    exact h.handle_eq j c hj

end Holds

end SlotTable

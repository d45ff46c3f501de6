import Mathlib.Tactic.Ring
import Mathlib.Algebra.Order.Ring.Int

/-!
# Two's complement integers

`wrap w x` is the value of `x` stored in a signed integer of `w` bits, and
`Fits w x` says that `x` is one of its values.  Conversions between widths
and sums that overflow are `wrap`; where nothing overflows it is the identity
(`wrap_of_fits`).
-/

namespace TwosComplement

/-- `x` reduced to a signed integer of `w` bits. -/
def wrap (w : Nat) (x : Int) : Int := x.bmod (2 ^ w)

/-- The values of a signed integer of `w` bits. -/
def Fits (w : Nat) (x : Int) : Prop := -2 ^ (w - 1) ≤ x ∧ x < 2 ^ (w - 1)

instance (w : Nat) (x : Int) : Decidable (Fits w x) :=
  inferInstanceAs (Decidable (_ ∧ _))

theorem two_mul_half {w : Nat} (hw : 0 < w) : ((2 ^ w : Nat) : Int) = 2 * 2 ^ (w - 1) := by
  obtain ⟨v, rfl⟩ := Nat.exists_eq_succ_of_ne_zero hw.ne'
  simp only [Nat.succ_eq_add_one, Nat.add_sub_cancel]
  push_cast
  ring

theorem wrap_of_fits {w : Nat} (hw : 0 < w) {x : Int} (h : Fits w x) : wrap w x = x := by
  obtain ⟨hlo, hhi⟩ := h
  have hm := two_mul_half hw
  apply Int.bmod_eq_of_le_mul_two
  · rw [hm]; omega
  · rw [hm]; omega

theorem wrap_fits {w : Nat} (hw : 0 < w) (x : Int) : Fits w (wrap w x) := by
  have hm := two_mul_half hw
  have hpos : 0 < 2 ^ w := Nat.two_pow_pos w
  have hlo : -(((2 ^ w : Nat) : Int) / 2) ≤ wrap w x := Int.le_bmod hpos
  have hhi : wrap w x < (((2 ^ w : Nat) : Int) + 1) / 2 := Int.bmod_lt hpos
  constructor
  · omega
  · omega

theorem fits_mono {v w : Nat} (hvw : v ≤ w) {x : Int} (h : Fits v x) : Fits w x := by
  have hp : (2 : Int) ^ (v - 1) ≤ 2 ^ (w - 1) := by
    apply pow_le_pow_right₀ (by norm_num)
    omega
  obtain ⟨hlo, hhi⟩ := h
  constructor
  · omega
  · omega

/-- Narrowing in two stages. -/
theorem wrap_wrap_of_ge {v w : Nat} (hvw : v ≤ w) (x : Int) : wrap v (wrap w x) = wrap v x := by
  exact Int.bmod_bmod_of_dvd (Nat.pow_dvd_pow 2 hvw)

/-- An overflow past the largest value goes round once. -/
theorem wrap_of_overflow {w : Nat} (hw : 0 < w) {x : Int} (hlo : 2 ^ (w - 1) ≤ x)
    (hhi : x < 2 ^ w) : wrap w x = x - 2 ^ w := by
  have hm := two_mul_half hw
  have hcast : ((2 ^ w : Nat) : Int) = 2 ^ w := by push_cast; rfl
  have hpos : (0 : Int) < 2 ^ (w - 1) := Int.pow_pos (by omega)
  have hmod : x % ((2 ^ w : Nat) : Int) = x := Int.emod_eq_of_lt (by omega) (by omega)
  simp only [wrap, Int.bmod_def, hmod]
  rw [if_neg (by omega), hcast]

/-- Halving, rounded towards zero, stays within the width. -/
theorem Fits.tdiv_two {w : Nat} {x : Int} (h : Fits w x) : Fits w (x.tdiv 2) := by
  obtain ⟨hlo, hhi⟩ := h
  rcases Int.le_total 0 x with hx | hx
  · rw [Int.tdiv_eq_ediv_of_nonneg hx]
    constructor
    · omega
    · omega
  · obtain ⟨y, rfl⟩ : ∃ y, x = -y := ⟨-x, by omega⟩
    rw [Int.neg_tdiv, Int.tdiv_eq_ediv_of_nonneg (by omega)]
    constructor
    · omega
    · omega

end TwosComplement

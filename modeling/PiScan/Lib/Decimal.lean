import Mathlib.Data.Int.Log
import Mathlib.Data.Rat.Floor
import PiScan.Lib.PropertyTree

/-!
# Numbers as decimal texts

`gText p q` is the text that a stream of precision `p` writes for the number `q`
(the format `%g`): `p` significant digits without the trailing zeros, and a power
of ten once there would be more than `p` places before the point.

* `gText_intCast`: a whole number of at most `p` digits is written as an integer;
* `readInt_gText`: from `10 ^ p` on no integer is read from the text.

`Binary32` are the finite numbers of the binary format of 32 bits, by value: the
two zeros are one number.

* `Binary32.value_ofInt`: an integer of the format is converted exactly.
-/

namespace Decimal

open PropertyTree TwosComplement

/-! ## Writing -/

/-- `n / d`, rounded to the nearest integer, a half to the even one. -/
def nearest (n d : Nat) : Nat :=
  if 2 * (n % d) < d then n / d
  else if d < 2 * (n % d) then n / d + 1
  else n / d + n / d % 2

/-- `n / d * 10 ^ j`, rounded. -/
def scaled (n d : Nat) (j : Int) : Nat :=
  if 0 ≤ j then nearest (n * 10 ^ j.toNat) d else nearest n (d * 10 ^ (-j).toNat)

/-- The first `p` digits of a number, as one integer, and the power of ten of
the first of them. -/
def significant (p : Nat) (q : ℚ) : Nat × Int :=
  let x := Int.log 10 |q|
  let d := scaled q.num.natAbs q.den (p - 1 - x)
  -- all nines can round up to one digit more
  if d = 10 ^ p then (10 ^ (p - 1), x + 1) else (d, x)

/-- The `k` places after the point, without the zeros at their end. -/
def places (r k : Nat) : List Char :=
  let ds := Nat.toDigits 10 r
  ((List.replicate (k - ds.length) '0' ++ ds).reverse.dropWhile (· = '0')).reverse

/-- `d / 10 ^ k`, written out. -/
def pointText (d k : Nat) : List Char :=
  let ps := places (d % 10 ^ k) k
  Nat.toDigits 10 (d / 10 ^ k) ++ if ps.isEmpty then [] else '.' :: ps

/-- The exponent, in two digits at least. -/
def exponentText (x : Int) : List Char :=
  let ds := Nat.toDigits 10 x.natAbs
  'e' :: (if x < 0 then '-' else '+') :: (List.replicate (2 - ds.length) '0' ++ ds)

/-- The format `%g` of precision `p`. -/
def gText (p : Nat) (q : ℚ) : String :=
  let (d, x) := significant p q
  let body :=
    if -4 ≤ x ∧ x < p then pointText d (p - 1 - x).toNat
    else pointText d (p - 1) ++ exponentText x
  String.ofList (if q < 0 then '-' :: body else body)

/-! ## Whole numbers -/

theorem nearest_one (n : Nat) : nearest n 1 = n := by
  simp [nearest, Nat.mod_one]

theorem nearest_mul (n : Nat) {d : Nat} (hd : 0 < d) : nearest (n * d) d = n := by
  have hmod : n * d % d = 0 := Nat.mul_mod_left n d
  simp [nearest, hmod, hd]

theorem places_zero (k : Nat) : places 0 k = [] := by
  have hall : ∀ c ∈ (List.replicate (k - 1) '0' ++ ['0']).reverse, decide (c = '0') = true := by
    intro c hc
    rw [List.mem_reverse, List.mem_append, List.mem_singleton] at hc
    rcases hc with hc | rfl
    · exact decide_eq_true (List.eq_of_mem_replicate hc)
    · rfl
  have hzero : Nat.toDigits 10 0 = ['0'] := rfl
  simp only [places, hzero, List.length_singleton, List.dropWhile_eq_nil_iff.mpr hall,
    List.reverse_nil]

theorem pointText_mul (n k : Nat) : pointText (n * 10 ^ k) k = Nat.toDigits 10 n := by
  have hpos : 0 < 10 ^ k := by positivity
  rw [pointText, Nat.mul_mod_left, places_zero, Nat.mul_div_cancel _ hpos]
  simp

theorem significant_intCast {p : Nat} {n : Int} (hp : 0 < p) (h : n.natAbs < 10 ^ p) :
    significant p n =
      (n.natAbs * 10 ^ (p - 1 - Nat.log 10 n.natAbs), (Nat.log 10 n.natAbs : Int)) := by
  have hlog : Int.log 10 |(n : ℚ)| = Nat.log 10 n.natAbs := by
    rw [← Int.cast_abs, Int.abs_eq_natAbs, Int.cast_natCast, Int.log_natCast]
  have hlt : Nat.log 10 n.natAbs < p := Nat.log_lt_of_lt_pow' (by omega) h
  have hexp : ((p : Int) - 1 - Nat.log 10 n.natAbs).toNat = p - 1 - Nat.log 10 n.natAbs := by omega
  have hscaled : scaled n.natAbs 1 (p - 1 - Nat.log 10 n.natAbs) =
      n.natAbs * 10 ^ (p - 1 - Nat.log 10 n.natAbs) := by
    rw [scaled, if_pos (by omega), nearest_one, hexp]
  have hne : n.natAbs * 10 ^ (p - 1 - Nat.log 10 n.natAbs) ≠ 10 ^ p := by
    apply ne_of_lt
    calc n.natAbs * 10 ^ (p - 1 - Nat.log 10 n.natAbs)
        < 10 ^ (Nat.log 10 n.natAbs + 1) * 10 ^ (p - 1 - Nat.log 10 n.natAbs) :=
          Nat.mul_lt_mul_of_pos_right (Nat.lt_pow_succ_log_self (by decide) _) (by positivity)
      _ = 10 ^ p := by rw [← pow_add]; congr 1; omega
  simp only [significant, hlog, Rat.num_intCast, Rat.den_intCast, hscaled, if_neg hne]

/-- **Whole numbers are written as integers.** -/
theorem gText_intCast {p : Nat} {n : Int} (hp : 0 < p) (h : n.natAbs < 10 ^ p) :
    gText p n = toString n := by
  have hlt : Nat.log 10 n.natAbs < p := Nat.log_lt_of_lt_pow' (by omega) h
  have hexp : ((p : Int) - 1 - Nat.log 10 n.natAbs).toNat = p - 1 - Nat.log 10 n.natAbs := by omega
  have hbody : gText p n = String.ofList
      (if n < 0 then '-' :: Nat.toDigits 10 n.natAbs else Nat.toDigits 10 n.natAbs) := by
    have hrange : -4 ≤ (Nat.log 10 n.natAbs : Int) ∧ (Nat.log 10 n.natAbs : Int) < p := by omega
    simp only [gText, significant_intCast hp h, if_pos hrange, hexp, pointText_mul,
      Int.cast_lt_zero]
  rw [hbody]
  apply String.toList_inj.mp
  rw [String.toList_ofList]
  cases n with
  | ofNat m =>
    rw [toList_toString_ofNat, if_neg (by simp)]
    rfl
  | negSucc m =>
    rw [toList_toString_negSucc, if_pos (Int.negSucc_lt_zero m)]
    rfl

/-! ## Numbers with too many places -/

theorem le_significant {p : Nat} {q : ℚ} (h : 10 ^ p ≤ |q|) : (p : Int) ≤ (significant p q).2 := by
  have hpos : 0 < |q| := lt_of_lt_of_le (by positivity) h
  have hlog : (p : Int) ≤ Int.log 10 |q| := by
    rw [← Int.zpow_le_iff_le_log (by decide) hpos]
    exact_mod_cast h
  simp only [significant]
  split
  · exact hlog.trans (by omega)
  · exact hlog

/-- Digits with something else among them are no number. -/
theorem readDigits_eq_none {cs : List Char} {c : Char} (hc : c ∈ cs) (hd : c.isDigit = false) :
    readDigits cs = none := by
  have hall : cs.all Char.isDigit = false := by
    rw [List.all_eq_false]
    exact ⟨c, hc, by simp [hd]⟩
  simp [readDigits, hall]

theorem mem_dropWhile {cs : List Char} {c : Char} (hc : c ∈ cs) (hs : isSpace c = false) :
    c ∈ cs.dropWhile isSpace := by
  induction cs with
  | nil => exact hc
  | cons c' cs ih =>
    rw [List.dropWhile_cons]
    split
    · rename_i hspace
      rcases List.mem_cons.mp hc with rfl | hc
      · rw [hs] at hspace
        cases hspace
      · exact ih hc
    · exact hc

theorem mem_trim {cs : List Char} {c : Char} (hc : c ∈ cs) (hs : isSpace c = false) :
    c ∈ trim cs := by
  have hleft : c ∈ (cs.dropWhile isSpace).reverse := List.mem_reverse.mpr (mem_dropWhile hc hs)
  exact List.mem_reverse.mpr (mem_dropWhile hleft hs)

/-- A text with a letter in it is read as no integer. -/
theorem readInt_eq_none {w : Nat} {text : String} (hc : 'e' ∈ text.toList) :
    readInt w text = none := by
  have hmem : 'e' ∈ trim text.toList := mem_trim hc (by decide)
  have htail : ∀ {sign : Char} {cs : List Char}, 'e' ∈ sign :: cs → 'e' ≠ sign →
      readDigits cs = none := by
    intro sign cs hm hne
    rcases List.mem_cons.mp hm with heq | hm
    · exact absurd heq hne
    · exact readDigits_eq_none hm (by decide)
  unfold readInt
  generalize trim text.toList = cs at hmem
  split
  · simp [htail hmem (by decide)]
  · simp [htail hmem (by decide)]
  · simp [readDigits_eq_none hmem (by decide)]

/-- **Large numbers are written with an exponent**, which no integer has. -/
theorem readInt_gText {p w : Nat} {q : ℚ} (h : 10 ^ p ≤ |q|) : readInt w (gText p q) = none := by
  have hx := le_significant h
  apply readInt_eq_none
  have hexp : ∀ x : Int, 'e' ∈ exponentText x := fun x => List.mem_cons_self ..
  have hrange : ¬ (-4 ≤ (significant p q).2 ∧ (significant p q).2 < p) := by omega
  simp only [gText, if_neg hrange, String.toList_ofList]
  split
  · exact List.mem_cons_of_mem _ (List.mem_append_right _ (hexp _))
  · exact List.mem_append_right _ (hexp _)

/-! ## Binary numbers -/

/-- The finite values of the format: `24` bits and a power of two. -/
def IsBinary32 (q : ℚ) : Prop :=
  ∃ m e : Int, m.natAbs < 2 ^ 24 ∧ -149 ≤ e ∧ e ≤ 104 ∧ q = m * 2 ^ e

@[ext]
structure Binary32 where
  value : ℚ
  finite : IsBinary32 value
  deriving DecidableEq

/-- A natural number, rounded to `24` bits. -/
def roundBits (n : Nat) : Nat :=
  let s := n.log2 - 23
  nearest n (2 ^ s) * 2 ^ s

theorem nearest_le (n d : Nat) : nearest n d ≤ n / d + 1 := by
  unfold nearest
  split
  · omega
  · split
    · omega
    · omega

theorem roundBits_mul {m e : Nat} (hm : m < 2 ^ 24) : roundBits (m * 2 ^ e) = m * 2 ^ e := by
  have hlog : (m * 2 ^ e).log2 - 23 ≤ e := by
    rcases Nat.eq_zero_or_pos m with rfl | hpos
    · simp
    have hlt : m * 2 ^ e < 2 ^ (24 + e) := by
      rw [pow_add]
      exact Nat.mul_lt_mul_of_pos_right hm (by positivity)
    have := (Nat.log2_lt (by positivity)).mpr hlt
    omega
  obtain ⟨k, hk⟩ := Nat.exists_eq_add_of_le hlog
  rw [roundBits]
  generalize hs : (m * 2 ^ e).log2 - 23 = s at hk
  have hsplit : m * 2 ^ e = m * 2 ^ k * 2 ^ s := by
    rw [mul_assoc, ← pow_add, Nat.add_comm k, ← hk]
  rw [hsplit, nearest_mul _ (by positivity)]

theorem roundBits_eq_mul {n : Nat} (h : n ≤ 2 ^ 31) :
    ∃ k s, k ≤ 2 ^ 24 ∧ s ≤ 8 ∧ roundBits n = k * 2 ^ s := by
  have hlog : n.log2 ≤ 31 := by
    rcases Nat.eq_zero_or_pos n with rfl | hpos
    · simp
    · have := (Nat.log2_lt hpos.ne').mpr (h.trans_lt (by decide : 2 ^ 31 < 2 ^ 32))
      omega
  refine ⟨_, n.log2 - 23, ?_, by omega, rfl⟩
  have hlt : n < 2 ^ 24 * 2 ^ (n.log2 - 23) := by
    calc n < 2 ^ (n.log2 + 1) := Nat.lt_log2_self
      _ ≤ 2 ^ (24 + (n.log2 - 23)) := Nat.pow_le_pow_right (by decide) (by omega)
      _ = 2 ^ 24 * 2 ^ (n.log2 - 23) := pow_add ..
  have hdiv : n / 2 ^ (n.log2 - 23) < 2 ^ 24 := (Nat.div_lt_iff_lt_mul (by positivity)).mpr hlt
  have hnear := nearest_le n (2 ^ (n.log2 - 23))
  omega

theorem isBinary32_mul {m : Int} {s : Nat} (hm : m.natAbs ≤ 2 ^ 24) (hs : s ≤ 103) :
    IsBinary32 ((m * 2 ^ s : Int) : ℚ) := by
  rcases Nat.lt_or_eq_of_le hm with hlt | heq
  · exact ⟨m, s, hlt, by omega, by omega, by push_cast; rw [zpow_natCast]⟩
  · -- the next power of two has one bit
    obtain ⟨half, rfl⟩ : (2 : Int) ∣ m := Int.natAbs_dvd_natAbs.mp (by rw [heq]; decide)
    refine ⟨half, s + 1, by omega, by omega, by omega, ?_⟩
    push_cast
    rw [zpow_add₀ (by norm_num), zpow_natCast, zpow_one]
    ring

namespace Binary32

/-- The conversion from `int`. -/
def ofInt (n : Int32) : Binary32 where
  value := (n.toInt.sign * roundBits n.toInt.natAbs : Int)
  finite := by
    have hlo := Int32.le_toInt n
    have hhi := Int32.toInt_lt n
    obtain ⟨k, s, hk, hs, heq⟩ := roundBits_eq_mul (n := n.toInt.natAbs) (by omega)
    have hmul : n.toInt.sign * (roundBits n.toInt.natAbs : Int) = n.toInt.sign * k * 2 ^ s := by
      rw [heq]
      push_cast
      ring
    rw [hmul]
    apply isBinary32_mul _ (by omega)
    rw [Int.natAbs_mul, Int.natAbs_natCast, Int.natAbs_sign]
    split
    · omega
    · omega

theorem value_ofInt_whole (n : Int32) : ∃ k : Int, (ofInt n).value = k := ⟨_, rfl⟩

/-- **Integers of the format are converted exactly.** -/
theorem value_ofInt {n : Int32} (h : IsBinary32 n.toInt) : (ofInt n).value = n.toInt := by
  have hround : roundBits n.toInt.natAbs = n.toInt.natAbs := by
    obtain ⟨m, e, hm, -, -, heq⟩ := h
    rcases le_total 0 e with he | he
    · obtain ⟨s, rfl⟩ := Int.eq_ofNat_of_zero_le he
      have hint : n.toInt = m * 2 ^ s := by exact_mod_cast heq
      rw [hint, Int.natAbs_mul, Int.natAbs_pow]
      exact roundBits_mul hm
    · obtain ⟨s, hs⟩ := Int.eq_ofNat_of_zero_le (Int.neg_nonneg_of_nonpos he)
      have hint : n.toInt * 2 ^ s = m := by
        have hq : (n.toInt : ℚ) * 2 ^ s = m := by
          rw [heq, mul_assoc, ← zpow_natCast, ← zpow_add₀ (by norm_num), ← hs]
          simp
        exact_mod_cast hq
      have hle : n.toInt.natAbs < 2 ^ 24 := by
        calc n.toInt.natAbs ≤ n.toInt.natAbs * 2 ^ s := Nat.le_mul_of_pos_right _ (by positivity)
          _ = m.natAbs := by rw [← hint, Int.natAbs_mul, Int.natAbs_pow]; rfl
          _ < 2 ^ 24 := hm
      simpa using roundBits_mul (e := 0) hle
  show ((n.toInt.sign * (roundBits n.toInt.natAbs : Int) : Int) : ℚ) = n.toInt
  rw [hround, Int.sign_mul_natAbs]

end Binary32

end Decimal

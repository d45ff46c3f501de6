import PiScan.Lib.Decimal

/-!
# Texts that are read as floats

`stof` reads the longest number at the start of a text, in decimal or hexadecimal
digits, and rounds it to the binary format of 32 bits.

* `roundBinary32`: the nearest number of the format, unless it is too large;
* `strtof`: the number as it is written, and what is left of the text;
* `stof`: the two together.
-/

namespace Decimal

open PropertyTree

/-! ## Rounding -/

/-- The exponent of the last of the `24` bits; the smallest numbers have fewer. -/
def lastBit (q : ℚ) : Int := max (Int.log 2 |q| - 23) (-149)

/-- `|q| / 2 ^ e`, rounded. -/
def bitsAt (q : ℚ) (e : Int) : Nat :=
  if 0 ≤ e then nearest q.num.natAbs (q.den * 2 ^ e.toNat)
  else nearest (q.num.natAbs * 2 ^ (-e).toNat) q.den

theorem nearest_le_of_le {n d k : Nat} (hd : 0 < d) (h : n ≤ k * d) : nearest n d ≤ k := by
  rcases Nat.lt_or_eq_of_le h with hlt | rfl
  · have hdiv : n / d < k := (Nat.div_lt_iff_lt_mul hd).mpr hlt
    have hle := nearest_le n d
    omega
  · exact (nearest_mul k hd).le

theorem abs_mul_den (q : ℚ) : |q| * q.den = q.num.natAbs := by
  have hden : (0 : ℚ) < q.den := by exact_mod_cast q.den_pos
  calc |q| * q.den = |q * q.den| := by rw [abs_mul, abs_of_pos hden]
    _ = |(q.num : ℚ)| := by rw [Rat.mul_den_eq_num]
    _ = q.num.natAbs := by rw [Nat.cast_natAbs, Int.cast_abs]

theorem abs_lt_lastBit (q : ℚ) : |q| < 2 ^ (lastBit q + 24) := by
  have hlog : |q| < 2 ^ (Int.log 2 |q| + 1) := by
    exact_mod_cast Int.lt_zpow_succ_log_self (by decide) |q|
  refine hlog.trans_le (zpow_le_zpow_right₀ (by norm_num) ?_)
  have hmax := le_max_left (Int.log 2 |q| - 23) (-149)
  unfold lastBit
  omega

/-- Rounding leaves `24` bits, or one power of two more. -/
theorem bitsAt_le (q : ℚ) : bitsAt q (lastBit q) ≤ 2 ^ 24 := by
  have hq := abs_lt_lastBit q
  have hden : (0 : ℚ) < q.den := by exact_mod_cast q.den_pos
  have hnum : (q.num.natAbs : ℚ) < 2 ^ (lastBit q + 24) * q.den := by
    rw [← abs_mul_den]
    exact mul_lt_mul_of_pos_right hq hden
  generalize lastBit q = e at hnum
  unfold bitsAt
  split
  · next he =>
    obtain ⟨s, rfl⟩ := Int.eq_ofNat_of_zero_le he
    apply nearest_le_of_le (Nat.mul_pos q.den_pos (by positivity))
    have hle : (q.num.natAbs : ℚ) ≤ (2 ^ 24 * (q.den * 2 ^ s) : Nat) := by
      refine hnum.le.trans_eq ?_
      rw [zpow_add₀ (by norm_num), zpow_natCast]
      push_cast
      ring
    exact_mod_cast hle
  · next he =>
    obtain ⟨s, rfl⟩ : ∃ s : Nat, e = -s := ⟨(-e).toNat, by omega⟩
    apply nearest_le_of_le q.den_pos
    have hle : ((q.num.natAbs * 2 ^ s : Nat) : ℚ) ≤ (2 ^ 24 * q.den : Nat) := by
      have hs : (2 : ℚ) ^ (-s + 24 : Int) * 2 ^ s = 2 ^ 24 := by
        rw [← zpow_natCast, ← zpow_add₀ (by norm_num)]
        norm_num
      calc ((q.num.natAbs * 2 ^ s : Nat) : ℚ) = q.num.natAbs * 2 ^ s := by push_cast; ring
        _ ≤ 2 ^ (-s + 24 : Int) * q.den * 2 ^ s := by gcongr
        _ = (2 ^ (-s + 24 : Int) * 2 ^ s) * q.den := by ring
        _ = (2 ^ 24 * q.den : Nat) := by rw [hs]; push_cast; ring
    simpa using (by exact_mod_cast hle : q.num.natAbs * 2 ^ s ≤ 2 ^ 24 * q.den)

theorem isBinary32_bits {m e : Int} (hm : m.natAbs ≤ 2 ^ 24) (hlo : -149 ≤ e)
    (hhi : e ≤ 103 ∨ e = 104 ∧ m.natAbs < 2 ^ 24) : IsBinary32 (m * 2 ^ e) := by
  rcases Nat.lt_or_eq_of_le hm with hlt | heq
  · exact ⟨m, e, hlt, hlo, by omega, rfl⟩
  · -- the next power of two has one bit
    obtain ⟨half, rfl⟩ : (2 : Int) ∣ m := Int.natAbs_dvd_natAbs.mp (by rw [heq]; decide)
    refine ⟨half, e + 1, by omega, by omega, by omega, ?_⟩
    rw [zpow_add₀ (by norm_num), zpow_one]
    push_cast
    ring

theorem isBinary32_round (q : ℚ)
    (h : lastBit q ≤ 103 ∨ lastBit q = 104 ∧ bitsAt q (lastBit q) < 2 ^ 24) :
    IsBinary32 ((q.num.sign * bitsAt q (lastBit q) : Int) * 2 ^ lastBit q) := by
  have hle : (q.num.sign * (bitsAt q (lastBit q) : Int)).natAbs ≤ bitsAt q (lastBit q) := by
    rw [Int.natAbs_mul, Int.natAbs_natCast, Int.natAbs_sign]
    split
    · simp
    · simp
  apply isBinary32_bits (hle.trans (bitsAt_le q)) (le_max_right _ _)
  rcases h with h | ⟨h, hlt⟩
  · exact .inl h
  · exact .inr ⟨h, hle.trans_lt hlt⟩

/-- The nearest number of the format, a tie to the even one; none above the largest. -/
def roundBinary32 (q : ℚ) : Option Binary32 :=
  if h : lastBit q ≤ 103 ∨ lastBit q = 104 ∧ bitsAt q (lastBit q) < 2 ^ 24 then
    some ⟨_, isBinary32_round q h⟩
  else none

/-! ## Reading -/

/-- The value of a digit in a base of at most 16. -/
def digitOf (b : Nat) (c : Char) : Option Nat :=
  let lower := c.toLower
  let d := if c.isDigit then c.toNat - 48 else if 'a' ≤ lower ∧ lower ≤ 'f' then lower.toNat - 87
    else b
  if d < b then some d else none

/-- The digits at the start of a text, and the rest of it. -/
def digits (b : Nat) : List Char → List Nat × List Char
  | [] => ([], [])
  | c :: cs =>
    match digitOf b c with
    | none => ([], c :: cs)
    | some d => (d :: (digits b cs).1, (digits b cs).2)

def ofDigits (b : Nat) (ds : List Nat) : Nat := ds.foldl (fun n d => b * n + d) 0

/-- A minus or a plus. -/
def signOf : List Char → Bool × List Char
  | '-' :: cs => (true, cs)
  | '+' :: cs => (false, cs)
  | cs => (false, cs)

/-- Digits with a point among them, if there is a digit. -/
def mantissa (b : Nat) (cs : List Char) : Option (ℚ × List Char) :=
  let (whole, rest) := digits b cs
  let (part, rest) :=
    match rest with
    | '.' :: rest' => digits b rest'
    | _ => ([], rest)
  if whole = [] ∧ part = [] then none
  else some (ofDigits b (whole ++ part) / b ^ part.length, rest)

/-- An exponent behind its mark; without a digit it is none. -/
def exponent (mark : Char) : List Char → Int × List Char
  | [] => (0, [])
  | c :: cs =>
    if c.toLower = mark then
      let (negative, ds) := signOf cs
      match digits 10 ds with
      | ([], _) => (0, c :: cs)
      | (x, rest) => (if negative then -ofDigits 10 x else ofDigits 10 x, rest)
    else (0, c :: cs)

/-- A mantissa in base `b` and the power of `r` by which it is scaled. -/
def scaledNumber (b : Nat) (mark : Char) (r : ℚ) (cs : List Char) : Option (ℚ × List Char) :=
  (mantissa b cs).map fun (q, rest) =>
    (q * r ^ (exponent mark rest).1, (exponent mark rest).2)

/-- What is written, before it is rounded. -/
inductive Literal
  | number (q : ℚ)
  | notFinite
  deriving DecidableEq

/-- The characters in brackets that can follow `nan`. -/
def afterNan (cs : List Char) : List Char :=
  match cs with
  | '(' :: tag =>
    match tag.dropWhile fun c => c.isAlphanum ∨ c = '_' with
    | ')' :: rest => rest
    | _ => cs
  | _ => cs

def unsignedLiteral (cs : List Char) : Option (Literal × List Char) :=
  let lower := cs.map Char.toLower
  if lower.take 8 = "infinity".toList then some (.notFinite, cs.drop 8)
  else if lower.take 3 = "inf".toList then some (.notFinite, cs.drop 3)
  else if lower.take 3 = "nan".toList then some (.notFinite, afterNan (cs.drop 3))
  else
    let hexadecimal :=
      if lower.take 2 = "0x".toList then scaledNumber 16 'p' 2 (cs.drop 2) else none
    (hexadecimal <|> scaledNumber 10 'e' 10 cs).map fun (q, rest) => (.number q, rest)

/-- `strtof`: the longest number at the start of a text, after white space. -/
def strtof (cs : List Char) : Option (Literal × List Char) :=
  let (negative, body) := signOf (cs.dropWhile isSpace)
  (unsignedLiteral body).map fun (l, rest) =>
    match l with
    | .number q => (.number (if negative then -q else q), rest)
    | .notFinite => (.notFinite, rest)

/-- A value of the type `float`. -/
inductive FloatValue
  | finite (x : Binary32)
  | notFinite
  deriving DecidableEq

/-- Too small for `24` bits, and not exact in fewer. -/
def Underflows (q : ℚ) : Prop :=
  |q| < 2 ^ (-126 : Int) ∧ (roundBinary32 q).map Binary32.value ≠ some q

instance (q : ℚ) : Decidable (Underflows q) := inferInstanceAs (Decidable (_ ∧ _))

/-- `std::stof`: an exception if there is no number or it is out of range. -/
def stof (text : String) : Option FloatValue :=
  match (strtof text.toList).map Prod.fst with
  | none => none
  | some .notFinite => some .notFinite
  | some (.number q) => if Underflows q then none else (roundBinary32 q).map .finite

/-- The text is a number, and nothing but white space is behind it. -/
def IsFloatText (text : String) : Bool :=
  match strtof text.toList with
  | none => false
  | some (_, rest) => rest.all isSpace

end Decimal

import PiScan.Lib.Wire

/-!
# The size of a message on the wire

How many bytes the fields of a message take, from their numbers and the lengths
of their texts alone.

* `length_encode`: the encoding of a list of fields is as long as their sizes sum up;
* `length_scalar`, `length_text`, `length_len`: the size of a field that may be
  left out at its default, and of a message inside a message;
* `scalarSize_le`, `textSize_le`, `memberSize_le`: what such a field with a short
  tag adds at most.
-/

namespace Wire

/-- The bytes of a varint. -/
def varintSize : Nat → Nat → Nat
  | 0, _ => 0
  | k + 1, n => if n < 128 then 1 else varintSize k (n / 128) + 1

/-- The bytes of a value that has its length in front. -/
def lenSize (n : Nat) : Nat := varintSize 10 n + n

def valueSize : Value → Nat
  | .varint n => varintSize 10 n.toNat
  | .fixed64 _ => 8
  | .len bs => lenSize bs.length
  | .fixed32 _ => 4

def tagSize (num wireType : Nat) : Nat := varintSize 10 (num * 8 + wireType)

def fieldSize (f : Field) : Nat := tagSize f.num f.value.wireType + valueSize f.value

theorem length_putVarint (k n : Nat) : (putVarint k n).length = varintSize k n := by
  induction k generalizing n with
  | zero => rfl
  | succ k ih =>
    simp only [putVarint, varintSize]
    split
    · rfl
    · rw [List.length_cons, ih]

theorem length_putFixed (k n : Nat) : (putFixed k n).length = k := by
  induction k generalizing n with
  | zero => rfl
  | succ k ih => rw [putFixed, List.length_cons, ih]

theorem length_putValue (v : Value) : (putValue v).length = valueSize v := by
  cases v with
  | varint n => exact length_putVarint 10 n.toNat
  | fixed64 n => exact length_putFixed 8 n.toNat
  | len bs => rw [putValue, List.length_append, length_putVarint, valueSize, lenSize]
  | fixed32 n => exact length_putFixed 4 n.toNat

/-- **The length of an encoding.** -/
theorem length_encode (fs : List Field) : (encode fs).length = (fs.map fieldSize).sum := by
  induction fs with
  | nil => rfl
  | cons f fs ih =>
    have hcons : encode (f :: fs) = putField f ++ encode fs := rfl
    rw [hcons, List.length_append, ih, List.map_cons, List.sum_cons, putField, List.length_append,
      putTag, length_putVarint, length_putValue, fieldSize, tagSize]

theorem length_encode_append (fs gs : List Field) :
    (encode (fs ++ gs)).length = (encode fs).length + (encode gs).length := by
  rw [encode, encode, encode, List.flatMap_append, List.length_append]

theorem length_fieldUnless (isDefault : Bool) (f : Field) :
    (encode (fieldUnless isDefault f)).length = if isDefault then 0 else fieldSize f := by
  rw [length_encode]
  cases isDefault with
  | true => rfl
  | false => exact Nat.add_zero _

/-! ## Fields that are left out at their default -/

def scalarSize (num : Nat) (n : BitVec 64) : Nat :=
  if n == 0 then 0 else tagSize num 0 + varintSize 10 n.toNat

def floatSize (num : Nat) (n : BitVec 32) : Nat := if n == 0 then 0 else tagSize num 5 + 4

/-- A text of `n` bytes. -/
def textSize (num n : Nat) : Nat := if n = 0 then 0 else tagSize num 2 + lenSize n

/-- A message of `n` bytes inside a message, which is written at any length. -/
def memberSize (num n : Nat) : Nat := tagSize num 2 + lenSize n

theorem length_scalar (num : Nat) (n : BitVec 64) :
    (encode (scalar num n)).length = scalarSize num n := length_fieldUnless _ _

theorem length_float (num : Nat) (n : BitVec 32) :
    (encode (float num n)).length = floatSize num n := length_fieldUnless _ _

theorem length_textBytes (s : String) : (textBytes s).length = s.utf8ByteSize := rfl

theorem length_text (num : Nat) (s : String) :
    (encode (text num s)).length = textSize num s.utf8ByteSize := by
  rw [text, length_fieldUnless, textSize]
  by_cases hs : s = ""
  · subst hs
    rfl
  · have hne : (s == "") = false := by simpa using hs
    have hpos : s.utf8ByteSize ≠ 0 := by simpa using hs
    rw [hne, if_neg hpos]
    simp only [Bool.false_eq_true, if_false, fieldSize, Value.wireType, valueSize, length_textBytes]

theorem length_len (num : Nat) (bs : Bytes) :
    (encode [⟨num, .len bs⟩]).length = memberSize num bs.length := by
  rw [length_encode]
  exact Nat.add_zero _

/-! ## Bounds -/

theorem varintSize_le (k n : Nat) : varintSize k n ≤ k := by
  induction k generalizing n with
  | zero => exact Nat.le_refl 0
  | succ k ih =>
    have hrest := ih (n / 128)
    simp only [varintSize]
    split
    · omega
    · omega

/-- Seven bits take one byte. -/
theorem varintSize_one {k n : Nat} (h : n < 128) : varintSize (k + 1) n = 1 := by
  rw [varintSize, if_pos h]

/-- Fourteen bits take two bytes at most. -/
theorem varintSize_le_two {k n : Nat} (h : n < 16384) : varintSize (k + 2) n ≤ 2 := by
  rw [varintSize]
  split
  · omega
  · rw [varintSize_one (by omega)]

/-- The tag of a field with a number below 16 is one byte. -/
theorem tagSize_one {num wireType : Nat} (hnum : num < 16) (hwire : wireType < 8) :
    tagSize num wireType = 1 := varintSize_one (by omega)

theorem lenSize_le {n : Nat} (h : n < 16384) : lenSize n ≤ n + 2 := by
  have hlen : varintSize 10 n ≤ 2 := varintSize_le_two h
  rw [lenSize]
  omega

theorem scalarSize_le {num : Nat} (hnum : num < 16) (n : BitVec 64) : scalarSize num n ≤ 11 := by
  have hvarint := varintSize_le 10 n.toNat
  rw [scalarSize, tagSize_one hnum (by omega)]
  split
  · omega
  · omega

theorem textSize_le {num n : Nat} (hnum : num < 16) (h : n < 16384) : textSize num n ≤ n + 3 := by
  have hlen := lenSize_le h
  rw [textSize, tagSize_one hnum (by omega)]
  split
  · omega
  · omega

theorem memberSize_le {num n : Nat} (hnum : num < 16) (h : n < 16384) :
    memberSize num n ≤ n + 3 := by
  have hlen := lenSize_le h
  rw [memberSize, tagSize_one hnum (by omega)]
  omega

end Wire

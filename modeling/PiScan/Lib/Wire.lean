import Mathlib.Data.BitVec

/-!
# A tagged wire format

The wire format of protocol buffers.  A message is a list of numbered fields;
a field is a tag (its number and the kind of its value) and a value: a varint,
a fixed number of 4 or 8 bytes, or bytes with their length in front.

`parse` reads fields until the bytes end or do not go on as a field, and says
how it ended.  Fields inside groups, which no message uses, are read and left out.

* `parse_encode`: encoded fields are read back, whatever fields follow;
* `parse_single`: no single byte is a whole field, so a message cut into single
  bytes yields no field at all;
* `mergeAll_append`: reading one list of fields after another merges them.
-/

namespace Wire

abbrev Bytes := List UInt8

/-! ## Varints and fixed numbers -/

/-- Seven bits a byte, least significant first; at most `k` bytes. -/
def putVarint : Nat → Nat → Bytes
  | 0, _ => []
  | k + 1, n =>
    if n < 128 then [UInt8.ofNat n] else UInt8.ofNat (128 + n % 128) :: putVarint k (n / 128)

/-- The number in a varint of at most `k` bytes, and the bytes after it. -/
def getVarint : Nat → Bytes → Option (Nat × Bytes)
  | 0, _ => none
  | _ + 1, [] => none
  | k + 1, b :: bs =>
    if b.toNat < 128 then some (b.toNat, bs)
    else
      match getVarint k bs with
      | none => none
      | some (n, bs) => some (b.toNat - 128 + 128 * n, bs)

/-- `k` bytes, least significant first. -/
def putFixed : Nat → Nat → Bytes
  | 0, _ => []
  | k + 1, n => UInt8.ofNat (n % 256) :: putFixed k (n / 256)

def getFixed : Nat → Bytes → Option (Nat × Bytes)
  | 0, bs => some (0, bs)
  | _ + 1, [] => none
  | k + 1, b :: bs =>
    match getFixed k bs with
    | none => none
    | some (n, bs) => some (b.toNat + 256 * n, bs)

theorem getVarint_putVarint (j k n : Nat) (rest : Bytes) (hn : n < 128 ^ j) (hj : 0 < j)
    (hk : j ≤ k) : getVarint j (putVarint k n ++ rest) = some (n, rest) := by
  induction j generalizing k n with
  | zero => omega
  | succ j ih =>
    obtain ⟨k, rfl⟩ : ∃ k', k = k' + 1 := ⟨k - 1, by omega⟩
    by_cases hsmall : n < 128
    · have hb : (UInt8.ofNat n).toNat = n := by
        rw [UInt8.toNat_ofNat']
        omega
      simp [putVarint, getVarint, hsmall, hb]
    · have hb : (UInt8.ofNat (128 + n % 128)).toNat = 128 + n % 128 := by
        rw [UInt8.toNat_ofNat']
        omega
      have hj' : 0 < j := by
        by_contra h
        obtain rfl : j = 0 := by omega
        omega
      have hdiv : n / 128 < 128 ^ j := by
        rw [Nat.div_lt_iff_lt_mul (by omega), ← Nat.pow_succ]
        exact hn
      have hrest := ih k (n / 128) hdiv hj' (by omega)
      simp only [putVarint, if_neg hsmall, List.cons_append, getVarint, hb, hrest]
      rw [if_neg (by omega)]
      have hsum : 128 + n % 128 - 128 + 128 * (n / 128) = n := by omega
      rw [hsum]

theorem getFixed_putFixed (k n : Nat) (rest : Bytes) (hn : n < 256 ^ k) :
    getFixed k (putFixed k n ++ rest) = some (n, rest) := by
  induction k generalizing n with
  | zero =>
    obtain rfl : n = 0 := by omega
    rfl
  | succ k ih =>
    have hdiv : n / 256 < 256 ^ k := by
      rw [Nat.div_lt_iff_lt_mul (by omega), ← Nat.pow_succ]
      exact hn
    have hb : (UInt8.ofNat (n % 256)).toNat = n % 256 := by
      rw [UInt8.toNat_ofNat']
      omega
    have hsum : n % 256 + 256 * (n / 256) = n := by omega
    simp only [putFixed, List.cons_append, getFixed, ih (n / 256) hdiv, hb, hsum]

/-! ## Fields -/

inductive Value
  | varint (n : BitVec 64)
  | fixed64 (n : BitVec 64)
  | len (bs : Bytes)
  | fixed32 (n : BitVec 32)
  deriving DecidableEq, Repr

structure Field where
  num : Nat
  value : Value
  deriving DecidableEq, Repr

/-- The wire type in the low bits of the tag. -/
def Value.wireType : Value → Nat
  | .varint _ => 0
  | .fixed64 _ => 1
  | .len _ => 2
  | .fixed32 _ => 5

def putTag (num wireType : Nat) : Bytes := putVarint 10 (num * 8 + wireType)

def putValue : Value → Bytes
  | .varint n => putVarint 10 n.toNat
  | .fixed64 n => putFixed 8 n.toNat
  | .len bs => putVarint 10 bs.length ++ bs
  | .fixed32 n => putFixed 4 n.toNat

def putField (f : Field) : Bytes := putTag f.num f.value.wireType ++ putValue f.value

def encode (fs : List Field) : Bytes := fs.flatMap putField

/-- A field number and a length that the format allows. -/
def Field.Valid (f : Field) : Prop :=
  0 < f.num ∧ f.num < 2 ^ 29 ∧ ∀ bs, f.value = .len bs → bs.length < 2 ^ 31

/-- How reading ended: at the end of the bytes, at something that is no field,
or in the middle of a length-delimited value. -/
inductive End
  | complete
  | broken
  | truncated (num : Nat) (bs : Bytes)
  deriving DecidableEq, Repr

inductive Token
  | field (f : Field)
  | startGroup (num : Nat)
  | endGroup (num : Nat)
  deriving DecidableEq, Repr

/-- The value after a tag. -/
def getValue (num wireType : Nat) (bs : Bytes) : Except End (Token × Bytes) :=
  match wireType with
  | 0 =>
    match getVarint 10 bs with
    | none => .error .broken
    | some (n, bs) => .ok (.field ⟨num, .varint (BitVec.ofNat 64 n)⟩, bs)
  | 1 =>
    match getFixed 8 bs with
    | none => .error .broken
    | some (n, bs) => .ok (.field ⟨num, .fixed64 (BitVec.ofNat 64 n)⟩, bs)
  | 2 =>
    match getVarint 5 bs with
    | none => .error .broken
    | some (n, bs) =>
      if 2 ^ 31 ≤ n then .error .broken
      else if n ≤ bs.length then .ok (.field ⟨num, .len (bs.take n)⟩, bs.drop n)
      else .error (.truncated num bs)
  | 3 => .ok (.startGroup num, bs)
  | 4 => .ok (.endGroup num, bs)
  | 5 =>
    match getFixed 4 bs with
    | none => .error .broken
    | some (n, bs) => .ok (.field ⟨num, .fixed32 (BitVec.ofNat 32 n)⟩, bs)
  | _ => .error .broken

/-- A tag of at most 32 bits, with a field number, and its value. -/
def getToken (bs : Bytes) : Except End (Token × Bytes) :=
  match getVarint 5 bs with
  | none => .error .broken
  | some (tag, bs) =>
    if 2 ^ 32 ≤ tag ∨ tag / 8 = 0 then .error .broken else getValue (tag / 8) (tag % 8) bs

/-- Fields up to the end of the bytes, inside the open `groups`; every token
takes at least one byte of the `fuel`. -/
def parseFrom : Nat → List Nat → Bytes → List Field × End
  | _, groups, [] => ([], if groups = [] then .complete else .broken)
  | 0, _, _ :: _ => ([], .broken)
  | fuel + 1, groups, b :: bs =>
    match getToken (b :: bs) with
    | .error e => ([], if groups = [] then e else .broken)
    | .ok (.startGroup num, bs) => parseFrom fuel (num :: groups) bs
    | .ok (.endGroup num, bs) =>
      match groups with
      | [] => ([], .broken)
      | g :: groups => if g = num then parseFrom fuel groups bs else ([], .broken)
    | .ok (.field f, bs) =>
      let (fs, e) := parseFrom fuel groups bs
      (if groups = [] then f :: fs else fs, e)

def parse (bs : Bytes) : List Field × End := parseFrom bs.length [] bs

/-! ## Reading what was written -/

theorem getValue_putValue (f : Field) (hf : f.Valid) (rest : Bytes) :
    getValue f.num f.value.wireType (putValue f.value ++ rest) = .ok (.field f, rest) := by
  obtain ⟨num, value⟩ := f
  obtain ⟨-, -, hlen⟩ := hf
  cases value with
  | varint n =>
    have hn : n.toNat < 128 ^ 10 := Nat.lt_of_lt_of_le n.isLt (by decide)
    simp [getValue, Value.wireType, putValue, getVarint_putVarint 10 10 n.toNat rest hn]
  | fixed64 n =>
    have hn : n.toNat < 256 ^ 8 := n.isLt
    simp [getValue, Value.wireType, putValue, getFixed_putFixed 8 n.toNat rest hn]
  | len bs =>
    have hbs := hlen bs rfl
    have hn : bs.length < 128 ^ 5 := Nat.lt_of_lt_of_le hbs (by decide)
    have hv := getVarint_putVarint 5 10 bs.length (bs ++ rest) hn (by decide) (by decide)
    simp only [getValue, Value.wireType, putValue, List.append_assoc, hv]
    rw [if_neg (by omega), if_pos (by simp), List.take_left, List.drop_left]
  | fixed32 n =>
    have hn : n.toNat < 256 ^ 4 := n.isLt
    simp [getValue, Value.wireType, putValue, getFixed_putFixed 4 n.toNat rest hn]

theorem getToken_putField (f : Field) (hf : f.Valid) (rest : Bytes) :
    getToken (putField f ++ rest) = .ok (.field f, rest) := by
  have hw : f.value.wireType < 8 := by
    cases f.value <;> simp [Value.wireType]
  have htag : f.num * 8 + f.value.wireType < 2 ^ 32 := by
    have := hf.2.1
    omega
  have hv := getVarint_putVarint 5 10 (f.num * 8 + f.value.wireType) (putValue f.value ++ rest)
    (Nat.lt_of_lt_of_le htag (by decide)) (by decide) (by decide)
  have hnum : (f.num * 8 + f.value.wireType) / 8 = f.num := by omega
  have hwire : (f.num * 8 + f.value.wireType) % 8 = f.value.wireType := by omega
  have hpos : f.num ≠ 0 := Nat.pos_iff_ne_zero.mp hf.1
  simp only [getToken, putField, putTag, List.append_assoc, hv, hnum, hwire]
  rw [if_neg (by omega), getValue_putValue f hf rest]

theorem putVarint_ne_nil (k n : Nat) : putVarint (k + 1) n ≠ [] := by
  unfold putVarint
  split <;> simp

theorem putField_cons (f : Field) : ∃ b bs, putField f = b :: bs := by
  obtain ⟨b, bs, h⟩ := List.exists_cons_of_ne_nil
    (putVarint_ne_nil 9 (f.num * 8 + f.value.wireType))
  exact ⟨b, bs ++ putValue f.value, by simp [putField, putTag, h]⟩

theorem parseFrom_encode (fs : List Field) (hfs : ∀ f ∈ fs, f.Valid) (fuel : Nat)
    (hfuel : (encode fs).length ≤ fuel) : parseFrom fuel [] (encode fs) = (fs, .complete) := by
  induction fs generalizing fuel with
  | nil => cases fuel <;> rfl
  | cons f fs ih =>
    obtain ⟨b, bs, hb⟩ := putField_cons f
    have hcons : encode (f :: fs) = b :: (bs ++ encode fs) := by
      simp [encode, hb]
    have htoken := getToken_putField f (hfs f (List.mem_cons_self ..)) (encode fs)
    rw [hb, List.cons_append] at htoken
    rw [hcons] at hfuel ⊢
    obtain ⟨fuel, rfl⟩ : ∃ k, fuel = k + 1 := ⟨fuel - 1, by simp at hfuel; omega⟩
    have hrest := ih (fun g hg => hfs g (List.mem_cons_of_mem f hg)) fuel (by
      simp only [List.length_cons, List.length_append] at hfuel
      omega)
    simp only [parseFrom, htoken, hrest, ↓reduceIte]

/-- **Encoded fields are read back.** -/
theorem parse_encode (fs : List Field) (hfs : ∀ f ∈ fs, f.Valid) :
    parse (encode fs) = (fs, .complete) :=
  parseFrom_encode fs hfs _ (Nat.le_refl _)

/-- **No single byte is a field.** -/
theorem parse_single (b : UInt8) : parse [b] = ([], .broken) := by
  have hnil : ∀ k, getVarint (k + 1) [] = none := fun _ => rfl
  have htoken : getToken [b] = .error .broken ∨ ∃ num, getToken [b] = .ok (.startGroup num, []) ∨
      getToken [b] = .ok (.endGroup num, []) := by
    by_cases hb : b.toNat < 128
    · simp only [getToken, getVarint, hb, ↓reduceIte]
      split
      · exact Or.inl rfl
      · -- every kind of value needs a byte that is not there
        have hw : b.toNat % 8 < 8 := Nat.mod_lt _ (by decide)
        generalize b.toNat % 8 = wireType at hw
        match wireType, hw with
        | 0, _ | 1, _ | 2, _ | 5, _ | 6, _ | 7, _ => exact Or.inl rfl
        | 3, _ => exact Or.inr ⟨_, Or.inl rfl⟩
        | 4, _ => exact Or.inr ⟨_, Or.inr rfl⟩
    · simp [getToken, getVarint, hb]
  rcases htoken with h | ⟨num, h | h⟩ <;> simp [parse, parseFrom, h]

/-! ## Messages -/

section Merge

variable {α : Type*} (merge : α → Field → α × Bool)

/-- One field after the other; `merge` says whether the field could be read. -/
def mergeAll : α → List Field → α × Bool
  | m, [] => (m, true)
  | m, f :: fs =>
    match merge m f with
    | (m, true) => mergeAll m fs
    | (m, false) => (m, false)

theorem mergeAll_append (m : α) (fs gs : List Field) :
    mergeAll merge m (fs ++ gs) =
      match mergeAll merge m fs with
      | (m, true) => mergeAll merge m gs
      | (m, false) => (m, false) := by
  induction fs generalizing m with
  | nil => rfl
  | cons f fs ih =>
    rw [List.cons_append, mergeAll, mergeAll]
    split
    · exact ih _
    · rfl

theorem mergeAll_step {merge : α → Field → α × Bool} {m m' : α} {r : α × Bool}
    {fs gs : List Field} (hf : mergeAll merge m fs = (m', true))
    (hg : mergeAll merge m' gs = r) : mergeAll merge m (fs ++ gs) = r := by
  rw [mergeAll_append, hf]
  exact hg

/-- Reading bytes into a message: the fields read so far stay in it, and a value
that is cut short is given to `cut`. -/
def parseInto (cut : α → Nat → Bytes → α) (m : α) (bs : Bytes) : α × Bool :=
  match mergeAll merge m (parse bs).1, (parse bs).2 with
  | (m, false), _ => (m, false)
  | (m, true), .complete => (m, true)
  | (m, true), .broken => (m, false)
  | (m, true), .truncated num bs => (cut m num bs, false)

variable {merge} {cut : α → Nat → Bytes → α}

theorem parseInto_encode {m m' : α} {fs : List Field} (hfs : ∀ f ∈ fs, f.Valid)
    (h : mergeAll merge m fs = (m', true)) : parseInto merge cut m (encode fs) = (m', true) := by
  simp only [parseInto, parse_encode fs hfs, h]

theorem parseInto_single (m : α) (b : UInt8) : parseInto merge cut m [b] = (m, false) := by
  simp only [parseInto, parse_single, mergeAll]

end Merge

/-! ## Fields that are left out at their default -/

def fieldUnless (isDefault : Bool) (f : Field) : List Field := if isDefault then [] else [f]

def scalar (num : Nat) (n : BitVec 64) : List Field := fieldUnless (n == 0) ⟨num, .varint n⟩

def float (num : Nat) (n : BitVec 32) : List Field := fieldUnless (n == 0) ⟨num, .fixed32 n⟩

def textBytes (s : String) : Bytes := s.toByteArray.data.toList

/-- The text of a string field; bytes that are no UTF-8 are none. -/
def readText (bs : Bytes) : Option String := String.fromUTF8? ⟨bs.toArray⟩

def text (num : Nat) (s : String) : List Field := fieldUnless (s == "") ⟨num, .len (textBytes s)⟩

theorem readText_textBytes (s : String) : readText (textBytes s) = some s := by
  obtain ⟨bs, h⟩ := s
  simp [readText, textBytes, String.fromUTF8?, h, String.fromUTF8]

theorem mergeAll_fieldUnless {α : Type*} {merge : α → Field → α × Bool} {m m' : α}
    {isDefault : Bool} {f : Field} (hdefault : isDefault = true → m = m')
    (h : merge m f = (m', true)) : mergeAll merge m (fieldUnless isDefault f) = (m', true) := by
  cases isDefault with
  | true => simp [fieldUnless, mergeAll, hdefault rfl]
  | false => simp [fieldUnless, mergeAll, h]

/-- A 32-bit number is sign extended on the wire, and cut back when it is read. -/
theorem setWidth_signExtend (x : BitVec 32) : (x.signExtend 64).setWidth 32 = x := by
  apply BitVec.eq_of_getLsbD_eq
  intro i hi
  have hi' : i < 64 := by omega
  rw [BitVec.getLsbD_setWidth, BitVec.getLsbD_signExtend]
  simp [hi, hi']

theorem eq_zero_of_signExtend {x : BitVec 32} (h : (x.signExtend 64 == 0) = true) : x = 0 := by
  rw [← setWidth_signExtend x, eq_of_beq h]
  rfl

/-- A field takes at least as many bytes as the value in it. -/
theorem length_le_encode {fs : List Field} {num : Nat} {bs : Bytes}
    (h : ⟨num, .len bs⟩ ∈ fs) : bs.length ≤ (encode fs).length := by
  have hsub : (putField ⟨num, .len bs⟩).length ≤ (encode fs).length := by
    rw [encode, List.flatMap_def]
    exact (List.sublist_flatten_of_mem (List.mem_map_of_mem h)).length_le
  simp only [putField, putValue, List.length_append] at hsub
  omega

/-- Fields whose encoding is short are valid. -/
theorem valid_of_length {fs : List Field} (hnum : ∀ f ∈ fs, 0 < f.num ∧ f.num < 2 ^ 29)
    (hlen : (encode fs).length < 2 ^ 31) : ∀ f ∈ fs, f.Valid := by
  intro f hf
  obtain ⟨h₁, h₂⟩ := hnum f hf
  refine ⟨h₁, h₂, fun bs hbs => ?_⟩
  obtain ⟨num, value⟩ := f
  subst hbs
  exact Nat.lt_of_le_of_lt (length_le_encode hf) hlen

/-- The numbers of the fields of a list. -/
def Numbered (fs : List Field) : Prop := ∀ f ∈ fs, 0 < f.num ∧ f.num < 2 ^ 29

theorem Numbered.append {fs gs : List Field} (hf : Numbered fs) (hg : Numbered gs) :
    Numbered (fs ++ gs) := fun f h => (List.mem_append.mp h).elim (hf f) (hg f)

theorem numbered_singleton {num : Nat} {value : Value} (h : 0 < num ∧ num < 2 ^ 29) :
    Numbered [⟨num, value⟩] := by
  intro f hf
  obtain rfl := List.mem_singleton.mp hf
  exact h

theorem numbered_fieldUnless {isDefault : Bool} {num : Nat} {value : Value}
    (h : 0 < num ∧ num < 2 ^ 29) : Numbered (fieldUnless isDefault ⟨num, value⟩) := by
  cases isDefault with
  | true => exact fun f hf => by simp [fieldUnless] at hf
  | false => exact numbered_singleton h

end Wire

import PiScan.Lib.FloatText

/-!
# Numbers that a whole text spells

A number may be written with a point and an exponent, as in JSON.  An integer stream
takes such a text only if it is written without them.

* `spelledNumber`: the number that a text spells;
* `scaledNumber_unmarked`: without a point and an exponent it is the digits;
* `readDigits_trimmed`: white space behind the digits does not matter;
* `readInt_eq_some_iff`, `get_readInt_zero`: what `readInt` takes, in terms of
  `spelledNumber`.
-/

namespace Decimal

open PropertyTree TwosComplement

/-- The number that a text spells in decimal, with or without a point and an exponent, and
with nothing but white space around it. -/
def spelledNumber (text : String) : Option ℚ :=
  let (negative, body) := signOf (text.toList.dropWhile isSpace)
  match scaledNumber 10 'e' 10 body with
  | some (q, rest) => if rest.all isSpace then some (if negative then -q else q) else none
  | none => none

example : spelledNumber "1e8" = some 100000000 ∧ spelledNumber "162550000.0 " = some 162550000 ∧
    spelledNumber "118.3M" = none := by
  decide +kernel

/-- No point and no mark of an exponent. -/
def Unmarked (cs : List Char) : Prop := ∀ c ∈ cs, c ∉ ['.', 'e', 'E']

instance (cs : List Char) : Decidable (Unmarked cs) :=
  List.decidableBAll (fun c => c ∉ ['.', 'e', 'E']) cs

/-- The integer that a text spells, of any size. -/
def spelledInt (text : String) : Option Int :=
  let (negative, cs) := signOf (trim text.toList)
  (readDigits cs).map fun n : Nat => if negative then -(n : Int) else n

/-- Without a sign. -/
theorem signOf_eq_self {cs : List Char} (hminus : ∀ ds, cs = '-' :: ds → False)
    (hplus : ∀ ds, cs = '+' :: ds → False) : signOf cs = (false, cs) := by
  unfold signOf
  split
  · next ds => exact (hminus ds rfl).elim
  · next ds => exact (hplus ds rfl).elim
  · rfl

theorem readInt_eq_spelledInt (w : Nat) (text : String) :
    readInt w text = (spelledInt text).filter fun n => Fits w n := by
  unfold readInt spelledInt
  generalize trim text.toList = cs
  split
  · rfl
  · rfl
  · next hminus hplus =>
    rw [signOf_eq_self hminus hplus]
    rfl

/-! ## Digits -/

theorem digitOf_ten (c : Char) :
    digitOf 10 c = if c.isDigit then some (c.toNat - 48) else none := by
  unfold digitOf
  by_cases hdigit : c.isDigit = true
  · have hle : c.toNat ≤ 57 := by
      simp only [Char.isDigit, Bool.and_eq_true, decide_eq_true_eq] at hdigit
      exact hdigit.2
    have hlt : c.toNat - 48 < 10 := by omega
    simp only [hdigit, if_true, if_pos hlt]
  · simp only [hdigit, Bool.false_eq_true, if_false]
    split_ifs with hletter hlt
    · have hge : 97 ≤ c.toLower.toNat := hletter.1
      omega
    · rfl
    · omega
    · rfl

theorem digits_ten (cs : List Char) :
    digits 10 cs = ((cs.takeWhile Char.isDigit).map fun c => c.toNat - 48,
      cs.dropWhile Char.isDigit) := by
  induction cs with
  | nil => rfl
  | cons c cs ih =>
    rw [digits, digitOf_ten]
    by_cases hdigit : c.isDigit = true
    · simp [hdigit, ih]
    · simp [hdigit]

theorem ofDigits_ten (cs : List Char) :
    ofDigits 10 (cs.map fun c => c.toNat - 48) = Nat.ofDigitChars 10 cs 0 := by
  rw [ofDigits, List.foldl_map, Nat.ofDigitChars_eq_foldl]
  rfl

theorem readDigits_takeWhile_isDigit (cs : List Char) :
    readDigits (cs.takeWhile Char.isDigit) =
      if cs.takeWhile Char.isDigit = [] then none
      else some (Nat.ofDigitChars 10 (cs.takeWhile Char.isDigit) 0) := by
  simp only [readDigits, List.isEmpty_iff]
  rw [if_pos (List.all_eq_true.mpr fun c hc => List.mem_takeWhile_imp hc)]

theorem toLower_ne_of_unmarked {cs : List Char} (h : Unmarked cs) {c : Char} (hc : c ∈ cs) :
    c.toLower ≠ 'e' := by
  intro hlower
  unfold Char.toLower at hlower
  split at hlower
  · next hupper =>
    have hle : c.val.toNat ≤ 90 := hupper.2
    have hsum : (c.val + 32).toNat = 101 := congrArg Char.toNat hlower
    have hadd : (c.val + 32).toNat = (c.val.toNat + 32) % 2 ^ 32 := UInt32.toNat_add ..
    have hval : c.val.toNat = 69 := by omega
    obtain rfl : c = 'E' := Char.toNat_inj.mp hval
    exact absurd (h 'E' hc) (by simp)
  · exact absurd (h c hc) (by simp [hlower])

/-- Without a point and an exponent the number is its digits. -/
theorem scaledNumber_unmarked {cs : List Char} (h : Unmarked cs) :
    scaledNumber 10 'e' 10 cs =
      (readDigits (cs.takeWhile Char.isDigit)).map fun n : Nat =>
        ((n : ℚ), cs.dropWhile Char.isDigit) := by
  have hmem : ∀ c ∈ cs.dropWhile Char.isDigit, c ∈ cs := fun c hc =>
    (List.dropWhile_suffix _).mem hc
  have hmantissa : mantissa 10 cs = (readDigits (cs.takeWhile Char.isDigit)).map fun n : Nat =>
      ((n : ℚ), cs.dropWhile Char.isDigit) := by
    rw [mantissa, digits_ten, readDigits_takeWhile_isDigit]
    dsimp only
    split
    · next rest hrest =>
      have hdot := h '.' (hmem '.' (by simp [hrest]))
      exact absurd List.mem_cons_self hdot
    · by_cases hnone : cs.takeWhile Char.isDigit = []
      · simp [hnone]
      · simp [hnone, ofDigits_ten]
  have hexponent : exponent 'e' (cs.dropWhile Char.isDigit) = (0, cs.dropWhile Char.isDigit) := by
    generalize cs.dropWhile Char.isDigit = rest at hmem
    cases rest with
    | nil => rfl
    | cons c rest => rw [exponent, if_neg (toLower_ne_of_unmarked h (hmem c List.mem_cons_self))]
  rw [scaledNumber, hmantissa, Option.map_map]
  refine congrArg (Option.map · _) (funext fun n => ?_)
  simp [hexponent]

/-! ## White space at the end -/

theorem signOf_append {cs tail : List Char} (htail : ∀ c ∈ tail, isSpace c = true) :
    signOf (cs ++ tail) = ((signOf cs).1, (signOf cs).2 ++ tail) := by
  cases cs with
  | nil =>
    have hsign : ∀ c, isSpace c = false → ∀ ds, tail = c :: ds → False := by
      rintro c hc ds rfl
      rw [htail c List.mem_cons_self] at hc
      cases hc
    exact signOf_eq_self (hsign '-' rfl) (hsign '+' rfl)
  | cons c cs =>
    by_cases hminus : c = '-'
    · subst hminus
      rfl
    · by_cases hplus : c = '+'
      · subst hplus
        rfl
      · have hself : ∀ ds, signOf (c :: ds) = (false, c :: ds) := by
          intro ds
          apply signOf_eq_self
          · exact fun _ h => hminus (List.cons.inj h).1
          · exact fun _ h => hplus (List.cons.inj h).1
        rw [List.cons_append, hself, hself, List.cons_append]

/-- The last character is no white space. -/
def Trimmed (cs : List Char) : Prop := ∀ c ∈ cs.getLast?, isSpace c = false

theorem trimmed_trim (cs : List Char) : Trimmed (trim cs) := by
  intro c hc
  rw [trim, List.getLast?_reverse] at hc
  have hhead := List.head?_dropWhile_not isSpace (cs.dropWhile isSpace).reverse
  rw [Option.mem_def.mp hc] at hhead
  exact hhead

theorem Trimmed.signOf {cs : List Char} (h : Trimmed cs) : Trimmed (signOf cs).2 := by
  have htail : ∀ c ds, Trimmed (c :: ds) → Trimmed ds := by
    intro c ds hds d hd
    refine hds d ?_
    rw [List.getLast?_cons, Option.mem_def.mp hd]
    rfl
  unfold Decimal.signOf
  split
  · exact htail _ _ h
  · exact htail _ _ h
  · exact h

theorem readDigits_trimmed {cs tail : List Char} (h : Trimmed cs)
    (htail : ∀ c ∈ tail, isSpace c = true) :
    readDigits cs =
      if ((cs ++ tail).dropWhile Char.isDigit).all isSpace then
        readDigits ((cs ++ tail).takeWhile Char.isDigit)
      else none := by
  obtain ⟨hnone, hself⟩ := digits_of_isSpace htail
  by_cases hall : ∀ c ∈ cs, c.isDigit = true
  · rw [List.dropWhile_append_of_pos hall, List.takeWhile_append_of_pos hall, hnone, hself,
      List.append_nil, if_pos (List.all_eq_true.mpr htail)]
  · -- the last character that is left is no white space
    have hread : readDigits cs = none := by
      rw [readDigits, if_neg, if_neg]
      · simpa using hall
      · intro hnil
        rw [List.isEmpty_iff.mp hnil] at hall
        exact hall fun c hc => by cases hc
    have hne : cs.dropWhile Char.isDigit ≠ [] := by
      intro hnil
      exact hall (List.dropWhile_eq_nil_iff.mp hnil)
    rw [hread, if_neg]
    intro hspaces
    have hlast : isSpace ((cs.dropWhile Char.isDigit).getLast hne) = false := by
      rw [(List.dropWhile_suffix _).getLast hne]
      exact h _ (List.getLast?_eq_some_getLast _)
    rw [List.dropWhile_append, if_neg (by simpa using hne)] at hspaces
    have hspace := List.all_eq_true.mp hspaces _ (List.mem_append_left _ (List.getLast_mem hne))
    rw [hlast] at hspace
    cases hspace

/-! ## The two readings -/

/-- What is before and behind the part that is left is white space. -/
theorem mem_trim_or_isSpace {text : String} {c : Char} (hc : c ∈ text.toList) :
    c ∈ trim text.toList ∨ isSpace c = true := by
  obtain ⟨tail, hbody, htail⟩ := dropWhile_eq_trim text.toList
  rw [← List.takeWhile_append_dropWhile (p := isSpace) (l := text.toList), hbody] at hc
  rcases List.mem_append.mp hc with hlead | hc
  · exact .inr (List.mem_takeWhile_imp hlead)
  · exact (List.mem_append.mp hc).imp_right (htail c)

theorem mem_signOf {cs : List Char} {c : Char} (hc : c ∈ cs) :
    c = '-' ∨ c = '+' ∨ c ∈ (signOf cs).2 := by
  unfold signOf
  split
  · exact (List.mem_cons.mp hc).imp_right .inr
  · exact .inr (List.mem_cons.mp hc)
  · exact .inr (.inr hc)

theorem mem_of_mem_signOf {cs : List Char} {c : Char} (hc : c ∈ (signOf cs).2) : c ∈ cs := by
  unfold signOf at hc
  split at hc
  · exact List.mem_cons_of_mem _ hc
  · exact List.mem_cons_of_mem _ hc
  · exact hc

/-- None of the marks is part of an integer. -/
theorem mark_cases {c : Char} (h : c ∈ ['.', 'e', 'E']) :
    c ≠ '-' ∧ c ≠ '+' ∧ c.isDigit = false ∧ isSpace c = false := by
  simp only [List.mem_cons, List.not_mem_nil, or_false] at h
  rcases h with rfl | rfl | rfl
  · decide
  · decide
  · decide

/-- A text that spells an integer has digits, a sign and white space only. -/
theorem unmarked_of_spelledInt {text : String} {n : Int} (h : spelledInt text = some n) :
    Unmarked text.toList := by
  obtain ⟨d, hd, -⟩ := Option.map_eq_some_iff.mp h
  have hdigits := (readDigits_eq_some hd).2
  intro c hc hbad
  obtain ⟨hminus, hplus, hdigit, hspace⟩ := mark_cases hbad
  rcases mem_trim_or_isSpace hc with htrim | hs
  · rcases mem_signOf htrim with rfl | rfl | hbody
    · exact hminus rfl
    · exact hplus rfl
    · rw [hdigits c hbody] at hdigit
      cases hdigit
  · rw [hs] at hspace
    cases hspace

/-- In a text without a point and an exponent both are the same. -/
theorem spelledNumber_unmarked {text : String} (h : Unmarked text.toList) :
    spelledNumber text = (spelledInt text).map fun n : Int => (n : ℚ) := by
  obtain ⟨tail, hbody, htail⟩ := dropWhile_eq_trim text.toList
  have hsign : signOf (trim text.toList ++ tail) = _ := signOf_append htail
  have hunmarked : Unmarked ((signOf (trim text.toList)).2 ++ tail) := by
    intro c hc
    have hmem : c ∈ text.toList.dropWhile isSpace := by
      rw [hbody]
      rcases List.mem_append.mp hc with hc | hc
      · exact List.mem_append_left _ (mem_of_mem_signOf hc)
      · exact List.mem_append_right _ hc
    exact h c ((List.dropWhile_suffix _).mem hmem)
  have htrimmed := (trimmed_trim text.toList).signOf
  unfold spelledNumber spelledInt
  rw [hbody, hsign]
  generalize signOf (trim text.toList) = p at hunmarked htrimmed
  obtain ⟨negative, cs⟩ := p
  dsimp only at hunmarked htrimmed ⊢
  rw [readDigits_trimmed htrimmed htail, scaledNumber_unmarked hunmarked]
  cases readDigits ((cs ++ tail).takeWhile Char.isDigit) with
  | none => simp
  | some d =>
    by_cases hspaces : ((cs ++ tail).dropWhile Char.isDigit).all isSpace = true
    · simp only [Option.map_some, if_pos hspaces]
      cases negative
      · simp
      · simp
    · simp only [Option.map_some, if_neg hspaces, Option.map_none]

/-- **What an integer stream takes**: of the numbers those that are written as integers and
fit. -/
theorem readInt_eq_some_iff {w : Nat} {text : String} {n : Int} :
    readInt w text = some n ↔
      Fits w n ∧ Unmarked text.toList ∧ spelledNumber text = some (n : ℚ) := by
  rw [readInt_eq_spelledInt, Option.filter_eq_some_iff, decide_eq_true_eq, and_comm]
  refine and_congr_right fun _ => ?_
  constructor
  · intro hn
    have hunmarked := unmarked_of_spelledInt hn
    exact ⟨hunmarked, by rw [spelledNumber_unmarked hunmarked, hn]; rfl⟩
  · rintro ⟨hunmarked, hn⟩
    rw [spelledNumber_unmarked hunmarked] at hn
    obtain ⟨m, hm, hcast⟩ := Option.map_eq_some_iff.mp hn
    rw [hm, Int.cast_injective hcast]

/-- The same of a value in a tree: it is read as 0 unless it is written as an integer that
fits. -/
theorem get_readInt_zero (w : Nat) (path : List String) (t : Tree) :
    t.get (readInt w) path 0 =
      if Unmarked (t.get some path "").toList ∧ (t.get spelledNumber path 0).den = 1 ∧
          Fits w (t.get spelledNumber path 0).num then
        (t.get spelledNumber path 0).num
      else 0 := by
  unfold PropertyTree.Tree.get
  cases t.getChild? path with
  | none => simp
  | some t =>
    dsimp only [Option.getD_some]
    cases hread : readInt w t.data with
    | some n =>
      obtain ⟨hfits, hunmarked, hspelled⟩ := readInt_eq_some_iff.mp hread
      simp [hspelled, hunmarked, hfits]
    | none =>
      split_ifs with hint
      · obtain ⟨hunmarked, hden, hfits⟩ := hint
        cases hspelled : spelledNumber t.data with
        | none => rfl
        | some q =>
          -- an integer that fits would have been read
          rw [hspelled, Option.getD_some] at hden hfits
          have hq : spelledNumber t.data = some (q.num : ℚ) := by
            rw [hspelled, Rat.coe_int_num_of_den_eq_one hden]
          have hsome := readInt_eq_some_iff.mpr ⟨hfits, hunmarked, hq⟩
          rw [hread] at hsome
          cases hsome
      · rfl

end Decimal

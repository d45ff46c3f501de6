import Mathlib.Data.List.TakeWhile
import PiScan.Lib.TwosComplement

/-!
# Property trees

A tree of texts: every node has a text of its own and a list of named children,
in order, names possibly repeated.  A path is a list of names; `getChild?`
follows the first child of each name, `put` creates the nodes that are missing.

Values are stored as texts.  `put` takes the text of a value (`toString`,
`boolText`), and `get` reads one back, with a default for a missing node or a
text that the reader does not take:

* `readInt_toString`: a written integer is read back if it fits the width that
  is read, and else not at all;
* `get_readInt_narrow`: the same text read as a narrower integer;
* `stoi_toString`: `stoi` reads a written `int`;
* `leadingInt_ofList`: digits are read as their value;
* `readBool_boolText`: a written truth value is read back;
* `get_put_self`, `get_put_ne`: reading after writing at a name;
* `get_put_path`, `get_put_apart`: the same along a path.
-/

namespace PropertyTree

open TwosComplement

inductive Tree
  | node (data : String) (children : List (String × Tree))
  deriving Repr

namespace Tree

def empty : Tree := .node "" []

def leaf (text : String) : Tree := .node text []

def data : Tree → String
  | .node d _ => d

def children : Tree → List (String × Tree)
  | .node _ cs => cs

instance : Inhabited Tree := ⟨empty⟩

/-! ## Paths -/

/-- The first child of a name. -/
def child? (t : Tree) (name : String) : Option Tree := t.children.lookup name

def getChild? : List String → Tree → Option Tree
  | [], t => some t
  | name :: path, t => (t.child? name).bind (getChild? path)

/-- The children with the first one of name `name` changed by `f`, or a new
last one made from an empty node. -/
def upsert (name : String) (f : Tree → Tree) : List (String × Tree) → List (String × Tree)
  | [] => [(name, f empty)]
  | (name', t) :: cs => if name' = name then (name', f t) :: cs else (name', t) :: upsert name f cs

/-- The tree with the node at `path` changed by `f`. -/
def update (f : Tree → Tree) : List String → Tree → Tree
  | [], t => f t
  | name :: path, .node d cs => .node d (upsert name (update f path) cs)

/-- `put(path, value)`, with the text of the value. -/
def put (path : List String) (text : String) : Tree → Tree :=
  update (fun t => .node text t.children) path

/-- `put_child(path, child)`. -/
def putChild (t : Tree) (path : List String) (child : Tree) : Tree := update (fun _ => child) path t

/-- `erase(name)`: all children of a name, which is no path. -/
def erase (name : String) : Tree → Tree
  | .node d cs => .node d (cs.filter fun c => c.1 ≠ name)

/-- `push_back`. -/
def pushBack (t : Tree) (name : String) (child : Tree) : Tree :=
  .node t.data (t.children ++ [(name, child)])

/-- A JSON array: the loop that pushes nameless children to an empty node. -/
def array (ts : List Tree) : Tree := ts.foldl (fun t child => t.pushBack "" child) empty

/-- `get(path, fallback)`, with a reader for the type of the default value. -/
def get {α : Type*} (read : String → Option α) (path : List String) (fallback : α) (t : Tree) : α :=
  match t.getChild? path with
  | none => fallback
  | some t => (read t.data).getD fallback

/-! ## Reading after writing -/

theorem children_array (ts : List Tree) : (array ts).children = ts.map fun t => ("", t) := by
  have hfold : ∀ (d : String) (cs : List (String × Tree)),
      (ts.foldl (fun t child => t.pushBack "" child) (Tree.node d cs)).children =
        cs ++ ts.map fun t => ("", t) := by
    induction ts with
    | nil => simp [children]
    | cons t ts ih =>
      intro d cs
      rw [List.foldl_cons, pushBack, ih, List.map_cons, children, List.append_assoc,
        List.singleton_append]
  exact hfold "" []

theorem lookup_upsert_self (name : String) (f : Tree → Tree) (cs : List (String × Tree)) :
    (upsert name f cs).lookup name = some (f ((cs.lookup name).getD empty)) := by
  induction cs with
  | nil => simp [upsert]
  | cons c cs ih =>
    obtain ⟨name', t⟩ := c
    by_cases h : name' = name
    · subst h
      simp [upsert]
    · simp [upsert, h, List.lookup_cons, ih, beq_false_of_ne (Ne.symm h)]

theorem lookup_upsert_ne {name other : String} (h : other ≠ name) (f : Tree → Tree)
    (cs : List (String × Tree)) : (upsert name f cs).lookup other = cs.lookup other := by
  induction cs with
  | nil => simp [upsert, List.lookup_cons, beq_false_of_ne h]
  | cons c cs ih =>
    obtain ⟨name', t⟩ := c
    by_cases hn : name' = name
    · subst hn
      simp [upsert, List.lookup_cons, beq_false_of_ne h]
    · simp [upsert, hn, List.lookup_cons, ih]

theorem lookup_filter_ne {name other : String} (h : other ≠ name) (cs : List (String × Tree)) :
    (cs.filter fun c => c.1 ≠ name).lookup other = cs.lookup other := by
  induction cs with
  | nil => rfl
  | cons c cs ih =>
    obtain ⟨name', t⟩ := c
    by_cases hn : name' = name
    · subst hn
      rw [List.filter_cons_of_neg (by simp), ih, List.lookup_cons, beq_false_of_ne h]
    · rw [List.filter_cons_of_pos (by simpa using hn), List.lookup_cons, List.lookup_cons, ih]

/-- A path through another name is not touched. -/
theorem getChild?_erase {name other : String} (h : other ≠ name) (path : List String) (t : Tree) :
    (t.erase name).getChild? (other :: path) = t.getChild? (other :: path) := by
  obtain ⟨d, cs⟩ := t
  simp only [getChild?, child?, erase, children, lookup_filter_ne h]

theorem child?_update_self (f : Tree → Tree) (name : String) (path : List String) (t : Tree) :
    (update f (name :: path) t).child? name =
      some (update f path ((t.child? name).getD empty)) := by
  obtain ⟨d, cs⟩ := t
  exact lookup_upsert_self name (update f path) cs

theorem child?_update_ne {name other : String} (h : other ≠ name) (f : Tree → Tree)
    (path : List String) (t : Tree) :
    (update f (name :: path) t).child? other = t.child? other := by
  obtain ⟨d, cs⟩ := t
  exact lookup_upsert_ne h (update f path) cs

theorem getChild?_update_self (f : Tree → Tree) (path : List String) (t : Tree) :
    (update f path t).getChild? path = some (f ((t.getChild? path).getD empty)) := by
  induction path generalizing t with
  | nil => rfl
  | cons name path ih =>
    simp only [getChild?, child?_update_self, Option.bind_some, ih]
    cases t.child? name with
    | some c => rfl
    | none =>
      -- below a missing node everything is empty
      cases path <;> rfl

/-- The paths part at some name, neither goes on where the other ends. -/
def Apart : List String → List String → Bool
  | name :: path, other :: path' => name != other || Apart path path'
  | _, _ => false

/-- A change below one path leaves the paths apart from it alone. -/
theorem getChild?_update_apart {path path' : List String} (h : Apart path path' = true)
    (f : Tree → Tree) (t : Tree) : (update f path t).getChild? path' = t.getChild? path' := by
  induction path generalizing path' t with
  | nil => simp [Apart] at h
  | cons name path ih =>
    cases path' with
    | nil => simp [Apart] at h
    | cons other path' =>
      by_cases hn : other = name
      · subst hn
        have hapart : Apart path path' = true := by simpa [Apart] using h
        simp only [getChild?, child?_update_self, Option.bind_some, ih hapart]
        cases t.child? other with
        | some c => rfl
        | none =>
          cases path' with
          | nil => cases path <;> simp [Apart] at hapart
          | cons => rfl
      · simp only [getChild?, child?_update_ne hn]

@[simp] theorem data_put_nil (text : String) (t : Tree) : (put [] text t).data = text := rfl

variable {α : Type*} (read : String → Option α) (fallback : α)

theorem get_put_self (name text : String) (t : Tree) :
    get read [name] fallback (put [name] text t) = (read text).getD fallback := by
  simp [get, getChild?, put, child?_update_self, update, data]

theorem get_put_ne {name other : String} (h : other ≠ name) (path : List String) (text : String)
    (t : Tree) :
    get read (other :: path) fallback (put [name] text t) = get read (other :: path) fallback t := by
  simp [get, getChild?, put, child?_update_ne h]

theorem get_put_path (path : List String) (text : String) (t : Tree) :
    get read path fallback (put path text t) = (read text).getD fallback := by
  simp [get, put, getChild?_update_self, data]

theorem get_put_apart {path path' : List String} (h : Apart path path' = true) (text : String)
    (t : Tree) : get read path' fallback (put path text t) = get read path' fallback t := by
  simp only [get, put, getChild?_update_apart h]

theorem get_putChild_apart {path path' : List String} (h : Apart path path' = true)
    (t child : Tree) :
    get read path' fallback (putChild t path child) = get read path' fallback t := by
  simp only [get, putChild, getChild?_update_apart h]

theorem get_erase {name other : String} (h : other ≠ name) (path : List String) (t : Tree) :
    get read (other :: path) fallback (t.erase name) = get read (other :: path) fallback t := by
  simp only [get, getChild?_erase h]

theorem getChild?_putChild (path : List String) (t child : Tree) :
    (putChild t path child).getChild? path = some child :=
  getChild?_update_self ..

end Tree

/-! ## Texts of values -/

/-- `std::isspace` in the classic locale. -/
def isSpace (c : Char) : Bool := c = ' ' ∨ (9 ≤ c.toNat ∧ c.toNat ≤ 13)

def trim (cs : List Char) : List Char :=
  ((cs.dropWhile isSpace).reverse.dropWhile isSpace).reverse

def readDigits (cs : List Char) : Option Nat :=
  if cs.isEmpty then none
  else if cs.all Char.isDigit then some (Nat.ofDigitChars 10 cs 0)
  else none

/-- The integer of `w` bits that is written in a text. -/
def readInt (w : Nat) (text : String) : Option Int :=
  let value : Option Int :=
    match trim text.toList with
    | '-' :: cs => (readDigits cs).map fun n : Nat => -(n : Int)
    | '+' :: cs => (readDigits cs).map Int.ofNat
    | cs => (readDigits cs).map Int.ofNat
  value.filter fun n => Fits w n

/-- `std::stoi`: the longest integer at the start of a text, after white space;
an exception if there is none or it is no `int`. -/
def stoi (text : String) : Option Int :=
  let digits (cs : List Char) : Option Nat := readDigits (cs.takeWhile Char.isDigit)
  let value : Option Int :=
    match text.toList.dropWhile isSpace with
    | '-' :: cs => (digits cs).map fun n : Nat => -(n : Int)
    | '+' :: cs => (digits cs).map Int.ofNat
    | cs => (digits cs).map Int.ofNat
  value.filter fun n => Fits 32 n

/-- The integer that `strtol` and its relatives read: the longest one at the start
of a text, after white space. -/
def leadingInt (text : String) : Option Int :=
  let digits (cs : List Char) : Option Nat := readDigits (cs.takeWhile Char.isDigit)
  match text.toList.dropWhile isSpace with
  | '-' :: cs => (digits cs).map fun n : Nat => -(n : Int)
  | '+' :: cs => (digits cs).map Int.ofNat
  | cs => (digits cs).map Int.ofNat

/-- `std::stoll`; an exception if there is no integer or it is no `long long`. -/
def stoll (text : String) : Option Int := (leadingInt text).filter fun n => Fits 64 n

theorem stoi_eq (text : String) : stoi text = (leadingInt text).filter fun n => Fits 32 n := rfl

def boolText (b : Bool) : String := if b then "true" else "false"

/-- The truth value that is written in a text, as a number or as a word. -/
def readBool (text : String) : Option Bool :=
  match readInt 64 text with
  | some 0 => some false
  | some 1 => some true
  | some _ => none
  | none =>
    let word := String.ofList (trim text.toList)
    if word = "true" then some true else if word = "false" then some false else none

theorem dropWhile_eq_self {p : Char → Bool} {cs : List Char} (h : ∀ c ∈ cs, p c = false) :
    cs.dropWhile p = cs := by
  cases cs with
  | nil => rfl
  | cons c cs => simp [List.dropWhile, h c (List.mem_cons_self ..)]

theorem trim_eq_self {cs : List Char} (h : ∀ c ∈ cs, isSpace c = false) : trim cs = cs := by
  unfold trim
  rw [dropWhile_eq_self h, dropWhile_eq_self fun c hc => h c (List.mem_reverse.mp hc),
    List.reverse_reverse]

theorem isSpace_of_isDigit {c : Char} (h : c.isDigit = true) : isSpace c = false := by
  have hd : 48 ≤ c.toNat ∧ c.toNat ≤ 57 := by
    simp only [Char.isDigit, Bool.and_eq_true, decide_eq_true_eq] at h
    exact h
  have hne : c ≠ ' ' := by
    rintro rfl
    exact absurd hd.1 (by decide)
  simp only [isSpace, decide_eq_false_iff_not, not_or, hne, not_false_eq_true, true_and]
  omega

theorem readDigits_toDigits (n : Nat) : readDigits (Nat.toDigits 10 n) = some n := by
  have hall : (Nat.toDigits 10 n).all Char.isDigit = true :=
    List.all_eq_true.mpr fun c hc => Nat.isDigit_of_mem_toDigits (by decide) (by decide) hc
  simp [readDigits, Nat.toDigits_ne_nil, hall]

theorem isDigit_toDigits (n : Nat) : ∀ c ∈ Nat.toDigits 10 n, c.isDigit = true := fun _ hc =>
  Nat.isDigit_of_mem_toDigits (by decide) (by decide) hc

theorem toList_toString_ofNat (n : Nat) : (toString (Int.ofNat n)).toList = Nat.toDigits 10 n :=
  Nat.toList_repr

theorem toList_toString_negSucc (n : Nat) :
    (toString (Int.negSucc n)).toList = '-' :: Nat.toDigits 10 (n + 1) := by
  change ("-" ++ (n + 1).repr).toList = _
  rw [String.toList_append, Nat.toList_repr]
  rfl

/-- Digits start with no sign. -/
theorem toDigits_ne_cons {n : Nat} {c : Char} (hc : c.isDigit = false) (cs : List Char) :
    Nat.toDigits 10 n ≠ c :: cs := by
  intro h
  have hd := isDigit_toDigits n c (by rw [h]; exact List.mem_cons_self ..)
  rw [hc] at hd
  cases hd

/-- A written integer is read back if it fits. -/
theorem readInt_toString (w : Nat) (n : Int) :
    readInt w (toString n) = if Fits w n then some n else none := by
  cases n with
  | ofNat m =>
    have htext : trim (toString (Int.ofNat m)).toList = Nat.toDigits 10 m := by
      rw [toList_toString_ofNat,
        trim_eq_self fun c hc => isSpace_of_isDigit (isDigit_toDigits m c hc)]
    unfold readInt
    rw [htext]
    split
    · rename_i cs hcs
      exact absurd hcs (toDigits_ne_cons rfl cs)
    · rename_i cs hcs
      exact absurd hcs (toDigits_ne_cons rfl cs)
    · simp [readDigits_toDigits, Option.filter]
  | negSucc m =>
    have htext : trim (toString (Int.negSucc m)).toList = '-' :: Nat.toDigits 10 (m + 1) := by
      rw [toList_toString_negSucc]
      apply trim_eq_self
      intro c hc
      rcases List.mem_cons.mp hc with rfl | hc
      · decide
      · exact isSpace_of_isDigit (isDigit_toDigits (m + 1) c hc)
    have hneg : (fun n : Nat => -(n : Int)) (m + 1) = Int.negSucc m := rfl
    simp only [readInt, htext, readDigits_toDigits, Option.map_some]
    simp only [Option.filter, decide_eq_true_eq, hneg]

theorem fits_of_readInt {w : Nat} {text : String} {n : Int} (h : readInt w text = some n) :
    Fits w n := by
  unfold readInt at h
  simpa using (Option.filter_eq_some_iff.mp h).2

/-- Nothing but white space is cut off at the end. -/
theorem dropWhile_eq_trim (cs : List Char) :
    ∃ tail : List Char, cs.dropWhile isSpace = trim cs ++ tail ∧
      ∀ c ∈ tail, isSpace c = true := by
  generalize hbody : cs.dropWhile isSpace = body
  refine ⟨(body.reverse.takeWhile isSpace).reverse, ?_, ?_⟩
  · rw [trim, hbody, ← List.reverse_append, List.takeWhile_append_dropWhile, List.reverse_reverse]
  · intro c hc
    exact List.mem_takeWhile_imp (List.mem_reverse.mp hc)

theorem readDigits_eq_some {cs : List Char} {n : Nat} (h : readDigits cs = some n) :
    cs ≠ [] ∧ ∀ c ∈ cs, c.isDigit = true := by
  unfold readDigits at h
  split at h
  · cases h
  · next hne =>
    split at h
    · next hall => exact ⟨by simpa using hne, List.all_eq_true.mp hall⟩
    · cases h

/-- White space has no digits at its start. -/
theorem digits_of_isSpace {cs : List Char} (h : ∀ c ∈ cs, isSpace c = true) :
    cs.takeWhile Char.isDigit = [] ∧ cs.dropWhile Char.isDigit = cs := by
  cases cs with
  | nil => exact ⟨rfl, rfl⟩
  | cons c cs =>
    have hdigit : ¬c.isDigit = true := by
      intro hd
      have hspace := h c List.mem_cons_self
      rw [isSpace_of_isDigit hd] at hspace
      cases hspace
    exact ⟨List.takeWhile_cons_of_neg hdigit, List.dropWhile_cons_of_neg hdigit⟩

/-- Digits with white space behind them. -/
theorem readDigits_takeWhile {cs tail : List Char} {n : Nat} (h : readDigits cs = some n)
    (htail : ∀ c ∈ tail, isSpace c = true) :
    readDigits ((cs ++ tail).takeWhile Char.isDigit) = some n := by
  have hdigits := (readDigits_eq_some h).2
  rwa [List.takeWhile_append_of_pos hdigits, (digits_of_isSpace htail).1, List.append_nil]

/-- A whole text that is an integer starts with it. -/
theorem leadingInt_of_readInt {w : Nat} {text : String} {n : Int}
    (h : readInt w text = some n) : leadingInt text = some n := by
  obtain ⟨tail, hbody, htail⟩ := dropWhile_eq_trim text.toList
  have hvalue := (Option.filter_eq_some_iff.mp h).1
  unfold leadingInt
  rw [hbody]
  split at hvalue
  · next cs htrim =>
    obtain ⟨d, hd, rfl⟩ := Option.map_eq_some_iff.mp hvalue
    simp [htrim, readDigits_takeWhile hd htail]
  · next cs htrim =>
    obtain ⟨d, hd, rfl⟩ := Option.map_eq_some_iff.mp hvalue
    simp [htrim, readDigits_takeWhile hd htail]
  · next cs hminus hplus =>
    obtain ⟨d, hd, rfl⟩ := Option.map_eq_some_iff.mp hvalue
    -- the text starts with a digit
    obtain ⟨c, cs, htrim⟩ := List.exists_cons_of_ne_nil (readDigits_eq_some hd).1
    split
    · next ds hds =>
      rw [htrim] at hds
      obtain ⟨rfl, -⟩ := List.cons.inj hds
      exact absurd htrim (hminus cs)
    · next ds hds =>
      rw [htrim] at hds
      obtain ⟨rfl, -⟩ := List.cons.inj hds
      exact absurd htrim (hplus cs)
    · exact congrArg (Option.map Int.ofNat) (readDigits_takeWhile hd htail)

/-- `std::stoi` reads such a text as the same integer. -/
theorem stoi_of_readInt {text : String} {n : Int} (h : readInt 32 text = some n) :
    stoi text = some n := by
  rw [stoi_eq, leadingInt_of_readInt h]
  exact Option.filter_some_pos (by simpa using fits_of_readInt h)

/-- What is read fits if the default does. -/
theorem fits_get_readInt {w : Nat} {d : Int} (hd : Fits w d) (path : List String) (t : Tree) :
    Fits w (t.get (readInt w) path d) := by
  unfold PropertyTree.Tree.get
  split
  · exact hd
  · rename_i t' _
    cases hr : readInt w t'.data with
    | none => exact hd
    | some n => exact fits_of_readInt hr

/-- A narrower reader takes what fits it. -/
theorem readInt_narrow {v w : Nat} (hvw : v ≤ w) (text : String) :
    readInt v text = (readInt w text).filter fun n => Fits v n := by
  have hfits : ∀ n : Int, decide (Fits v n) = (decide (Fits w n) && decide (Fits v n)) := by
    intro n
    by_cases hn : Fits v n
    · simp [hn, fits_mono hvw hn]
    · simp [hn]
  unfold readInt
  simp only [Option.filter_filter, ← hfits]

/-- Read as a narrower integer, with a default that fits it. -/
theorem get_readInt_narrow {v w : Nat} (hvw : v ≤ w) {d : Int} (hd : Fits v d)
    (path : List String) (t : Tree) :
    t.get (readInt v) path d =
      if Fits v (t.get (readInt w) path d) then t.get (readInt w) path d else d := by
  unfold PropertyTree.Tree.get
  split
  · simp [hd]
  · rename_i t' _
    rw [readInt_narrow hvw]
    cases readInt w t'.data with
    | none => simp [hd]
    | some n => by_cases hn : Fits v n <;> simp [Option.filter, hn]

/-- Digits are read as their value. -/
theorem leadingInt_ofList {cs : List Char} (hne : cs ≠ []) (h : ∀ c ∈ cs, c.isDigit = true) :
    leadingInt (String.ofList cs) = some (Nat.ofDigitChars 10 cs 0 : Int) := by
  have htext : (String.ofList cs).toList.dropWhile isSpace = cs := by
    rw [String.toList_ofList, dropWhile_eq_self fun c hc => isSpace_of_isDigit (h c hc)]
  have hread : readDigits (cs.takeWhile Char.isDigit) = some (Nat.ofDigitChars 10 cs 0) := by
    rw [List.takeWhile_eq_self_iff.mpr h, readDigits, if_neg (by simpa using hne),
      if_pos (List.all_eq_true.mpr h)]
  have hsign : ∀ (c : Char) (ds : List Char), c.isDigit = false → cs ≠ c :: ds := by
    rintro c ds hc rfl
    have hd := h c (List.mem_cons_self ..)
    rw [hc] at hd
    cases hd
  unfold leadingInt
  rw [htext]
  split
  · exact absurd rfl (hsign '-' _ rfl)
  · exact absurd rfl (hsign '+' _ rfl)
  · simp only [hread, Option.map_some, Int.ofNat_eq_natCast]

/-- `stoi` reads a written `int`. -/
theorem stoi_toString {n : Int} (h : Fits 32 n) : stoi (toString n) = some n := by
  have hfilter : (some n).filter (fun n => Fits 32 n) = some n := by
    simp only [Option.filter, decide_eq_true h, ↓reduceIte]
  cases n with
  | ofNat m =>
    have htext : toString (Int.ofNat m) = String.ofList (Nat.toDigits 10 m) := by
      rw [← toList_toString_ofNat, String.ofList_toList]
    rw [htext, stoi_eq, leadingInt_ofList Nat.toDigits_ne_nil (isDigit_toDigits m),
      Nat.ofDigitChars_ten_toDigits]
    exact hfilter
  | negSucc m =>
    have htext : (toString (Int.negSucc m)).toList.dropWhile isSpace =
        '-' :: Nat.toDigits 10 (m + 1) := by
      rw [toList_toString_negSucc]
      rfl
    have hdigits : readDigits ((Nat.toDigits 10 (m + 1)).takeWhile Char.isDigit) =
        some (m + 1) := by
      rw [List.takeWhile_eq_self_iff.mpr (isDigit_toDigits (m + 1)), readDigits_toDigits]
    have hread : leadingInt (toString (Int.negSucc m)) = some (Int.negSucc m) := by
      simp only [leadingInt, htext, hdigits, Option.map_some]
      rfl
    rw [stoi_eq, hread]
    exact hfilter

theorem readBool_boolText (b : Bool) : readBool (boolText b) = some b := by
  cases b <;> decide

end PropertyTree

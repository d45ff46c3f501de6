import Mathlib.Data.List.Rotate

/-!
# Loops over a ring of items

`doWhile body again` is the loop `do x = body(); while (again(x));` over a
state, cut off after a number of rounds.  `calls next n` are the results of
`n` consecutive calls of a state changing function.

A state with a *ring* view holds a list of items; one round of the loop hands
out its head and moves it to the back.  Then:

* `spin n V` is the first `n` items of the endless repetition of `V`;
  `spin_length`, `spin_add` and `spin_filter` say how it is cut and filtered,
  and `window_spin` that each of its windows of the length of `V` is a
  rotation of `V`;
* `doWhile_ring`: a loop that skips the hidden items of the ring returns the
  first visible one within one turn, and leaves the visible items turned by one;
* `calls_spin`: a function that turns a list by one at each call returns,
  over any number of calls, the endless repetition of that list.
-/

namespace Carousel

variable {σ α ε : Type*}

/-! ## The endless repetition of a list -/

/-- The first `n` items of `V V V ⋯`. -/
def spin : Nat → List α → List α
  | 0, _ => []
  | _ + 1, [] => []
  | n + 1, x :: V => x :: spin n (V ++ [x])

@[simp] theorem spin_zero (V : List α) : spin 0 V = [] := rfl

@[simp] theorem spin_nil (n : Nat) : spin n ([] : List α) = [] := by cases n <;> rfl

theorem spin_append_of_le (n : Nat) (A B : List α) (h : n ≤ A.length) :
    spin n (A ++ B) = A.take n := by
  induction n generalizing A B with
  | zero => rfl
  | succ n ih =>
    cases A with
    | nil => simp at h
    | cons x A =>
      have hx : A ++ B ++ [x] = A ++ (B ++ [x]) := List.append_assoc ..
      simp only [List.cons_append, spin, List.take_succ_cons, hx]
      rw [ih A (B ++ [x]) (by simpa using h)]

/-- One full turn is the list itself. -/
theorem spin_length (V : List α) : spin V.length V = V := by
  have h := spin_append_of_le V.length V [] (Nat.le_refl _)
  simpa using h

theorem spin_add (m n : Nat) (V : List α) :
    spin (m + n) V = spin m V ++ spin n (V.rotate m) := by
  induction m generalizing V with
  | zero => simp
  | succ m ih =>
    cases V with
    | nil => simp
    | cons x V =>
      rw [Nat.add_right_comm]
      simp only [spin, List.rotate_cons_succ, List.cons_append, ih]

theorem length_spin (n : Nat) {V : List α} (hV : V ≠ []) : (spin n V).length = n := by
  induction n generalizing V with
  | zero => rfl
  | succ n ih =>
    cases V with
    | nil => exact absurd rfl hV
    | cons x V => simp [spin, ih]

/-- Filtering an endless repetition repeats the filtered list. -/
theorem spin_filter (p : α → Bool) (n : Nat) (V : List α) :
    ∃ m, (spin n V).filter p = spin m (V.filter p) := by
  induction n generalizing V with
  | zero => exact ⟨0, by simp⟩
  | succ n ih =>
    cases V with
    | nil => exact ⟨0, by simp⟩
    | cons x V =>
      obtain ⟨m, hm⟩ := ih (V ++ [x])
      cases hx : p x with
      | false =>
        refine ⟨m, ?_⟩
        simp [spin, hx, hm]
      | true =>
        refine ⟨m + 1, ?_⟩
        simp [spin, hx, hm]

theorem spin_mul (k : Nat) (V : List α) :
    spin (k * V.length) V = (List.replicate k V).flatten := by
  induction k with
  | zero => simp
  | succ k ih =>
    rw [Nat.succ_mul, Nat.add_comm, spin_add, spin_length, List.rotate_length, ih,
      List.replicate_succ, List.flatten_cons]

/-- The first items of the endless repetition are those of some whole turns. -/
theorem spin_prefix_turns (n : Nat) (V : List α) : spin n V <+: (List.replicate n V).flatten := by
  cases V with
  | nil => simp
  | cons x V =>
    have hle : n ≤ n * (x :: V).length := Nat.le_mul_of_pos_right n (by simp)
    rw [← spin_mul, ← Nat.add_sub_of_le hle, spin_add]
    exact List.prefix_append _ _

theorem flatMap_turns {β : Type*} (f : β → List α) (n : Nat) (bs : List β) :
    (List.replicate n bs).flatten.flatMap f = (List.replicate n (bs.flatMap f)).flatten := by
  induction n with
  | zero => rfl
  | succ n ih => simp only [List.replicate_succ, List.flatten_cons, List.flatMap_append, ih]

theorem append_eq_spin {n : Nat} {V A B : List α} (h : A ++ B = spin n V) :
    A = spin A.length V ∧ ∃ m, B = spin m (V.rotate A.length) := by
  by_cases hV : V = []
  · subst hV
    rw [spin_nil] at h
    obtain ⟨rfl, rfl⟩ := List.append_eq_nil_iff.mp h
    exact ⟨rfl, 0, rfl⟩
  · have hn : n = A.length + B.length := by
      rw [← length_spin n hV, ← h, List.length_append]
    rw [hn, spin_add] at h
    obtain ⟨hA, hB⟩ := List.append_inj h (length_spin _ hV).symm
    exact ⟨hA, B.length, hB⟩

/-- **Windows.**  As many consecutive items of the endless repetition as `V`
has are a rotation of `V`. -/
theorem window_spin {n : Nat} {V w : List α} (hw : w <:+: spin n V) (hlen : w.length = V.length) :
    ∃ k, w = V.rotate k := by
  obtain ⟨A, B, h⟩ := hw
  rw [List.append_assoc] at h
  obtain ⟨-, m, hB⟩ := append_eq_spin h
  obtain ⟨hw', -⟩ := append_eq_spin hB
  refine ⟨A.length, ?_⟩
  rw [hw', hlen, ← List.length_rotate V A.length, spin_length]

/-! ## Loops and calls -/

/-- `do { x = body(); } while (again(x)); return x;`, at most `fuel` rounds;
`stuck` when they do not suffice. -/
def doWhile (stuck : ε) (body : σ → Except ε (α × σ)) (again : σ → α → Except ε Bool) :
    Nat → σ → Except ε (α × σ)
  | 0, _ => .error stuck
  | fuel + 1, s =>
    match body s with
    | .error e => .error e
    | .ok (x, s) =>
      match again s x with
      | .error e => .error e
      | .ok true => doWhile stuck body again fuel s
      | .ok false => .ok (x, s)

/-- The result of the loop is that of its last round. -/
theorem doWhile_last {I : σ → Prop} {stuck : ε} {body : σ → Except ε (α × σ)}
    {again : σ → α → Except ε Bool} (hbody : ∀ s x t, I s → body s = .ok (x, t) → I t) {fuel : Nat}
    {s t : σ} {x : α} (hs : I s) (h : doWhile stuck body again fuel s = .ok (x, t)) :
    ∃ u, I u ∧ body u = .ok (x, t) ∧ again t x = .ok false := by
  induction fuel generalizing s with
  | zero => cases h
  | succ fuel ih =>
    simp only [doWhile] at h
    split at h
    · cases h
    · next y v hb =>
      split at h
      · cases h
      · exact ih (hbody s y v hs hb) h
      · next ha =>
        cases h
        exact ⟨s, hs, hb, ha⟩

/-- The results of `n` consecutive calls of `next`, and the last state. -/
def calls (next : σ → Except ε (α × σ)) : Nat → σ → Except ε (List α × σ)
  | 0, s => .ok ([], s)
  | n + 1, s =>
    match next s with
    | .error e => .error e
    | .ok (x, s) =>
      match calls next n s with
      | .error e => .error e
      | .ok (xs, s) => .ok (x :: xs, s)

/-- One round hands out the head of the ring and moves it to the back. -/
structure Turns (Good : σ → Prop) (ring : σ → List α) (body : σ → Except ε (α × σ)) : Prop where
  turn : ∀ s x ys, Good s → ring s = x :: ys →
    ∃ s', body s = .ok (x, s') ∧ Good s' ∧ ring s' = ys ++ [x]

variable {Good : σ → Prop} {ring : σ → List α} {body : σ → Except ε (α × σ)}
  {again : σ → α → Except ε Bool} {e : ε} {vis : α → Bool}

/-- The loop in front of a ring whose first visible item is `x`. -/
theorem doWhile_hidden (ht : Turns Good ring body)
    (ha : ∀ s, Good s → ∀ x ∈ ring s, again s x = .ok (!vis x)) (hid ys : List α) (x : α)
    (hhid : ∀ y ∈ hid, vis y = false) (hx : vis x = true) (fuel : Nat) (hf : hid.length < fuel)
    (s : σ) (hs : Good s) (hr : ring s = hid ++ x :: ys) :
    ∃ s', doWhile e body again fuel s = .ok (x, s') ∧ Good s' ∧ ring s' = ys ++ hid ++ [x] := by
  induction hid generalizing s ys fuel with
  | nil =>
    obtain ⟨s', hb, hs', hr'⟩ := ht.turn s x ys hs hr
    obtain ⟨f, rfl⟩ := Nat.exists_eq_succ_of_ne_zero (Nat.ne_of_gt hf)
    have hax := ha s' hs' x (by simp [hr'])
    refine ⟨s', ?_, hs', by simpa using hr'⟩
    simp [doWhile, hb, hax, hx]
  | cons y hid ih =>
    obtain ⟨s', hb, hs', hr'⟩ := ht.turn s y (hid ++ x :: ys) hs hr
    obtain ⟨f, rfl⟩ := Nat.exists_eq_succ_of_ne_zero
      (Nat.ne_of_gt (Nat.lt_of_le_of_lt (Nat.zero_le _) hf))
    have hy : vis y = false := hhid y (List.mem_cons_self ..)
    obtain ⟨t, hd, ht', hrt⟩ := ih (ys ++ [y]) (fun z hz => hhid z (List.mem_cons_of_mem _ hz)) f
      (by simpa using hf) s' hs' (by simpa using hr')
    have hay := ha s' hs' y (by simp [hr'])
    refine ⟨t, ?_, ht', by simpa using hrt⟩
    simp [doWhile, hb, hay, hy, hd]

/-- **One call of the loop.**  If the ring has a visible item, the loop returns
the first of them within one turn and leaves the visible items turned by one. -/
theorem doWhile_ring (ht : Turns Good ring body)
    (ha : ∀ s, Good s → ∀ x ∈ ring s, again s x = .ok (!vis x)) (fuel : Nat) (s : σ) (hs : Good s)
    (hv : ∃ x ∈ ring s, vis x = true) (hf : (ring s).length ≤ fuel) :
    ∃ x V s', (ring s).filter vis = x :: V ∧ doWhile e body again fuel s = .ok (x, s') ∧
      Good s' ∧ (ring s').filter vis = V ++ [x] ∧ (ring s').Perm (ring s) := by
  obtain ⟨x, hid, ys, hhid, hr, hx⟩ : ∃ x hid ys, (∀ y ∈ hid, vis y = false) ∧
      ring s = hid ++ x :: ys ∧ vis x = true := by
    obtain ⟨x, hx, hvx⟩ := hv
    cases hfind : (ring s).find? vis with
    | none => exact absurd hvx (by simpa using List.find?_eq_none.mp hfind x hx)
    | some z =>
      obtain ⟨hz, hid, ys, hr, hhid⟩ := List.find?_eq_some_iff_append.mp hfind
      exact ⟨z, hid, ys, fun y hy => by simpa using hhid y hy, hr, hz⟩
  have hlen : hid.length < fuel := by
    rw [hr, List.length_append, List.length_cons] at hf
    omega
  obtain ⟨s', hd, hs', hr'⟩ := doWhile_hidden (e := e) ht ha hid ys x hhid hx fuel hlen s hs hr
  have hnil : hid.filter vis = [] := by
    rw [List.filter_eq_nil_iff]
    intro y hy
    simp [hhid y hy]
  refine ⟨x, ys.filter vis, s', ?_, hd, hs', ?_, ?_⟩
  · rw [hr, List.filter_append, hnil, List.nil_append, List.filter_cons_of_pos hx]
  · rw [hr', List.filter_append, List.filter_append, hnil, List.append_nil,
      List.filter_cons_of_pos hx, List.filter_nil]
  · rw [hr, hr']
    have h1 : (ys ++ hid ++ [x]).Perm (x :: (ys ++ hid)) := List.perm_append_singleton x _
    have h2 : (x :: (ys ++ hid)).Perm (x :: (hid ++ ys)) := List.perm_append_comm.cons x
    exact h1.trans (h2.trans List.perm_middle.symm)

/-- **Any number of calls.**  A function that returns the head of a list and
turns the list by one returns the endless repetition of that list. -/
theorem calls_spin {next : σ → Except ε (α × σ)} {v : σ → List α}
    (hn : ∀ s, Good s → ∃ x V s', v s = x :: V ∧ next s = .ok (x, s') ∧ Good s' ∧
      v s' = V ++ [x])
    (n : Nat) (s : σ) (hs : Good s) :
    ∃ s', calls next n s = .ok (spin n (v s), s') ∧ Good s' ∧ v s' = (v s).rotate n := by
  induction n generalizing s with
  | zero => exact ⟨s, rfl, hs, by simp⟩
  | succ n ih =>
    obtain ⟨x, V, t, hv, hnext, ht, hv'⟩ := hn s hs
    obtain ⟨s', hc, hs', hvs⟩ := ih t ht
    refine ⟨s', ?_, hs', ?_⟩
    · simp [calls, hnext, hc, hv, hv', spin]
    · rw [hvs, hv', hv, List.rotate_cons_succ]

end Carousel

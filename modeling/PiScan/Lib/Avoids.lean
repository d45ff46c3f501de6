import PiScan.Lib.Carousel

/-!
# Computations that avoid some of their errors

`Avoids Bad P x` is a postcondition of a computation that may fail: what `x`
returns meets `P`, and an error that it stops with is none of `Bad`.

* `Avoids.bind`, `avoids_ite`: the rules for a sequence and a branch;
* `avoids_doWhile`: the rule for a loop, with an invariant of its state;
* `Avoids.of_ok`, `Avoids.not_bad`: what is known of the result.
-/

namespace Outcome

open Carousel

section

variable {ε : Type*} {α β σ : Type*} {Bad : ε → Prop} {P P' : α → Prop} {Q : β → Prop}

def Avoids (Bad : ε → Prop) (P : α → Prop) : Except ε α → Prop
  | .ok a => P a
  | .error e => ¬Bad e

theorem Avoids.of_ok {x : Except ε α} {a : α} (h : Avoids Bad P x) (hx : x = .ok a) : P a := by
  rw [hx] at h
  exact h

theorem Avoids.not_bad {x : Except ε α} {e : ε} (h : Avoids Bad P x) (hx : x = .error e) :
    ¬Bad e := by
  rw [hx] at h
  exact h

theorem Avoids.mono {x : Except ε α} (h : Avoids Bad P x) (hsub : ∀ a, x = .ok a → P a → P' a) :
    Avoids Bad P' x := by
  cases x with
  | error e => exact h
  | ok a => exact hsub a rfl h

/-- A computation that is known to return. -/
theorem avoids_of_eq {x : Except ε α} {a : α} (hx : x = .ok a) (ha : P a) : Avoids Bad P x := by
  rw [hx]
  exact ha

theorem avoids_ite {c : Prop} [Decidable c] {x y : Except ε α} (hx : c → Avoids Bad P x)
    (hy : ¬c → Avoids Bad P y) : Avoids Bad P (if c then x else y) := by
  by_cases hc : c
  · rw [if_pos hc]
    exact hx hc
  · rw [if_neg hc]
    exact hy hc

/-- **Loops.**  The state keeps `I`, and the loop leaves with `P`. -/
theorem avoids_doWhile {I : σ → Prop} {stuck : ε} {body : σ → Except ε (α × σ)}
    {again : σ → α → Except ε Bool} (hstuck : ¬Bad stuck)
    (hbody : ∀ s, I s → Avoids Bad (fun r => P r.1 ∧ I r.2) (body s))
    (hagain : ∀ s x, I s → Avoids Bad (fun _ => True) (again s x)) (fuel : Nat) {s : σ} (hs : I s) :
    Avoids Bad (fun r => P r.1 ∧ I r.2) (doWhile stuck body again fuel s) := by
  induction fuel generalizing s with
  | zero => exact hstuck
  | succ fuel ih =>
    have hb := hbody s hs
    unfold doWhile
    cases hr : body s with
    | error e => exact hb.not_bad hr
    | ok r =>
      obtain ⟨x, s'⟩ := r
      obtain ⟨hx, hs'⟩ := hb.of_ok hr
      have ha := hagain s' x hs'
      simp only
      cases hag : again s' x with
      | error e => exact ha.not_bad hag
      | ok more =>
        cases more with
        | true => exact ih hs'
        | false => exact ⟨hx, hs'⟩

end

/-- **Sequences.** -/
theorem Avoids.bind {ε α β : Type} {Bad : ε → Prop} {P : α → Prop} {Q : β → Prop}
    {x : Except ε α} {f : α → Except ε β} (h : Avoids Bad P x)
    (hf : ∀ a, x = .ok a → P a → Avoids Bad Q (f a)) : Avoids Bad Q (x >>= f) := by
  cases x with
  | error e => exact h
  | ok a => exact hf a rfl h

end Outcome

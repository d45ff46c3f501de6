import Mathlib.Logic.Relation

/-!
# Labelled runs of a transition system

A system is a relation `Step : σ → ι → σ → Prop` between states, labelled by
what the step does.  `Run Step s ls t` executes the labels `ls` from `s` to `t`.

* `Run.append`, `Run.split`: runs compose and can be cut at any label;
* `Run.unique`: where a label determines its step, the labels determine the run;
* `Run.invariant`: what one step preserves holds at the end of every run;
* `Run.invariant_on`: the same for what the steps with certain labels preserve;
* `Run.history`: the same for properties that also speak about the labels so far;
* `Run.mono_on`: under an invariant, the run of one system is one of another;
* `Run.guarded_congr`: under an invariant, two conditions guard the same runs;
* `Run.throughout_iff`: a property that one step keeps just when the step meets a
  condition holds in every state of a run just when every step meets it;
* `Run.labels`: under an invariant, what one step guarantees of its label
  holds of every label of a run;
* `Guarded`: the steps of a system whose source state meets a condition, so
  that "every step of the run meets the condition" is a run of the guarded
  system (`Run.of_guarded`).
-/

namespace Runs

variable {σ ι : Type*}

/-- `Run Step s ls t`: from `s` the labels `ls`, in order, lead to `t`. -/
inductive Run (Step : σ → ι → σ → Prop) : σ → List ι → σ → Prop
  | nil (s : σ) : Run Step s [] s
  | cons {s t u : σ} {l : ι} {ls : List ι} :
      Step s l t → Run Step t ls u → Run Step s (l :: ls) u

/-- `P` holds in every state of the run of `ls` from `s`. -/
def Throughout (Step : σ → ι → σ → Prop) (P : σ → Prop) (s : σ) (ls : List ι) : Prop :=
  ∀ before after mid, ls = before ++ after → Run Step s before mid → P mid

/-- The steps of `Step` whose source state and label satisfy `Ok`. -/
def Guarded (Step : σ → ι → σ → Prop) (Ok : σ → ι → Prop) (s : σ) (l : ι) (t : σ) : Prop :=
  Step s l t ∧ Ok s l

namespace Run

variable {Step Step' : σ → ι → σ → Prop} {s t u : σ} {l : ι} {ls ls' : List ι}

theorem single (h : Step s l t) : Run Step s [l] t := .cons h (.nil t)

theorem append (h : Run Step s ls t) (h' : Run Step t ls' u) : Run Step s (ls ++ ls') u := by
  induction h with
  | nil => exact h'
  | cons hs _ ih => exact .cons hs (ih h')

theorem snoc (h : Run Step s ls t) (hs : Step t l u) : Run Step s (ls ++ [l]) u :=
  h.append (single hs)

/-- A run can be cut between any two of its labels. -/
theorem split (ls : List ι) (h : Run Step s (ls ++ ls') u) :
    ∃ t, Run Step s ls t ∧ Run Step t ls' u := by
  induction ls generalizing s with
  | nil => exact ⟨s, .nil s, h⟩
  | cons l ls ih =>
    cases h with
    | cons hs hr =>
      obtain ⟨t, h₁, h₂⟩ := ih hr
      exact ⟨t, .cons hs h₁, h₂⟩

theorem unique (hfun : ∀ s l t t', Step s l t → Step s l t' → t = t') (h : Run Step s ls t)
    (h' : Run Step s ls u) : t = u := by
  induction h with
  | nil =>
    cases h'
    rfl
  | cons hs _ ih =>
    cases h' with
    | cons hs' hr' =>
      obtain rfl := hfun _ _ _ _ hs hs'
      exact ih hr'

theorem mono (hsub : ∀ s l t, Step s l t → Step' s l t) (h : Run Step s ls t) :
    Run Step' s ls t := by
  induction h with
  | nil => exact .nil _
  | cons hs _ ih => exact .cons (hsub _ _ _ hs) ih

/-- Under an invariant of the steps, they are steps of another system as well. -/
theorem mono_on {I : σ → Prop} (hsub : ∀ s l t, I s → Step s l t → Step' s l t ∧ I t)
    (h : Run Step s ls t) (hs : I s) : Run Step' s ls t := by
  induction h with
  | nil => exact .nil _
  | cons hl _ ih =>
    obtain ⟨hstep, hi⟩ := hsub _ _ _ hs hl
    exact .cons hstep (ih hi)

/-- Two conditions that mean the same in the states of an invariant, which steps
within them keep, guard the same runs. -/
theorem guarded_congr {I : σ → Prop} {Ok Ok' : σ → ι → Prop}
    (hstep : ∀ s l t, I s → Step s l t → Ok s l → I t)
    (hiff : ∀ s l t, I s → Step s l t → (Ok s l ↔ Ok' s l)) (hs : I s) :
    Run (Guarded Step Ok) s ls t ↔ Run (Guarded Step Ok') s ls t := by
  constructor
  · intro h
    refine h.mono_on ?_ hs
    rintro s l t hi ⟨hl, hok⟩
    exact ⟨⟨hl, (hiff s l t hi hl).mp hok⟩, hstep s l t hi hl hok⟩
  · intro h
    refine h.mono_on ?_ hs
    rintro s l t hi ⟨hl, hok⟩
    exact ⟨⟨hl, (hiff s l t hi hl).mpr hok⟩, hstep s l t hi hl ((hiff s l t hi hl).mpr hok)⟩

/-- Forgetting the condition of a guarded run. -/
theorem of_guarded {Ok : σ → ι → Prop} (h : Run (Guarded Step Ok) s ls t) : Run Step s ls t :=
  h.mono fun _ _ _ hs => hs.1

/-- **Invariant rule.**  A property preserved by every step holds at the end
of every run that starts in it. -/
theorem invariant {I : σ → Prop} (hstep : ∀ s l t, I s → Step s l t → I t)
    (h : Run Step s ls t) (hs : I s) : I t := by
  induction h with
  | nil => exact hs
  | cons hl _ ih => exact ih (hstep _ _ _ hs hl)

/-- The invariant rule for runs over labels in `P`. -/
theorem invariant_on {I : σ → Prop} {P : ι → Prop}
    (hstep : ∀ s l t, P l → I s → Step s l t → I t) (h : Run Step s ls t)
    (hls : ∀ l ∈ ls, P l) (hs : I s) : I t := by
  induction h with
  | nil => exact hs
  | cons hl _ ih =>
    exact ih (fun l hm => hls l (List.mem_cons_of_mem _ hm))
      (hstep _ _ _ (hls _ (List.mem_cons_self ..)) hs hl)

/-- The invariant rule for a property of the labels so far and the state, for
runs over labels in `P`. -/
theorem history {I : List ι → σ → Prop} {P : ι → Prop} {pre : List ι}
    (hstep : ∀ pre s l t, P l → I pre s → Step s l t → I (pre ++ [l]) t)
    (h : Run Step s ls t) (hls : ∀ l ∈ ls, P l) (hs : I pre s) : I (pre ++ ls) t := by
  induction h generalizing pre with
  | nil => simpa using hs
  | cons hl _ ih =>
    simpa using ih (fun l hm => hls l (List.mem_cons_of_mem _ hm))
      (hstep _ _ _ _ (hls _ (List.mem_cons_self ..)) hs hl)

/-- A step from an invariant state has a label in `P`; then so has every
label of a run. -/
theorem labels {I : σ → Prop} {P : ι → Prop}
    (hstep : ∀ s l t, I s → Step s l t → I t ∧ P l)
    (h : Run Step s ls t) (hs : I s) : ∀ l ∈ ls, P l := by
  induction h with
  | nil => intro l hl; simp at hl
  | cons hl _ ih =>
    obtain ⟨hi, hp⟩ := hstep _ _ _ hs hl
    intro l' hl'
    rcases List.mem_cons.mp hl' with rfl | hm
    · exact hp
    · exact ih hi l' hm

/-- **Where a property is lost.**  Under an invariant `I`, let a step from a state
with `P` lead to one with `P` just when it meets `Ok`. -/
theorem throughout_iff {I P : σ → Prop} {Ok : σ → ι → Prop}
    (hfun : ∀ s l t t', Step s l t → Step s l t' → t = t')
    (hinv : ∀ s l t, I s → Step s l t → I t)
    (hiff : ∀ s l t, I s → P s → Step s l t → (P t ↔ Ok s l))
    (h : Run Step s ls t) (hi : I s) (hp : P s) :
    Throughout Step P s ls ↔ Run (Guarded Step Ok) s ls t := by
  constructor
  · intro hall
    induction h with
    | nil => exact .nil _
    | @cons s t u l ls hstep _ ih =>
      have ht : P t := hall [l] ls t rfl (single hstep)
      refine .cons ⟨hstep, (hiff s l t hi hp hstep).mp ht⟩ (ih (hinv s l t hi hstep) ht ?_)
      intro before after mid hsplit hbefore
      subst hsplit
      exact hall (l :: before) after mid rfl (.cons hstep hbefore)
  · intro hguarded before after mid hsplit hbefore
    subst hsplit
    obtain ⟨mid', hbefore', -⟩ := hguarded.split before
    obtain rfl : mid' = mid := hbefore'.of_guarded.unique hfun hbefore
    have hboth : I mid' ∧ P mid' := by
      apply invariant (I := fun s => I s ∧ P s) ?_ hbefore' ⟨hi, hp⟩
      rintro s l t ⟨hi, hp⟩ ⟨hstep, hok⟩
      exact ⟨hinv s l t hi hstep, (hiff s l t hi hp hstep).mpr hok⟩
    exact hboth.2

end Run

end Runs

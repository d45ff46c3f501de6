import Mathlib.Logic.Function.Basic
import PiScan.Lib.Run

/-!
# Monitors

A monitor is data behind one lock.  A call takes the lock, waits for a condition on
the data if it has one, changes the data, notifies the waiting calls of some
conditions and releases the lock.  A call that waits has released the lock; it
tests its condition again whenever it is woken, and one with a time limit may give
up waiting.  The threads are interleaved step by step, and may wake for no reason.

* `Locked`: a thread has the lock exactly where its code holds it;
* `Roused`: a call that waits for a condition which holds is about to be notified,
  if every change that makes a condition true is notified (`Signals`);
* `stuck`: then threads that cannot go on by themselves all wait for a condition
  that does not hold.
-/

namespace Monitors

open Runs

/-- Calls `ω` on data `σ`, with conditions `κ`. -/
structure Monitor (σ ω κ : Type) where
  /-- The condition that a call waits for, and whether it has a time limit. -/
  waits : ω → Option (κ × Bool)
  holds : κ → σ → Bool
  /-- What the call does to the data, waiting over. -/
  body : ω → σ → σ
  /-- The conditions whose waiting calls it notifies, from the data before. -/
  notifies : ω → σ → κ → Bool

/-- What a thread does next. -/
inductive Status (ω κ : Type)
  | idle
  | lock (o : ω) (timedOut : Bool)
  | test (o : ω) (timedOut : Bool)
  | waiting (o : ω)
  | notify (ks : κ → Bool)
  | unlock

/-- The thread holds the lock. -/
def Status.holdsLock {ω κ : Type} : Status ω κ → Bool
  | test _ _ | notify _ | unlock => true
  | _ => false

structure State (τ σ ω κ : Type) where
  data : σ
  owner : Option τ
  status : τ → Status ω κ

inductive Label (τ ω : Type)
  | call (t : τ) (o : ω)
  | run (t : τ)
  | timeout (t : τ)
  | spurious (t : τ)

variable {τ σ ω κ : Type} [DecidableEq τ]

namespace State

def start (d : σ) : State τ σ ω κ := ⟨d, none, fun _ => .idle⟩

def goto (s : State τ σ ω κ) (t : τ) (v : Status ω κ) : State τ σ ω κ :=
  { s with status := Function.update s.status t v }

@[simp] theorem goto_data (s : State τ σ ω κ) (t : τ) (v : Status ω κ) :
    (s.goto t v).data = s.data := rfl

@[simp] theorem goto_owner (s : State τ σ ω κ) (t : τ) (v : Status ω κ) :
    (s.goto t v).owner = s.owner := rfl

@[simp] theorem goto_self (s : State τ σ ω κ) (t : τ) (v : Status ω κ) :
    (s.goto t v).status t = v := Function.update_self ..

theorem goto_other (s : State τ σ ω κ) {t u : τ} (v : Status ω κ) (h : u ≠ t) :
    (s.goto t v).status u = s.status u := Function.update_of_ne h ..

end State

namespace Monitor

variable (M : Monitor σ ω κ)

/-- The call waits for one of the conditions `ks`. -/
def waitsForOne (ks : κ → Bool) (o : ω) : Bool :=
  match M.waits o with
  | some (k, _) => ks k
  | none => false

/-- `notify_all` for the conditions `ks`: the calls that wait for one go for the lock. -/
def rouse (ks : κ → Bool) : Status ω κ → Status ω κ
  | .waiting o => if M.waitsForOne ks o then .lock o false else .waiting o
  | v => v

/-- The call has to wait. -/
def mustWait (o : ω) (d : σ) (timedOut : Bool) : Bool :=
  match M.waits o with
  | some (k, _) => !M.holds k d && !timedOut
  | none => false

/-- The next step of a thread that can go on by itself. -/
def run (s : State τ σ ω κ) (t : τ) : Option (State τ σ ω κ) :=
  match s.status t with
  | .idle => none
  | .lock o timedOut =>
    if s.owner.isNone then some ({ s with owner := some t }.goto t (.test o timedOut)) else none
  | .test o timedOut =>
    if M.mustWait o s.data timedOut then some ({ s with owner := none }.goto t (.waiting o))
    else some ({ s with data := M.body o s.data }.goto t (.notify (M.notifies o s.data)))
  | .waiting _ => none
  | .notify ks => some ({ s with status := fun u => M.rouse ks (s.status u) }.goto t .unlock)
  | .unlock => some ({ s with owner := none }.goto t .idle)

def next (s : State τ σ ω κ) : Label τ ω → Option (State τ σ ω κ)
  | .call t o =>
    match s.status t with
    | .idle => some (s.goto t (.lock o false))
    | _ => none
  | .run t => M.run s t
  | .timeout t =>
    match s.status t with
    | .waiting o =>
      match M.waits o with
      | some (_, true) => some (s.goto t (.lock o true))
      | _ => none
    | _ => none
  | .spurious t =>
    match s.status t with
    | .waiting o => some (s.goto t (.lock o false))
    | _ => none

def Step (s : State τ σ ω κ) (l : Label τ ω) (t : State τ σ ω κ) : Prop := M.next s l = some t

/-- The state is reached from a start with the data `d`. -/
def Reachable (d : σ) (s : State τ σ ω κ) : Prop := ∃ ls, Run M.Step (.start d) ls s

/-- Every change that makes a condition true is notified. -/
def Signals : Prop :=
  ∀ o k d, M.holds k (M.body o d) = true → M.holds k d = false → M.notifies o d k = true

/-! ## What a step can do -/

variable {M} {s s' : State τ σ ω κ} {t u : τ} {l : Label τ ω}

theorem rouse_holdsLock (ks : κ → Bool) (v : Status ω κ) :
    (M.rouse ks v).holdsLock = v.holdsLock := by
  cases v with
  | waiting o =>
    rw [rouse]
    split
    · rfl
    · rfl
  | _ => rfl

theorem rouse_eq_waiting {ks : κ → Bool} {v : Status ω κ} {o : ω}
    (h : M.rouse ks v = .waiting o) : v = .waiting o ∧ M.waitsForOne ks o = false := by
  cases v with
  | waiting o' =>
    rw [rouse] at h
    split at h
    · cases h
    · next hone =>
      cases h
      exact ⟨rfl, by simpa using hone⟩
  | _ => cases h

@[simp] theorem rouse_notify (ks ks' : κ → Bool) : M.rouse ks (.notify ks') = .notify ks' := rfl

/-- **What a step can do.** -/
theorem step_cases (h : M.Step s l s') :
    (∃ t o, s.status t = .idle ∧ s' = s.goto t (.lock o false)) ∨
    (∃ t o b, s.status t = .lock o b ∧ s.owner = none ∧
      s' = { s with owner := some t }.goto t (.test o b)) ∨
    (∃ t o b, s.status t = .test o b ∧ M.mustWait o s.data b = true ∧
      s' = { s with owner := none }.goto t (.waiting o)) ∨
    (∃ t o b, s.status t = .test o b ∧ M.mustWait o s.data b = false ∧
      s' = { s with data := M.body o s.data }.goto t (.notify (M.notifies o s.data))) ∨
    (∃ t ks, s.status t = .notify ks ∧
      s' = { s with status := fun u => M.rouse ks (s.status u) }.goto t .unlock) ∨
    (∃ t, s.status t = .unlock ∧ s' = { s with owner := none }.goto t .idle) ∨
    (∃ t o b, s.status t = .waiting o ∧ s' = s.goto t (.lock o b)) := by
  unfold Step at h
  cases l with
  | call t o =>
    simp only [next] at h
    split at h
    · next hidle =>
      cases h
      exact .inl ⟨t, o, hidle, rfl⟩
    · cases h
  | run t =>
    simp only [next, run] at h
    split at h
    · cases h
    · next o b hlock =>
      split at h
      · next hfree =>
        cases h
        exact .inr (.inl ⟨t, o, b, hlock, by simpa using hfree, rfl⟩)
      · cases h
    · next o b htest =>
      split at h
      · next hwait =>
        cases h
        exact .inr (.inr (.inl ⟨t, o, b, htest, hwait, rfl⟩))
      · next hwait =>
        cases h
        exact .inr (.inr (.inr (.inl ⟨t, o, b, htest, by simpa using hwait, rfl⟩)))
    · cases h
    · next ks hnotify =>
      cases h
      exact .inr (.inr (.inr (.inr (.inl ⟨t, ks, hnotify, rfl⟩))))
    · next hunlock =>
      cases h
      exact .inr (.inr (.inr (.inr (.inr (.inl ⟨t, hunlock, rfl⟩)))))
  | timeout t =>
    simp only [next] at h
    split at h
    · next o hwaiting =>
      split at h
      · cases h
        exact .inr (.inr (.inr (.inr (.inr (.inr ⟨t, o, true, hwaiting, rfl⟩)))))
      · cases h
    · cases h
  | spurious t =>
    simp only [next] at h
    split at h
    · next o hwaiting =>
      cases h
      exact .inr (.inr (.inr (.inr (.inr (.inr ⟨t, o, false, hwaiting, rfl⟩)))))
    · cases h

/-! ## The lock -/

/-- The owner of the lock is where its code holds it. -/
def Locked (s : State τ σ ω κ) : Prop := ∀ t, s.owner = some t ↔ (s.status t).holdsLock = true

omit [DecidableEq τ] in
theorem locked_start (d : σ) : Locked (.start d : State τ σ ω κ) := by
  intro t
  simp [State.start, Status.holdsLock]

/-- A step of a thread that neither takes nor releases the lock. -/
theorem Locked.keep (h : Locked s) {v : Status ω κ} (hv : v.holdsLock = (s.status t).holdsLock) :
    Locked (s.goto t v) := by
  intro u
  by_cases hu : u = t
  · subst hu
    rw [State.goto_owner, State.goto_self, hv, h u]
  · rw [State.goto_owner, State.goto_other s v hu, h u]

theorem Locked.acquire (h : Locked s) (hfree : s.owner = none) {v : Status ω κ}
    (hv : v.holdsLock = true) : Locked ({ s with owner := some t }.goto t v) := by
  intro u
  by_cases hu : u = t
  · subst hu
    simp [hv]
  · have hother := h u
    rw [hfree] at hother
    rw [State.goto_owner, State.goto_other _ v hu]
    constructor
    · intro heq
      exact absurd (Option.some.inj heq).symm hu
    · intro hholds
      exact absurd (hother.mpr hholds) (by simp)

theorem Locked.release (h : Locked s) (howner : (s.status t).holdsLock = true) {v : Status ω κ}
    (hv : v.holdsLock = false) : Locked ({ s with owner := none }.goto t v) := by
  have ht : s.owner = some t := (h t).mpr howner
  intro u
  by_cases hu : u = t
  · subst hu
    simp [hv]
  · rw [State.goto_owner, State.goto_other _ v hu, ← h u, ht]
    simp [Ne.symm hu]

omit [DecidableEq τ] in
/-- Only the owner of the lock is where the code holds it. -/
theorem Locked.eq (h : Locked s) (ht : (s.status t).holdsLock = true)
    (hu : (s.status u).holdsLock = true) : u = t := by
  have hown := (h t).mpr ht
  rw [(h u).mpr hu] at hown
  exact Option.some.inj hown

theorem Locked.step (h : Locked s) (hstep : M.Step s l s') : Locked s' := by
  obtain ⟨t, o, hidle, rfl⟩ | ⟨t, o, b, hlock, hfree, rfl⟩ | ⟨t, o, b, htest, -, rfl⟩ |
    ⟨t, o, b, htest, -, rfl⟩ | ⟨t, ks, hnotify, rfl⟩ | ⟨t, hunlock, rfl⟩ |
    ⟨t, o, b, hwaiting, rfl⟩ := step_cases hstep
  · exact h.keep (by rw [hidle]; rfl)
  · exact h.acquire hfree rfl
  · exact h.release (by rw [htest]; rfl) rfl
  · have hdata : Locked { s with data := M.body o s.data } := h
    exact hdata.keep (by rw [htest]; rfl)
  · have hroused : Locked { s with status := fun u => M.rouse ks (s.status u) } := by
      intro u
      rw [rouse_holdsLock]
      exact h u
    exact hroused.keep (by rw [rouse_holdsLock, hnotify]; rfl)
  · exact h.release (by rw [hunlock]; rfl) rfl
  · exact h.keep (by rw [hwaiting]; rfl)

/-! ## No wake-up is lost -/

/-- A call that waits has a condition; if it holds, a thread with the lock is about
to notify it. -/
def Roused (M : Monitor σ ω κ) (s : State τ σ ω κ) : Prop :=
  ∀ t o, s.status t = .waiting o → ∃ k b, M.waits o = some (k, b) ∧
    (M.holds k s.data = true → ∃ u ks, s.status u = .notify ks ∧ ks k = true)

omit [DecidableEq τ] in
theorem roused_start (d : σ) : Roused M (.start d : State τ σ ω κ) := by
  intro t o h
  cases h

/-- A thread that is not notifying moves on, and waits for nothing. -/
theorem Roused.keep (h : Roused M s) {v : Status ω κ} (hv : ∀ o, v ≠ .waiting o)
    (ht : ∀ ks, s.status t ≠ .notify ks) : Roused M (s.goto t v) := by
  intro u o hu
  by_cases hut : u = t
  · subst hut
    rw [State.goto_self] at hu
    exact absurd hu (hv o)
  · rw [State.goto_other s v hut] at hu
    obtain ⟨k, b, hwaits, hholds⟩ := h u o hu
    refine ⟨k, b, hwaits, fun hk => ?_⟩
    obtain ⟨w, ks, hw, hks⟩ := hholds hk
    have hwt : w ≠ t := by
      rintro rfl
      exact ht ks hw
    exact ⟨w, ks, by rw [State.goto_other s v hwt, hw], hks⟩

omit [DecidableEq τ] in
/-- While a thread has the lock and is not notifying, what others wait for does not
hold. -/
theorem Roused.not_holds (h : Roused M s) (hlocked : Locked s) (ht : (s.status t).holdsLock = true)
    (hnot : ∀ ks, s.status t ≠ .notify ks) {o : ω} (hu : s.status u = .waiting o) :
    ∃ k b, M.waits o = some (k, b) ∧ M.holds k s.data = false := by
  obtain ⟨k, b, hwaits, hholds⟩ := h u o hu
  refine ⟨k, b, hwaits, ?_⟩
  by_contra hk
  obtain ⟨w, ks, hw, -⟩ := hholds (by simpa using hk)
  obtain rfl := hlocked.eq ht (by rw [hw]; rfl)
  exact hnot ks hw

theorem mustWait_waits {o : ω} {d : σ} {b : Bool} (h : M.mustWait o d b = true) :
    ∃ k c, M.waits o = some (k, c) ∧ M.holds k d = false := by
  unfold mustWait at h
  split at h
  · next k c hwaits =>
    rw [Bool.and_eq_true, Bool.not_eq_true'] at h
    exact ⟨k, c, hwaits, h.1⟩
  · cases h

theorem Roused.step (hM : M.Signals) (hlocked : Locked s) (h : Roused M s)
    (hstep : M.Step s l s') : Roused M s' := by
  obtain ⟨t, o, hidle, rfl⟩ | ⟨t, o, b, hlock, hfree, rfl⟩ | ⟨t, o, b, htest, hwait, rfl⟩ |
    ⟨t, o, b, htest, -, rfl⟩ | ⟨t, ks, hnotify, rfl⟩ | ⟨t, hunlock, rfl⟩ |
    ⟨t, o, b, hwaiting, rfl⟩ := step_cases hstep
  · exact h.keep (fun _ hv => by cases hv) (fun _ hv => by rw [hidle] at hv; cases hv)
  · have howner : Roused M { s with owner := some t } := h
    exact howner.keep (fun _ hv => by cases hv) (fun _ hv => by rw [hlock] at hv; cases hv)
  · -- the thread starts to wait for a condition that does not hold
    have hnot : ∀ ks, s.status t ≠ .notify ks := fun ks hv => by rw [htest] at hv; cases hv
    intro u o' hu
    by_cases hut : u = t
    · subst hut
      rw [State.goto_self] at hu
      cases hu
      obtain ⟨k, c, hwaits, hk⟩ := mustWait_waits hwait
      exact ⟨k, c, hwaits, fun hholds => by rw [State.goto_data, hk] at hholds; cases hholds⟩
    · rw [State.goto_other _ _ hut] at hu
      obtain ⟨k, c, hwaits, hk⟩ := h.not_holds hlocked (by rw [htest]; rfl) hnot hu
      exact ⟨k, c, hwaits, fun hholds => by rw [State.goto_data, hk] at hholds; cases hholds⟩
  · -- what the change makes true it notifies
    have hnot : ∀ ks, s.status t ≠ .notify ks := fun ks hv => by rw [htest] at hv; cases hv
    intro u o' hu
    by_cases hut : u = t
    · subst hut
      rw [State.goto_self] at hu
      cases hu
    · rw [State.goto_other _ _ hut] at hu
      obtain ⟨k, c, hwaits, hk⟩ := h.not_holds hlocked (by rw [htest]; rfl) hnot hu
      exact ⟨k, c, hwaits, fun hholds => ⟨t, _, State.goto_self .., hM o k s.data hholds hk⟩⟩
  · -- whoever waits for a notified condition stops waiting
    intro u o hu
    by_cases hut : u = t
    · subst hut
      rw [State.goto_self] at hu
      cases hu
    · rw [State.goto_other _ _ hut] at hu
      obtain ⟨hwaiting, hone⟩ := rouse_eq_waiting hu
      obtain ⟨k, b, hwaits, hholds⟩ := h u o hwaiting
      refine ⟨k, b, hwaits, fun hk => ?_⟩
      obtain ⟨w, ks', hw, hks⟩ := hholds hk
      obtain rfl := hlocked.eq (t := t) (u := w) (by rw [hnotify]; rfl) (by rw [hw]; rfl)
      rw [hnotify] at hw
      cases hw
      simp only [waitsForOne, hwaits, hks] at hone
      cases hone
  · have howner : Roused M { s with owner := none } := h
    exact howner.keep (fun _ hv => by cases hv) (fun _ hv => by rw [hunlock] at hv; cases hv)
  · exact h.keep (fun _ hv => by cases hv) (fun _ hv => by rw [hwaiting] at hv; cases hv)

/-- The lock and the waiting calls of a reachable state. -/
theorem Reachable.invariant (hM : M.Signals) {d : σ} (h : M.Reachable d s) :
    Locked s ∧ Roused M s := by
  obtain ⟨ls, hrun⟩ := h
  refine hrun.invariant (I := fun s => Locked s ∧ Roused M s) ?_ ⟨locked_start d, roused_start d⟩
  intro s l s' hi hstep
  exact ⟨hi.1.step hstep, hi.2.step hM hi.1 hstep⟩

/-- What the bodies of the calls keep holds of the data of every reachable state. -/
theorem Reachable.data {d : σ} {I : σ → Prop} (hbody : ∀ o d, I d → I (M.body o d))
    (h : M.Reachable d s) (hd : I d) : I s.data := by
  obtain ⟨ls, hrun⟩ := h
  refine hrun.invariant (I := fun s => I s.data) ?_ hd
  intro s l s' hi hstep
  obtain ⟨t, o, -, rfl⟩ | ⟨t, o, b, -, -, rfl⟩ | ⟨t, o, b, -, -, rfl⟩ | ⟨t, o, b, -, -, rfl⟩ |
    ⟨t, ks, -, rfl⟩ | ⟨t, -, rfl⟩ | ⟨t, o, b, -, rfl⟩ := step_cases hstep
  · exact hi
  · exact hi
  · exact hi
  · exact hbody o s.data hi
  · exact hi
  · exact hi
  · exact hi

/-- No thread can go on by itself. -/
def Stuck (M : Monitor σ ω κ) (s : State τ σ ω κ) : Prop := ∀ t, M.run s t = none

/-- **Stuck threads wait for what does not hold.** -/
theorem Reachable.stuck (hM : M.Signals) {d : σ} (h : M.Reachable d s) (hstuck : M.Stuck s)
    (t : τ) : s.status t = .idle ∨
      ∃ o k b, s.status t = .waiting o ∧ M.waits o = some (k, b) ∧ M.holds k s.data = false := by
  obtain ⟨hlocked, hroused⟩ := h.invariant hM
  have hfree : s.owner = none := by
    rcases hown : s.owner with _ | u
    · rfl
    · -- the owner of the lock can always go on
      have hu := hstuck u
      have hholds := (hlocked u).mp hown
      unfold run at hu
      split at hu
      · next hs => rw [hs] at hholds; cases hholds
      · next hs => rw [hs] at hholds; cases hholds
      · split at hu <;> cases hu
      · next hs => rw [hs] at hholds; cases hholds
      · cases hu
      · cases hu
  have ht := hstuck t
  unfold run at ht
  split at ht
  · next hs => exact .inl hs
  · rw [hfree] at ht
    cases ht
  · split at ht <;> cases ht
  · next o hs =>
    obtain ⟨k, b, hwaits, hholds⟩ := hroused t o hs
    refine .inr ⟨o, k, b, hs, hwaits, ?_⟩
    by_contra hk
    obtain ⟨u, ks, hu, -⟩ := hholds (by simpa using hk)
    have hrun := hstuck u
    rw [run, hu] at hrun
    cases hrun
  · cases ht
  · cases ht

end Monitor

end Monitors

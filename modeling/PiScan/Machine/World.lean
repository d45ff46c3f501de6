import PiScan.Lib.Run
import PiScan.Machine.ScannerSM

/-!
# Clients and the state thread

The whole system: the machine, the point at which its thread stands, and any
number of clients, each of them in one call at a time.  A call is cut into the
steps that other threads can come between:

* `begin`, and for `holdScan` `storeFlag` (`_externalHold.store(true)`) and
  `storeIndex` (`_holdIndex = index` under `_holdMutex`);
* `lookup`, which reads `TRANSITIONS[currentState]` without a lock;
* `ignore`, or `commit` under `_eventMutex`, with which the call returns.

`step` computes the successor of a world under a label, `exec` executes a list
of labels, and `Run Step` is a run of the system.
-/

namespace PiScan.Machine

open Scan Sigproc Runs

/-- How far a client is in its call. -/
inductive ClientPc
  | ready
  | begun (call : Call)
  | flagged (index : List Int)
  | stored (index : List Int)
  | looked (call : Call) (next : Transition)
  deriving DecidableEq, Repr

namespace ClientPc

/-- The call a client is in. -/
def call? : ClientPc → Option Call
  | ready => none
  | begun call => some call
  | flagged index => some (.holdScan index)
  | stored index => some (.holdScan index)
  | looked call _ => some call

/-- The call whose table is read next. -/
def toLookup : ClientPc → Option Call
  | begun (.holdScan _) => none
  | begun call => some call
  | stored index => some (.holdScan index)
  | _ => none

end ClientPc

/-- The steps of a run. -/
inductive Label
  | begin (c : Nat) (call : Call)
  | storeFlag (c : Nat)
  | storeIndex (c : Nat)
  | lookup (c : Nat)
  | ignore (c : Nat)
  | commit (c : Nat)
  | activate (h : States)
  | resume (r : ScannerSM.Reading)
  deriving DecidableEq, Repr

/-- The handler that a step starts. -/
def Label.activated : Label → Option States
  | activate h => some h
  | _ => none

/-- The client that takes a step. -/
def Label.client : Label → Option Nat
  | begin c _ | storeFlag c | storeIndex c | lookup c | ignore c | commit c => some c
  | _ => none

/-- The handlers that a run starts, in order. -/
def activations (ls : List Label) : List States := ls.filterMap Label.activated

@[simp] theorem activations_nil : activations [] = [] := rfl

@[simp] theorem activations_singleton (l : Label) :
    activations [l] = l.activated.toList := by
  cases l <;> rfl

@[simp] theorem activations_append (ls ls' : List Label) :
    activations (ls ++ ls') = activations ls ++ activations ls' := List.filterMap_append ..

theorem activations_concat_of_none {l : Label} (ls : List Label) (hl : l.activated = none) :
    activations (ls ++ [l]) = activations ls := by
  rw [activations_append, activations_singleton, hl, Option.toList_none, List.append_nil]

theorem getLast?_activations_snoc (ls : List Label) (l : Label) :
    (activations (ls ++ [l])).getLast? = l.activated.or (activations ls).getLast? := by
  rw [activations_append, activations_singleton, List.getLast?_append]
  cases l.activated <;> rfl

/-- A call that the step begins is of the kind `K`. -/
def Label.Begins (K : Call → Prop) : Label → Prop
  | begin _ call => K call
  | _ => True

instance (K : Call → Prop) [DecidablePred K] (l : Label) : Decidable (l.Begins K) := by
  cases l <;> unfold Label.Begins <;> infer_instance

/-- The calls that `ls` begins are of the kind `K`. -/
def Begins (K : Call → Prop) (ls : List Label) : Prop := ∀ l ∈ ls, l.Begins K

instance (K : Call → Prop) [DecidablePred K] (ls : List Label) : Decidable (Begins K ls) :=
  inferInstanceAs (Decidable (∀ l ∈ ls, l.Begins K))

structure World where
  sm : ScannerSM
  pc : Pc
  clients : Nat → ClientPc

namespace Pc

/-- `_eventMutex` is free. -/
def Unlocked (pc : Pc) : Prop := pc = idle ∨ pc = ended

instance (pc : Pc) : Decidable pc.Unlocked := inferInstanceAs (Decidable (_ ∨ _))

/-- The thread is inside a handler. -/
def InHandler : Pc → Prop
  | idle | ended | crashed _ => False
  | _ => True

instance (pc : Pc) : Decidable pc.InHandler := by
  cases pc <;> unfold InHandler <;> infer_instance

/-- Neither in `ST_Scan`, which is about to take an entry, nor after a fault. -/
def steady : Pc → Bool
  | scan | crashed _ => false
  | _ => true

theorem steady_ne {pc : Pc} (h : pc.steady = true) : pc ≠ scan ∧ ∀ f, pc ≠ crashed f := by
  cases pc <;> simp_all [steady]

end Pc

namespace World

/-- The world after `start()`. -/
def init (data : ThreadData) : World :=
  { sm := .start data, pc := .idle, clients := fun _ => .ready }

def setClient (c : Nat) (p : ClientPc) (w : World) : World :=
  { w with clients := Function.update w.clients c p }

/-- What a part of a handler leaves; after a fault nothing runs any more. -/
def outcome (w : World) : Except Fault (Pc × ScannerSM) → World
  | .error f => { w with pc := .crashed f }
  | .ok (pc, sm) => { w with pc, sm }

/-- What the step `l` makes of a world, if `l` is possible there. -/
def perform (l : Label) (w : World) : Option World :=
  match l with
  | .begin c call =>
    if w.clients c = .ready then some (w.setClient c (.begun call)) else none
  | .storeFlag c =>
    match w.clients c with
    | .begun (.holdScan index) =>
      some ({ w with sm := { w.sm with externalHold := true } }.setClient c (.flagged index))
    | _ => none
  | .storeIndex c =>
    match w.clients c with
    | .flagged index =>
      some ({ w with sm := { w.sm with holdIndex := index } }.setClient c (.stored index))
    | _ => none
  | .lookup c =>
    match (w.clients c).toLookup with
    | some call => some (w.setClient c (.looked call (call.transition w.sm.currentState)))
    | none => none
  | .ignore c =>
    match w.clients c with
    | .looked _ none => some (w.setClient c .ready)
    | _ => none
  | .commit c =>
    match w.clients c with
    | .looked call (some next) =>
      if w.pc.Unlocked then
        let sm := { w.sm with toStateMachine := w.sm.externalEvent next call.data }
        some ({ w with sm }.setClient c .ready)
      else none
    | _ => none
  | .activate h =>
    if w.pc = .idle ∧ w.sm.eventGenerated ∧ w.sm.currentState = h then
      some (w.outcome w.sm.stateEngine)
    else none
  | .resume r => if w.pc.InHandler then some (w.outcome (w.sm.resume r w.pc)) else none

/-- The world after the step `l`; a crashed process makes none. -/
def step (l : Label) (w : World) : Option World :=
  match w.pc with
  | .crashed _ => none
  | _ => perform l w

def Step (w : World) (l : Label) (w' : World) : Prop := step l w = some w'

/-- A label determines its step. -/
theorem step_unique (w : World) (l : Label) (w₁ w₂ : World) (h₁ : Step w l w₁)
    (h₂ : Step w l w₂) : w₁ = w₂ := Option.some.inj (h₁.symm.trans h₂)

/-- The world after `ls`, if every step is possible and meets `Ok`. -/
def exec (Ok : World → Label → Prop) [∀ w l, Decidable (Ok w l)] : List Label → World → Option World
  | [], w => some w
  | l :: ls, w => if Ok w l then (step l w).bind (exec Ok ls) else none

/-- The world after `ls`, where `ls` can be executed. -/
def after (w : World) (ls : List Label) : World := (exec (fun _ _ => True) ls w).getD w

theorem run_of_exec {Ok : World → Label → Prop} [∀ w l, Decidable (Ok w l)] {ls : List Label}
    {w w' : World} (h : exec Ok ls w = some w') : Run (Guarded Step Ok) w ls w' := by
  induction ls generalizing w with
  | nil =>
    obtain rfl := Option.some.inj h
    exact .nil w
  | cons l ls ih =>
    simp only [exec, Option.ite_none_right_eq_some, Option.bind_eq_some_iff] at h
    obtain ⟨hok, w₁, hs, hr⟩ := h
    exact .cons ⟨hs, hok⟩ (ih hr)

theorem run_after {ls : List Label} {w : World}
    (h : (exec (fun _ _ => True) ls w).isSome = true) : Run Step w ls (w.after ls) := by
  obtain ⟨w', hw'⟩ := Option.isSome_iff_exists.mp h
  rw [after, hw', Option.getD_some]
  exact (run_of_exec hw').of_guarded

theorem step_after {l : Label} {w : World}
    (h : (exec (fun _ _ => True) [l] w).isSome = true) : Step w l (w.after [l]) := by
  cases run_after h with
  | cons hs hr =>
    cases hr
    exact hs

/-- The condition does not change where an execution leads. -/
theorem exec_true {Ok : World → Label → Prop} [∀ w l, Decidable (Ok w l)] {ls : List Label}
    {w w' : World} (h : exec Ok ls w = some w') : exec (fun _ _ => True) ls w = some w' := by
  induction ls generalizing w with
  | nil => exact h
  | cons l ls ih =>
    simp only [exec, Option.ite_none_right_eq_some, Option.bind_eq_some_iff] at h ⊢
    obtain ⟨-, w₁, hs, hr⟩ := h
    exact ⟨trivial, w₁, hs, ih hr⟩

theorem guarded_run_after {Ok : World → Label → Prop} [∀ w l, Decidable (Ok w l)]
    {ls : List Label} {w : World} (h : (exec Ok ls w).isSome = true) :
    Run (Guarded Step Ok) w ls (w.after ls) := by
  obtain ⟨w', hw'⟩ := Option.isSome_iff_exists.mp h
  rw [after, exec_true hw', Option.getD_some]
  exact run_of_exec hw'

theorem perform_of_step {l : Label} {w w' : World} (h : Step w l w') : perform l w = some w' := by
  unfold Step step at h
  split at h
  · cases h
  · exact h

/-- After a fault nothing runs. -/
theorem not_step_crashed {l : Label} {w w' : World} {f : Fault} (hpc : w.pc = .crashed f) :
    ¬Step w l w' := by
  intro hs
  unfold Step step at hs
  rw [hpc] at hs
  cases hs

end World

end PiScan.Machine

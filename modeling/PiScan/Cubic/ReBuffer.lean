import Mathlib.Data.List.Nodup
import Mathlib.Logic.Function.Basic
import PiScan.Lib.Run

/-!
# Recycled buffers

`ReBuffer` of `IOThread.h`, from which the threads of the receiver take their buffers:
a buffer is used again when only the pool refers to it.  Other threads copy and drop
their references at any moment, also while `getBuffer` goes through the pool.

* `Sound.visit`, `Sound.finish`: what a step of `getBuffer` keeps;
* `getBuffer_alone`: a buffer that is handed out is held by nobody else, no buffer in
  use is given up, and the pool has at most one buffer more than were ever in use.
-/

namespace PiScan.Cubic

open Runs

def REBUFFER_GC_LIMIT : Int := 100

/-- Buffers are numbers, in the order in which they are made.  `held` counts the
references outside the pool, `scan` is the place of `getBuffer` in its loop and the buffer
it has selected, and `peak` records the most buffers of the pool that were in use at the
beginning of a `getBuffer`. -/
structure ReBuffer where
  outputBuffers : List (Nat × Int)
  held : Nat → Nat
  fresh : Nat
  scan : Option (Nat × Option Nat)
  peak : Nat

namespace ReBuffer

inductive Label
  | getBuffer
  | visit
  | finish
  | clone (id : Nat)
  | drop (id : Nat)
  | purge
  deriving DecidableEq, Repr

def init : ReBuffer where
  outputBuffers := []
  held _ := 0
  fresh := 0
  scan := none
  peak := 0

/-- `ptr.use_count()`: the pool's own reference, those outside, and `buf`. -/
def useCount (s : ReBuffer) (buf : Option Nat) (id : Nat) : Nat :=
  1 + s.held id + if buf = some id then 1 else 0

/-- The buffers of the pool that are in use. -/
def inUse (s : ReBuffer) (bufs : List (Nat × Int)) : Nat := bufs.countP fun b => 0 < s.held b.1

/-- One pass of the loop, at the buffer `id`. -/
def visit (s : ReBuffer) (i : Nat) (buf : Option Nat) (id : Nat) (age : Int) : ReBuffer :=
  if s.useCount buf id = 1 then
    match buf with
    | none =>
      { s with outputBuffers := s.outputBuffers.set i (id, 1), scan := some (i + 1, some id) }
    | some _ =>
      { s with outputBuffers := s.outputBuffers.set i (id, age - 1), scan := some (i + 1, buf) }
  else { s with scan := some (i + 1, buf) }

/-- Behind the loop: the selected buffer, or a new one. -/
def finish (s : ReBuffer) : Option Nat → ReBuffer
  | some id =>
    { s with
      outputBuffers :=
        match s.outputBuffers.getLast? with
        | none => s.outputBuffers
        | some last =>
          if last.2 < -REBUFFER_GC_LIMIT then s.outputBuffers.dropLast else s.outputBuffers
      held := Function.update s.held id (s.held id + 1)
      scan := none }
  | none =>
    { s with
      outputBuffers := s.outputBuffers ++ [(s.fresh, 1)]
      held := Function.update s.held s.fresh (s.held s.fresh + 1)
      fresh := s.fresh + 1
      scan := none }

def next (s : ReBuffer) : Label → Option ReBuffer
  | .getBuffer =>
    match s.scan with
    | none =>
      some { s with scan := some (0, none), peak := max s.peak (s.inUse s.outputBuffers) }
    | some _ => none
  | .visit =>
    match s.scan with
    | none => none
    | some (i, buf) =>
      match s.outputBuffers[i]? with
      | none => none
      | some (id, age) => some (s.visit i buf id age)
  | .finish =>
    match s.scan with
    | none => none
    | some (i, buf) => if s.outputBuffers.length ≤ i then some (s.finish buf) else none
  | .clone id =>
    if 0 < s.held id then some { s with held := Function.update s.held id (s.held id + 1) }
    else none
  | .drop id =>
    if 0 < s.held id then some { s with held := Function.update s.held id (s.held id - 1) }
    else none
  | .purge =>
    match s.scan with
    | none => some { s with outputBuffers := [] }
    | some _ => none

def Step (s : ReBuffer) (l : Label) (t : ReBuffer) : Prop := s.next l = some t

/-! ## The invariant -/

/-- The loop is at `i`, and has selected `buf`, which nobody else holds; without one, the
buffers passed and those in use further on are no more than were in use before. -/
def Scanning (s : ReBuffer) (i : Nat) : Option Nat → Prop
  | some id => s.held id = 0 ∧ ∃ j < i, s.outputBuffers[j]? = some (id, 1)
  | none => i + s.inUse (s.outputBuffers.drop i) ≤ s.peak

structure Sound (s : ReBuffer) : Prop where
  nodup : (s.outputBuffers.map Prod.fst).Nodup
  old : ∀ b ∈ s.outputBuffers, b.1 < s.fresh
  heldOld : ∀ id, 0 < s.held id → id < s.fresh
  age : ∀ b ∈ s.outputBuffers, 0 < s.held b.1 → b.2 = 1
  bound : s.outputBuffers.length ≤ s.peak + 1
  scan : ∀ i buf, s.scan = some (i, buf) → i ≤ s.outputBuffers.length ∧ s.Scanning i buf

variable {s t : ReBuffer}

theorem sound_init : init.Sound := by
  refine ⟨List.nodup_nil, ?_, ?_, ?_, Nat.zero_le _, ?_⟩
  · intro b hb
    cases hb
  · intro id hid
    exact absurd hid (Nat.lt_irrefl 0)
  · intro b hb
    cases hb
  · intro i buf hscan
    cases hscan

/-- References come and go, but only of buffers that somebody holds. -/
theorem Sound.hold (h : s.Sound) {id n : Nat} (hid : 0 < s.held id) :
    Sound { s with held := Function.update s.held id n } := by
  have hheld : ∀ k, 0 < Function.update s.held id n k → 0 < s.held k := by
    intro k hk
    by_cases hkid : k = id
    · rw [hkid]
      exact hid
    · rwa [Function.update_of_ne hkid] at hk
  refine ⟨h.nodup, h.old, fun k hk => h.heldOld k (hheld k hk),
    fun b hb hk => h.age b hb (hheld b.1 hk), h.bound, ?_⟩
  intro i buf hscan
  obtain ⟨hle, hs⟩ := h.scan i buf hscan
  refine ⟨hle, ?_⟩
  cases buf with
  | some k =>
    obtain ⟨hzero, hj⟩ := hs
    refine ⟨?_, hj⟩
    by_contra hpos
    have := hheld k (Nat.pos_of_ne_zero hpos)
    omega
  | none =>
    refine Nat.le_trans (Nat.add_le_add_left ?_ i) hs
    refine List.countP_mono_left fun b _ hb => ?_
    simp only [decide_eq_true_eq] at hb ⊢
    exact hheld b.1 hb

/-- The ages of the pool change, at a buffer that nobody holds. -/
theorem Sound.setAge (h : s.Sound) {i id : Nat} {age : Int} (age' : Int)
    (hget : s.outputBuffers[i]? = some (id, age)) (hfree : s.held id = 0) :
    ((s.outputBuffers.set i (id, age')).map Prod.fst).Nodup ∧
      (∀ b ∈ s.outputBuffers.set i (id, age'), b.1 < s.fresh) ∧
      ∀ b ∈ s.outputBuffers.set i (id, age'), 0 < s.held b.1 → b.2 = 1 := by
  have hold := h.old (id, age) (List.mem_of_getElem? hget)
  have hmap : (s.outputBuffers.set i (id, age')).map Prod.fst = s.outputBuffers.map Prod.fst := by
    obtain ⟨hlt, hget'⟩ := List.getElem?_eq_some_iff.mp hget
    have hlt' : i < (s.outputBuffers.map Prod.fst).length := by rwa [List.length_map]
    have hid : id = (s.outputBuffers.map Prod.fst)[i] := by rw [List.getElem_map, hget']
    rw [List.map_set, hid, List.set_getElem_self]
  refine ⟨hmap ▸ h.nodup, ?_, ?_⟩
  · intro b hb
    rcases List.mem_or_eq_of_mem_set hb with hb | rfl
    · exact h.old b hb
    · exact hold
  · intro b hb hpos
    rcases List.mem_or_eq_of_mem_set hb with hb | rfl
    · exact h.age b hb hpos
    · simp only at hpos
      omega

theorem Sound.visit (h : s.Sound) {i id : Nat} {buf : Option Nat} {age : Int}
    (hscan : s.scan = some (i, buf)) (hget : s.outputBuffers[i]? = some (id, age)) :
    (s.visit i buf id age).Sound := by
  obtain ⟨hle, hs⟩ := h.scan i buf hscan
  obtain ⟨hlt, hget'⟩ := List.getElem?_eq_some_iff.mp hget
  unfold ReBuffer.visit
  split
  · next huse =>
    unfold useCount at huse
    have hfree : s.held id = 0 := by omega
    cases buf with
    | none =>
      obtain ⟨hnodup, hold, hage⟩ := h.setAge 1 hget hfree
      refine ⟨hnodup, hold, h.heldOld, hage, by rw [List.length_set]; exact h.bound, ?_⟩
      intro k buf hk
      cases hk
      refine ⟨by rw [List.length_set]; omega, hfree, i, Nat.lt_succ_self i, ?_⟩
      exact List.getElem?_set_self hlt
    | some chosen =>
      obtain ⟨hnodup, hold, hage⟩ := h.setAge (age - 1) hget hfree
      obtain ⟨hzero, j, hj, hchosen⟩ := hs
      refine ⟨hnodup, hold, h.heldOld, hage, by rw [List.length_set]; exact h.bound, ?_⟩
      intro k buf hk
      cases hk
      refine ⟨by rw [List.length_set]; omega, hzero, j, by omega, ?_⟩
      rw [List.getElem?_set_ne (by omega)]
      exact hchosen
  · next huse =>
    refine ⟨h.nodup, h.old, h.heldOld, h.age, h.bound, ?_⟩
    intro k buf' hk
    cases hk
    refine ⟨hlt, ?_⟩
    cases buf with
    | some chosen =>
      obtain ⟨hzero, j, hj, hchosen⟩ := hs
      exact ⟨hzero, j, by omega, hchosen⟩
    | none =>
      -- the buffer passed is in use
      have hused : 0 < s.held id := by
        simp only [useCount, reduceCtorEq, if_false] at huse
        omega
      have hcount : s.inUse (s.outputBuffers.drop i) =
          1 + s.inUse (s.outputBuffers.drop (i + 1)) := by
        rw [List.drop_eq_getElem_cons hlt, hget']
        simp [inUse, hused, Nat.add_comm]
      have hbefore : i + s.inUse (s.outputBuffers.drop i) ≤ s.peak := hs
      show i + 1 + s.inUse (s.outputBuffers.drop (i + 1)) ≤ s.peak
      omega

/-- What a `getBuffer` that selects `buf` hands out. -/
def result (s : ReBuffer) (buf : Option Nat) : Nat := buf.getD s.fresh

/-- **The end of `getBuffer`.** -/
theorem Sound.finish (h : s.Sound) {i : Nat} {buf : Option Nat} (hscan : s.scan = some (i, buf))
    (hend : s.outputBuffers.length ≤ i) :
    (s.finish buf).Sound ∧ s.held (s.result buf) = 0 ∧
      (s.finish buf).held = Function.update s.held (s.result buf) 1 ∧
      ∀ b ∈ s.outputBuffers, 0 < s.held b.1 → b ∈ (s.finish buf).outputBuffers := by
  obtain ⟨hle, hs⟩ := h.scan i buf hscan
  cases buf with
  | some id =>
    obtain ⟨hzero, j, hj, hchosen⟩ := hs
    have hmem : (id, 1) ∈ s.outputBuffers := List.mem_of_getElem? hchosen
    have honly : ∀ b ∈ s.outputBuffers, b.1 = id → b = (id, 1) := fun b hb heq =>
      List.inj_on_of_nodup_map h.nodup hb hmem heq
    -- the last buffer is given up only if nobody uses it
    have hkeep : ∃ gone, s.outputBuffers = (s.finish (some id)).outputBuffers ++ gone ∧
        ∀ b ∈ gone, s.held b.1 = 0 ∧ b ≠ (id, 1) := by
      simp only [ReBuffer.finish]
      split
      · exact ⟨[], by simp, by simp⟩
      · next last hlast =>
        split
        · next hold =>
          refine ⟨[last], (List.dropLast_append_getLast? last hlast).symm, ?_⟩
          intro b hb
          rw [List.mem_singleton.mp hb]
          have hthere := List.mem_of_getLast? hlast
          unfold REBUFFER_GC_LIMIT at hold
          refine ⟨?_, ?_⟩
          · by_contra hpos
            have := h.age last hthere (Nat.pos_of_ne_zero hpos)
            omega
          · rintro rfl
            simp only at hold
            omega
        · exact ⟨[], by simp, by simp⟩
    obtain ⟨gone, hsplit, hgone⟩ := hkeep
    have hsub : (s.finish (some id)).outputBuffers.Sublist s.outputBuffers := by
      rw [hsplit]
      exact List.sublist_append_left ..
    have hheld : (s.finish (some id)).held = Function.update s.held id 1 := by
      simp only [ReBuffer.finish, hzero]
    refine ⟨⟨h.nodup.sublist (hsub.map _), fun b hb => h.old b (hsub.subset hb), ?_, ?_, ?_, ?_⟩,
      hzero, hheld, ?_⟩
    · intro k hk
      rw [hheld] at hk
      by_cases hkid : k = id
      · rw [hkid]
        exact h.old (id, 1) hmem
      · rw [Function.update_of_ne hkid] at hk
        exact h.heldOld k hk
    · intro b hb hk
      rw [hheld] at hk
      by_cases hbid : b.1 = id
      · rw [honly b (hsub.subset hb) hbid]
      · rw [Function.update_of_ne hbid] at hk
        exact h.age b (hsub.subset hb) hk
    · exact Nat.le_trans hsub.length_le h.bound
    · intro k buf hk
      cases hk
    · intro b hb hused
      rw [hsplit] at hb
      rcases List.mem_append.mp hb with hb | hb
      · exact hb
      · have := (hgone b hb).1
        omega
  | none =>
    have hfresh : s.held s.fresh = 0 := by
      by_contra hpos
      have := h.heldOld s.fresh (Nat.pos_of_ne_zero hpos)
      omega
    have hheld : (s.finish none).held = Function.update s.held s.fresh 1 := by
      simp only [ReBuffer.finish, hfresh]
    have hpeak : s.outputBuffers.length ≤ s.peak := by
      have hbefore : i + s.inUse (s.outputBuffers.drop i) ≤ s.peak := hs
      omega
    refine ⟨⟨?_, ?_, ?_, ?_, ?_, ?_⟩, hfresh, hheld, ?_⟩
    · simp only [ReBuffer.finish, List.map_append, List.map_cons, List.map_nil]
      refine List.nodup_append'.mpr ⟨h.nodup, List.nodup_singleton _, ?_⟩
      intro k hk hk'
      obtain ⟨b, hb, rfl⟩ := List.mem_map.mp hk
      have hlt := h.old b hb
      have heq : b.1 = s.fresh := List.mem_singleton.mp hk'
      omega
    · intro b hb
      rcases List.mem_append.mp hb with hb | hb
      · exact Nat.lt_succ_of_lt (h.old b hb)
      · rw [List.mem_singleton.mp hb]
        exact Nat.lt_succ_self _
    · intro k hk
      rw [hheld] at hk
      by_cases hkid : k = s.fresh
      · rw [hkid]
        exact Nat.lt_succ_self _
      · rw [Function.update_of_ne hkid] at hk
        exact Nat.lt_succ_of_lt (h.heldOld k hk)
    · intro b hb hk
      rcases List.mem_append.mp hb with hb | hb
      · rw [hheld, Function.update_of_ne (Nat.ne_of_lt (h.old b hb))] at hk
        exact h.age b hb hk
      · rw [List.mem_singleton.mp hb]
    · simp only [ReBuffer.finish, List.length_append, List.length_singleton]
      omega
    · intro k buf hk
      cases hk
    · intro b hb _
      exact List.mem_append_left _ hb

theorem Sound.step (h : s.Sound) {l : Label} (hstep : Step s l t) : t.Sound := by
  cases l with
  | getBuffer =>
    simp only [Step, next] at hstep
    split at hstep <;> cases hstep
    refine ⟨h.nodup, h.old, h.heldOld, h.age, Nat.le_trans h.bound (by simp only; omega), ?_⟩
    intro i buf hscan
    cases hscan
    refine ⟨Nat.zero_le _, ?_⟩
    show 0 + s.inUse (s.outputBuffers.drop 0) ≤ max s.peak (s.inUse s.outputBuffers)
    rw [List.drop_zero]
    omega
  | visit =>
    simp only [Step, next] at hstep
    split at hstep <;> try split at hstep
    all_goals cases hstep
    next hscan _ _ _ hget => exact h.visit hscan hget
  | finish =>
    simp only [Step, next] at hstep
    split at hstep <;> try split at hstep
    all_goals cases hstep
    next hscan hend => exact (h.finish hscan hend).1
  | clone id =>
    simp only [Step, next] at hstep
    split at hstep <;> cases hstep
    next hid => exact h.hold hid
  | drop id =>
    simp only [Step, next] at hstep
    split at hstep <;> cases hstep
    next hid => exact h.hold hid
  | purge =>
    simp only [Step, next] at hstep
    split at hstep <;> cases hstep
    next hscan =>
      refine ⟨List.nodup_nil, fun b hb => (by cases hb), h.heldOld, fun b hb => (by cases hb),
        Nat.zero_le _, ?_⟩
      intro i buf hscan'
      rw [hscan] at hscan'
      cases hscan'

/-- **Handed out alone.**  However other threads copy and drop their references, at the
end of a `getBuffer` nobody holds the buffer that is handed out, every buffer of the
pool that is in use stays in the pool, and the pool has at most one buffer more than
were in use at the beginning of some `getBuffer`. -/
theorem getBuffer_alone {ls : List Label} (h : Run Step init ls s) (hstep : Step s .finish t) :
    ∃ id, s.held id = 0 ∧ t.held = Function.update s.held id 1 ∧
      (∀ b ∈ s.outputBuffers, 0 < s.held b.1 → b ∈ t.outputBuffers) ∧
      t.outputBuffers.length ≤ t.peak + 1 := by
  have hsound : s.Sound := h.invariant (I := Sound) (fun _ _ _ hi hs => hi.step hs) sound_init
  have hnext := (hsound.step hstep).bound
  simp only [Step, next] at hstep
  split at hstep <;> try split at hstep
  all_goals cases hstep
  next i buf hscan hend =>
    obtain ⟨-, hfree, hheld, hkept⟩ := hsound.finish hscan hend
    exact ⟨s.result buf, hfree, hheld, hkept, hnext⟩

/-- A buffer is handed out, dropped and handed out again. -/
theorem getBuffer_again :
    ∃ s t : ReBuffer, s.outputBuffers = [(0, 1)] ∧ Step s .finish t ∧
      ∃ id, s.held id = 0 ∧ t.held = Function.update s.held id 1 := by
  have hrun : ∃ s t, Run Step init [.getBuffer, .finish, .drop 0, .getBuffer, .visit] s ∧
      s.outputBuffers = [(0, 1)] ∧ Step s .finish t :=
    ⟨_, _, .cons rfl <| .cons rfl <| .cons rfl <| .cons rfl <| .single rfl, rfl, rfl⟩
  obtain ⟨s, t, hs, hpool, ht⟩ := hrun
  obtain ⟨id, hfree, hheld, -⟩ := getBuffer_alone hs ht
  exact ⟨s, t, hpool, ht, id, hfree, hheld⟩

end ReBuffer

end PiScan.Cubic

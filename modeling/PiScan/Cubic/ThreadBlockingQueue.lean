import PiScan.Lib.Monitor

/-!
# The blocking queue

`cubic/util/ThreadBlockingQueue.h`, the queue between the threads of the receiver,
as a monitor: its `SpinMutex` is the lock, and its two condition variables are the
conditions.  Any number of threads call it, step by step.

* `Buffer.Sound`: the queue is bounded, and what has left it and what it holds is
  what was pushed, in order;
* `never_both_blocked`: where no thread can go on by itself, the calls under way are
  all pushes at a full queue or all pops at an empty one.
-/

namespace PiScan.Cubic

open Monitors

namespace ThreadBlockingQueue

def MIN_ITEM_NB : Nat := 1

def NON_BLOCKING_TIMEOUT : Nat := 100

def BLOCKING_INFINITE_TIMEOUT : Nat := 0

/-- `m_queue` and `m_max_num_items`.  `pushed` and `taken` only record what was put
into the queue and what has left it, with whether a pop took it. -/
structure Buffer (α : Type) where
  m_queue : List α
  m_max_num_items : Nat
  pushed : List α
  taken : List (α × Bool)

/-- The calls; `read` stands for `size`, `empty` and `full`. -/
inductive Call (α : Type)
  | push (item : α) (timeout : Nat)
  | try_push (item : α)
  | pop (timeout : Nat)
  | try_pop
  | flush
  | set_max_num_items (max_num_items : Nat)
  | read

inductive Condition
  | m_cond_not_full
  | m_cond_not_empty
  deriving DecidableEq, Repr

variable {α τ : Type}

namespace Buffer

def new : Buffer α := ⟨[], MIN_ITEM_NB, [], []⟩

def full (q : Buffer α) : Bool := q.m_max_num_items ≤ q.m_queue.length

/-- The end of `push` and `try_push`. -/
def push_back (q : Buffer α) (item : α) : Buffer α :=
  if q.full then q else { q with m_queue := q.m_queue ++ [item], pushed := q.pushed ++ [item] }

/-- The end of `pop` and `try_pop`. -/
def pop_front (q : Buffer α) : Buffer α :=
  match q.m_queue with
  | [] => q
  | item :: rest => { q with m_queue := rest, taken := q.taken ++ [(item, true)] }

def clear (q : Buffer α) : Buffer α :=
  { q with m_queue := [], taken := q.taken ++ q.m_queue.map fun item => (item, false) }

/-- The maximum is only raised. -/
def set_max_num_items (q : Buffer α) (max_num_items : Nat) : Buffer α :=
  if q.m_max_num_items < max_num_items then { q with m_max_num_items := max_num_items } else q

/-- The items that calls of `pop` and `try_pop` returned, in their order. -/
def popped (q : Buffer α) : List α := (q.taken.filter (·.2)).map (·.1)

end Buffer

/-- How a call waits: a timeout up to `NON_BLOCKING_TIMEOUT` makes it a `try_` call. -/
def patience (condition : Condition) (timeout : Nat) : Option (Condition × Bool) :=
  if timeout = BLOCKING_INFINITE_TIMEOUT then some (condition, false)
  else if timeout ≤ NON_BLOCKING_TIMEOUT then none
  else some (condition, true)

/-- The queue as a monitor. -/
def monitor (α : Type) : Monitor (Buffer α) (Call α) Condition where
  waits
    | .push _ timeout => patience .m_cond_not_full timeout
    | .pop timeout => patience .m_cond_not_empty timeout
    | _ => none
  holds
    | .m_cond_not_full, q => !q.full
    | .m_cond_not_empty, q => !q.m_queue.isEmpty
  body
    | .push item _, q | .try_push item, q => q.push_back item
    | .pop _, q | .try_pop, q => q.pop_front
    | .flush, q => q.clear
    | .set_max_num_items n, q => q.set_max_num_items n
    | .read, q => q
  notifies
    | .push _ _, q, c | .try_push _, q, c => !q.full && c == .m_cond_not_empty
    | .pop _, q, c | .try_pop, q, c => !q.m_queue.isEmpty && c == .m_cond_not_full
    | .flush, _, c => c == .m_cond_not_full
    | .set_max_num_items n, q, c => q.m_max_num_items < n && c == .m_cond_not_full
    | .read, _, _ => false

/-! ## Every change is notified -/

theorem full_push_back {q : Buffer α} {item : α} (h : q.full = true) :
    (q.push_back item).full = true := by
  rw [Buffer.push_back, if_pos h, h]

theorem signals_push {q : Buffer α} {item : α} {c : Condition}
    (hafter : (monitor α).holds c (q.push_back item) = true)
    (hbefore : (monitor α).holds c q = false) : (!q.full && c == .m_cond_not_empty) = true := by
  cases c with
  | m_cond_not_full =>
    have hfull : q.full = true := by simpa [monitor] using hbefore
    simp [monitor, full_push_back hfull] at hafter
  | m_cond_not_empty =>
    have hempty : q.m_queue = [] := by simpa [monitor] using hbefore
    by_contra hnot
    have hfull : q.full = true := by simpa using hnot
    rw [Buffer.push_back, if_pos hfull] at hafter
    simp [monitor, hempty] at hafter

theorem signals_pop {q : Buffer α} {c : Condition}
    (hafter : (monitor α).holds c q.pop_front = true)
    (hbefore : (monitor α).holds c q = false) :
    (!q.m_queue.isEmpty && c == .m_cond_not_full) = true := by
  unfold Buffer.pop_front at hafter
  split at hafter
  · rw [hbefore] at hafter
    cases hafter
  · next item rest hq =>
    cases c with
    | m_cond_not_full => simp [hq]
    | m_cond_not_empty => simp [monitor, hq] at hbefore

theorem signals_set_max_num_items {q : Buffer α} {n : Nat} {c : Condition}
    (hafter : (monitor α).holds c (q.set_max_num_items n) = true)
    (hbefore : (monitor α).holds c q = false) :
    (decide (q.m_max_num_items < n) && c == .m_cond_not_full) = true := by
  unfold Buffer.set_max_num_items at hafter
  split at hafter
  · next hlt =>
    cases c with
    | m_cond_not_full => simp [hlt]
    | m_cond_not_empty =>
      simp only [monitor] at hafter hbefore
      rw [hbefore] at hafter
      cases hafter
  · rw [hbefore] at hafter
    cases hafter

theorem signals : (monitor α).Signals := by
  intro o c q hafter hbefore
  cases o with
  | push item timeout => exact signals_push hafter hbefore
  | try_push item => exact signals_push hafter hbefore
  | pop timeout => exact signals_pop hafter hbefore
  | try_pop => exact signals_pop hafter hbefore
  | flush =>
    cases c with
    | m_cond_not_full => rfl
    | m_cond_not_empty => simp [monitor, Buffer.clear] at hafter
  | set_max_num_items n => exact signals_set_max_num_items hafter hbefore
  | read =>
    simp only [monitor] at hafter hbefore
    rw [hbefore] at hafter
    cases hafter

/-! ## What the queue holds -/

/-- The queue has room for an item and never holds more than its maximum; what has
left it, followed by what it holds, is what was pushed. -/
structure Buffer.Sound (q : Buffer α) : Prop where
  room : 1 ≤ q.m_max_num_items
  bounded : q.m_queue.length ≤ q.m_max_num_items
  ordered : q.taken.map (·.1) ++ q.m_queue = q.pushed

theorem Buffer.sound_new : (Buffer.new : Buffer α).Sound := ⟨Nat.le_refl _, Nat.zero_le _, rfl⟩

namespace Buffer.Sound

variable {q : Buffer α}

theorem push_back (h : q.Sound) (item : α) : (q.push_back item).Sound := by
  unfold Buffer.push_back
  split
  · exact h
  · next hfull =>
    have hlt : q.m_queue.length < q.m_max_num_items := by simpa [Buffer.full] using hfull
    refine ⟨h.room, ?_, ?_⟩
    · show (q.m_queue ++ [item]).length ≤ q.m_max_num_items
      rw [List.length_append, List.length_singleton]
      omega
    · rw [← List.append_assoc, h.ordered]

theorem pop_front (h : q.Sound) : q.pop_front.Sound := by
  unfold Buffer.pop_front
  split
  · exact h
  · next item rest hq =>
    have hbounded := h.bounded
    have hordered := h.ordered
    rw [hq] at hbounded hordered
    refine ⟨h.room, ?_, ?_⟩
    · rw [List.length_cons] at hbounded
      show rest.length ≤ q.m_max_num_items
      omega
    · simpa using hordered

theorem clear (h : q.Sound) : q.clear.Sound := by
  refine ⟨h.room, Nat.zero_le _, ?_⟩
  have hordered := h.ordered
  simpa [Buffer.clear, Function.comp_def] using hordered

theorem set_max_num_items (h : q.Sound) (n : Nat) : (q.set_max_num_items n).Sound := by
  have hroom := h.room
  have hbounded := h.bounded
  unfold Buffer.set_max_num_items
  split
  · next hlt => exact ⟨by show 1 ≤ n; omega, by show q.m_queue.length ≤ n; omega, h.ordered⟩
  · exact h

theorem body (h : q.Sound) (o : Call α) : ((monitor α).body o q).Sound := by
  cases o with
  | push item timeout => exact h.push_back item
  | try_push item => exact h.push_back item
  | pop timeout => exact h.pop_front
  | try_pop => exact h.pop_front
  | flush => exact h.clear
  | set_max_num_items n => exact h.set_max_num_items n
  | read => exact h

/-- The items that pops returned were pushed, in that order and each once. -/
theorem popped_sublist (h : q.Sound) : q.popped.Sublist q.pushed := by
  rw [← h.ordered]
  exact (List.filter_sublist.map _).trans (List.sublist_append_left _ _)

end Buffer.Sound

/-! ## Blocked calls -/

variable [DecidableEq τ]

/-- The queue of a reachable state of the threads `τ`. -/
abbrev Reachable (s : State τ (Buffer α) (Call α) Condition) : Prop :=
  (monitor α).Reachable .new s

/-- A call that waits is a push that waits for room, or a pop that waits for an item. -/
theorem waits_eq_some {o : Call α} {c : Condition} {timed : Bool}
    (h : (monitor α).waits o = some (c, timed)) :
    (∃ item timeout, o = .push item timeout ∧ c = .m_cond_not_full) ∨
      (∃ timeout, o = .pop timeout ∧ c = .m_cond_not_empty) := by
  have hpatience : ∀ {d : Condition} {timeout : Nat}, patience d timeout = some (c, timed) → c = d := by
    intro d timeout hd
    unfold patience at hd
    split at hd
    · cases hd
      rfl
    · split at hd
      · cases hd
      · cases hd
        rfl
  cases o with
  | push item timeout => exact .inl ⟨item, timeout, rfl, hpatience h⟩
  | pop timeout => exact .inr ⟨timeout, rfl, hpatience h⟩
  | _ => cases h

/-- The call under way of a thread, if any, is a push waiting at a full queue. -/
def PushBlocked (s : State τ (Buffer α) (Call α) Condition) (t : τ) : Prop :=
  s.status t = .idle ∨
    ((∃ item timeout, s.status t = .waiting (.push item timeout)) ∧ s.data.full = true)

/-- The call under way of a thread, if any, is a pop waiting at an empty queue. -/
def PopBlocked (s : State τ (Buffer α) (Call α) Condition) (t : τ) : Prop :=
  s.status t = .idle ∨ ((∃ timeout, s.status t = .waiting (.pop timeout)) ∧ s.data.m_queue = [])

theorem blocked_of_stuck {s : State τ (Buffer α) (Call α) Condition} (h : Reachable s)
    (hstuck : (monitor α).Stuck s) (t : τ) : PushBlocked s t ∨ PopBlocked s t := by
  obtain hidle | ⟨o, c, timed, hwaiting, hwaits, hholds⟩ := h.stuck signals hstuck t
  · exact .inl (.inl hidle)
  · obtain ⟨item, timeout, rfl, rfl⟩ | ⟨timeout, rfl, rfl⟩ := waits_eq_some hwaits
    · exact .inl (.inr ⟨⟨item, timeout, hwaiting⟩, by simpa [monitor] using hholds⟩)
    · exact .inr (.inr ⟨⟨timeout, hwaiting⟩, by simpa [monitor] using hholds⟩)

/-- **A queue without lost wake-ups.**  The queue of a reachable state is sound, and
where no thread can go on by itself, all calls under way are pushes at a full queue,
or all are pops at an empty one. -/
theorem never_both_blocked {s : State τ (Buffer α) (Call α) Condition} (h : Reachable s) :
    s.data.Sound ∧ s.data.popped.Sublist s.data.pushed ∧
      ((monitor α).Stuck s → (∀ t, PushBlocked s t) ∨ (∀ t, PopBlocked s t)) := by
  have hsound : s.data.Sound := h.data (fun o q hq => hq.body o) Buffer.sound_new
  refine ⟨hsound, hsound.popped_sublist, fun hstuck => ?_⟩
  by_cases hempty : s.data.m_queue = []
  · -- an empty queue has room, so nobody waits for it
    right
    intro t
    rcases blocked_of_stuck h hstuck t with (hidle | ⟨-, hfull⟩) | hpop
    · exact .inl hidle
    · have hroom := hsound.room
      simp only [Buffer.full, hempty, List.length_nil, decide_eq_true_eq] at hfull
      omega
    · exact hpop
  · left
    intro t
    rcases blocked_of_stuck h hstuck t with hpush | hidle | ⟨-, hnone⟩
    · exact hpush
    · exact .inl hidle
    · exact absurd hnone hempty

/-- A thread fills a queue of one item and waits to push a second one. -/
theorem push_blocked_at_one :
    ∃ s : State Bool (Buffer Nat) (Call Nat) Condition, Reachable s ∧
      s.status false = .waiting (.push 2 BLOCKING_INFINITE_TIMEOUT) ∧ s.data.Sound ∧
      ((∀ t, PushBlocked s t) ∨ (∀ t, PopBlocked s t)) := by
  have hrun : ∃ s : State Bool (Buffer Nat) (Call Nat) Condition, Reachable s ∧
      s.status false = .waiting (.push 2 BLOCKING_INFINITE_TIMEOUT) ∧ s.status true = .idle :=
    ⟨_, ⟨[.call false (.push 1 BLOCKING_INFINITE_TIMEOUT), .run false, .run false, .run false,
      .run false, .call false (.push 2 BLOCKING_INFINITE_TIMEOUT), .run false, .run false],
      .cons rfl <| .cons rfl <| .cons rfl <| .cons rfl <| .cons rfl <| .cons rfl <| .cons rfl <|
        .single rfl⟩, rfl, rfl⟩
  obtain ⟨s, hs, hfalse, htrue⟩ := hrun
  refine ⟨s, hs, hfalse, (never_both_blocked hs).1, (never_both_blocked hs).2.2 ?_⟩
  intro t
  cases t with
  | false =>
    unfold Monitor.run
    rw [hfalse]
  | true =>
    unfold Monitor.run
    rw [htrue]

end ThreadBlockingQueue

end PiScan.Cubic

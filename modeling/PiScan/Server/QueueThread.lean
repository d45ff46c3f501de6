import PiScan.Server.Connections

/-!
# The server queue thread

`_queueThreadFunc` of `ServerManager.cpp` and its producers `giveMessage`,
`requestConnection`, `allowConnections` and `stop`, step by step.  A producer
whose `try_lock` fails gives up; the queue thread resets `_msgAvailable` after each
item it handles; `allowConnections` tells nobody.

* `Covered`: somebody will still make the queue thread look;
* `Awake`: what is in a queue is covered, and so is a stop;
* `no_lost_wakeup`: a blocked queue thread has left nothing behind, in every run
  in which no producer gives up, and no reset and no permission comes, at a moment
  where nobody covers what is in the queues.
-/

namespace PiScan.Server

open Runs

/-- A message in `_queue`: `ServerMessage::STOP`, or one that only updates clients. -/
inductive QueuedMessage
  | STOP
  | update
  deriving DecidableEq, Repr

/-- The calls of a producer. -/
inductive Call
  | giveMessage (message : QueuedMessage)
  | requestConnection (client : Client)
  | allowConnections
  | stop
  deriving DecidableEq, Repr

/-- What a call does next: `write` is its enqueue or its write to
`_allowConnections`, `clearRun` the second write of `stop`. -/
inductive Stage
  | write
  | clearRun
  | tryLock
  | setAvailable
  | unlock
  | notify
  deriving DecidableEq, Repr

/-- What the queue thread does next: the test of the outer loop, the lock, the
test of the condition with the lock held, the two inner loops, the unlock. -/
inductive QueuePoint
  | testRun
  | lock
  | wait
  | blocked
  | woken
  | drainQueue
  | clearQueue
  | drainConnections
  | dequeueConnection
  | clearConnections
  | unlock
  | exited
  deriving DecidableEq, Repr

namespace QueuePoint

/-- The thread holds `_msgMutex`. -/
def holds : QueuePoint → Bool
  | wait | drainQueue | clearQueue | drainConnections | dequeueConnection | clearConnections
  | unlock => true
  | _ => false

/-- The thread looks at `_queue` before it can block. -/
def looksAtQueue : QueuePoint → Bool
  | drainQueue | clearQueue => true
  | _ => false

/-- The thread looks at `_connectionQueue` before it can block. -/
def looksAtConnections : QueuePoint → Bool
  | drainQueue | clearQueue | drainConnections | dequeueConnection | clearConnections => true
  | _ => false

/-- The thread looks at `_run` before it can block. -/
def looksAtRun : QueuePoint → Bool
  | lock | wait | blocked | woken => false
  | _ => true

end QueuePoint

inductive Mutex
  | free
  | queueThread
  | producer (p : Nat)
  deriving DecidableEq, Repr

/-- The members of `ServerManager` that the threads share, the point of the queue
thread, and the call of every producer; `stopCalled` only records a call of `stop`. -/
structure QueueState where
  queue : List QueuedMessage
  connectionQueue : List Client
  allowConnections : Bool
  run : Bool
  msgAvailable : Bool
  mutex : Mutex
  queueThread : QueuePoint
  producers : Nat → Option (Call × Stage)
  stopCalled : Bool

inductive QueueLabel
  | call (p : Nat) (c : Call)
  | producer (p : Nat)
  | queueThread
  | spuriousWakeup
  deriving DecidableEq, Repr

namespace QueueState

/-- After `ServerManager::start`. -/
def start : QueueState where
  queue := []
  connectionQueue := []
  allowConnections := false
  run := true
  msgAvailable := false
  mutex := .free
  queueThread := .testRun
  producers _ := none
  stopCalled := false

def atStage (s : QueueState) (p : Nat) (c : Call) (stage : Stage) : QueueState :=
  { s with producers := Function.update s.producers p (some (c, stage)) }

def leave (s : QueueState) (p : Nat) : QueueState :=
  { s with producers := Function.update s.producers p none }

/-- A wakeup of a thread that waits on `_cv`. -/
def wake (s : QueueState) : QueueState :=
  { s with queueThread := if s.queueThread = .blocked then .woken else s.queueThread }

/-- The first write of a call. -/
def write (s : QueueState) (p : Nat) : Call → QueueState
  | .giveMessage message =>
    { s with queue := s.queue ++ [message] }.atStage p (.giveMessage message) .tryLock
  | .requestConnection client =>
    { s with connectionQueue := s.connectionQueue ++ [client] }.atStage p
      (.requestConnection client) .tryLock
  | .allowConnections => { s with allowConnections := true }.leave p
  | .stop => { s with allowConnections := false }.atStage p .stop .clearRun

/-- `try_lock`; only `requestConnection` notifies when it fails. -/
def tryLock (s : QueueState) (p : Nat) (c : Call) : QueueState :=
  if s.mutex = .free then { s with mutex := .producer p }.atStage p c .setAvailable
  else
    match c with
    | .requestConnection _ => s.atStage p c .notify
    | _ => s.leave p

def producerStep (s : QueueState) (p : Nat) : Option QueueState :=
  match s.producers p with
  | none => none
  | some (c, .write) => some (s.write p c)
  | some (.stop, .clearRun) => some ({ s with run := false }.atStage p .stop .tryLock)
  | some (_, .clearRun) => none
  | some (c, .tryLock) => some (s.tryLock p c)
  | some (c, .setAvailable) => some ({ s with msgAvailable := true }.atStage p c .unlock)
  | some (c, .unlock) => some ({ s with mutex := .free }.atStage p c .notify)
  | some (_, .notify) => some (s.wake.leave p)

/-- `_handleMessage`, as far as the threads share what it writes. -/
def handleMessage (s : QueueState) : QueuedMessage → QueueState
  | .STOP => { s with allowConnections := false, run := false }
  | .update => s

/-- `_queueThreadFunc`. -/
def queueStep (s : QueueState) : Option QueueState :=
  match s.queueThread with
  | .testRun => some { s with queueThread := if s.run then .lock else .exited }
  | .lock | .woken =>
    if s.mutex = .free then some { s with mutex := .queueThread, queueThread := .wait } else none
  | .wait =>
    if s.msgAvailable then some { s with queueThread := .drainQueue }
    else some { s with mutex := .free, queueThread := .blocked }
  | .blocked => none
  | .drainQueue =>
    match s.queue with
    | [] => some { s with queueThread := .drainConnections }
    | message :: rest =>
      some ({ s with queue := rest, queueThread := .clearQueue }.handleMessage message)
  | .clearQueue => some { s with msgAvailable := false, queueThread := .drainQueue }
  | .drainConnections =>
    some { s with queueThread := if s.allowConnections then .dequeueConnection else .unlock }
  | .dequeueConnection =>
    match s.connectionQueue with
    | [] => some { s with queueThread := .unlock }
    | _ :: rest => some { s with connectionQueue := rest, queueThread := .clearConnections }
  | .clearConnections => some { s with msgAvailable := false, queueThread := .drainConnections }
  | .unlock => some { s with mutex := .free, queueThread := .testRun }
  | .exited => none

def call (s : QueueState) (p : Nat) (c : Call) : Option QueueState :=
  if s.producers p = none then
    some ({ s with stopCalled := s.stopCalled || c == Call.stop }.atStage p c .write)
  else none

def next (s : QueueState) : QueueLabel → Option QueueState
  | .call p c => s.call p c
  | .producer p => s.producerStep p
  | .queueThread => s.queueStep
  | .spuriousWakeup => some s.wake

def Step (s : QueueState) (l : QueueLabel) (t : QueueState) : Prop := s.next l = some t

/-- When the queue thread is blocked, `_msgAvailable` is false and no call is under
way, the queues are empty (that of the connections if they are allowed), and
`stop` was not called. -/
def Settled (s : QueueState) : Prop :=
  s.queueThread = .blocked → s.msgAvailable = false → (∀ p, s.producers p = none) →
    s.queue = [] ∧ (s.allowConnections = true → s.connectionQueue = []) ∧ s.stopCalled = false

/-! ## Who will make the queue thread look -/

/-- `_msgAvailable` is set, or a producer with the lock sets it next, or a call of
the kind is still to try the lock, or the queue thread looks before it can block. -/
def Covered (pending : Call → Bool) (looks : QueuePoint → Bool) (s : QueueState) : Prop :=
  s.msgAvailable = true ∨ (∃ p c, s.producers p = some (c, .setAvailable)) ∨
    (∃ p c, pending c = true ∧ s.producers p = some (c, .tryLock)) ∨
    looks s.queueThread = true

/-- Something in `_queue` is covered. -/
def QueueCovered (s : QueueState) : Prop :=
  s.run = true → s.queue ≠ [] → Covered (· matches .giveMessage _) QueuePoint.looksAtQueue s

/-- A connection that may be added is covered. -/
def ConnectionsCovered (s : QueueState) : Prop :=
  s.run = true → s.allowConnections = true → s.connectionQueue ≠ [] →
    Covered (· matches .requestConnection _) QueuePoint.looksAtConnections s

/-- A stop is covered. -/
def StopCovered (s : QueueState) : Prop :=
  s.run = false → Covered (· matches .stop) QueuePoint.looksAtRun s

/-- A call whose `try_lock` fails against the queue thread leaves what it is about
covered by others. -/
def GivesUp (s : QueueState) (p : Nat) : Call → Prop
  | .giveMessage _ => QueueCovered (s.leave p)
  | .requestConnection _ => ConnectionsCovered (s.leave p)
  | .allowConnections => True
  | .stop => StopCovered (s.leave p)

/-- The condition on a step: a producer that gives up, the permission of
connections, and the reset after an added connection leave nothing uncovered. -/
def Looked (s : QueueState) : QueueLabel → Prop
  | .call _ _ => True
  | .spuriousWakeup => True
  | .producer p =>
    (∀ c, s.producers p = some (c, .tryLock) → s.mutex = .queueThread → GivesUp s p c) ∧
      (s.producers p = some (.allowConnections, .write) →
        ConnectionsCovered { s with allowConnections := true })
  | .queueThread =>
    s.queueThread = .clearConnections → QueueCovered { s with msgAvailable := false }

/-! ## The lock -/

/-- A producer has the lock between its `try_lock` and its unlock. -/
def hasLock : Option (Call × Stage) → Bool
  | some (_, .setAvailable) | some (_, .unlock) => true
  | _ => false

/-- The owner of the lock is where its code holds it, and a producer that is to
release it has set the flag. -/
structure Locked (s : QueueState) : Prop where
  queueThread : s.mutex = .queueThread ↔ s.queueThread.holds = true
  producer : ∀ p, s.mutex = .producer p ↔ hasLock (s.producers p) = true
  available : ∀ p c, s.producers p = some (c, .unlock) → s.msgAvailable = true

variable {s t : QueueState} {p : Nat} {v : Option (Call × Stage)}

/-- A wakeup does not change who holds the lock, nor where the queue thread looks. -/
theorem wake_point {looks : QueuePoint → Bool} (hlooks : looks .woken = looks .blocked)
    (s : QueueState) : looks s.wake.queueThread = looks s.queueThread := by
  by_cases hblocked : s.queueThread = .blocked
  · simp [wake, hblocked, hlooks]
  · simp [wake, hblocked]

theorem locked_start : Locked start := by
  constructor <;> simp [start, QueuePoint.holds, hasLock]

/-- A step of a producer that neither takes nor releases the lock. -/
theorem Locked.keep (h : Locked s) (hproducers : t.producers = Function.update s.producers p v)
    (hmutex : t.mutex = s.mutex) (hpoint : t.queueThread.holds = s.queueThread.holds)
    (havailable : s.msgAvailable = true → t.msgAvailable = true)
    (hlock : hasLock v = hasLock (s.producers p))
    (hunlock : ∀ c, v = some (c, .unlock) → t.msgAvailable = true) : Locked t where
  queueThread := by rw [hmutex, hpoint, h.queueThread]
  producer q := by
    rw [hmutex, h.producer, hproducers]
    by_cases hq : q = p
    · rw [hq, Function.update_self, hlock]
    · rw [Function.update_of_ne hq]
  available q c hc := by
    rw [hproducers] at hc
    by_cases hq : q = p
    · rw [hq, Function.update_self] at hc
      exact hunlock c hc
    · rw [Function.update_of_ne hq] at hc
      exact havailable (h.available q c hc)

/-- A producer takes the free lock. -/
theorem Locked.acquire (h : Locked s) (hfree : s.mutex = .free) (c : Call) :
    Locked ({ s with mutex := .producer p }.atStage p c .setAvailable) where
  queueThread := by
    have hpoint : s.queueThread.holds ≠ true := by
      rw [ne_eq, ← h.queueThread, hfree]
      simp
    simp [atStage, hpoint]
  producer q := by
    by_cases hq : q = p
    · simp [atStage, hq, hasLock]
    · have hother := h.producer q
      rw [hfree] at hother
      simp only [reduceCtorEq, false_iff] at hother
      simp [atStage, Function.update_of_ne hq, hother, Ne.symm hq]
  available q d hd := by
    by_cases hq : q = p
    · simp [atStage, hq] at hd
    · exact h.available q d (by simpa [atStage, Function.update_of_ne hq] using hd)

/-- A producer releases the lock. -/
theorem Locked.release (h : Locked s) {c : Call} (hp : s.producers p = some (c, .unlock)) :
    Locked ({ s with mutex := .free }.atStage p c .notify) := by
  have hmutex : s.mutex = .producer p := (h.producer p).mpr (by rw [hp]; rfl)
  constructor
  · have hpoint : s.queueThread.holds ≠ true := by
      rw [ne_eq, ← h.queueThread, hmutex]
      simp
    simp [atStage, hpoint]
  · intro q
    by_cases hq : q = p
    · simp [atStage, hq, hasLock]
    · have hother := h.producer q
      rw [hmutex] at hother
      simp only [Mutex.producer.injEq, Ne.symm hq, false_iff] at hother
      simp [atStage, Function.update_of_ne hq, hother]
  · intro q d hd
    by_cases hq : q = p
    · simp [atStage, hq] at hd
    · exact h.available q d (by simpa [atStage, Function.update_of_ne hq] using hd)

theorem Locked.producerStep (h : Locked s) (hstep : s.producerStep p = some t) : Locked t := by
  unfold QueueState.producerStep at hstep
  split at hstep
  · cases hstep
  · next c hp =>
    cases hstep
    cases c with
    | giveMessage message => exact h.keep rfl rfl rfl id (by rw [hp]; rfl) (by simp)
    | requestConnection client => exact h.keep rfl rfl rfl id (by rw [hp]; rfl) (by simp)
    | allowConnections => exact h.keep rfl rfl rfl id (by rw [hp]; rfl) (by simp)
    | stop => exact h.keep rfl rfl rfl id (by rw [hp]; rfl) (by simp)
  · next hp =>
    cases hstep
    exact h.keep rfl rfl rfl id (by rw [hp]; rfl) (by simp)
  · cases hstep
  · next c hp =>
    cases hstep
    unfold QueueState.tryLock
    split
    · next hfree => exact h.acquire hfree c
    · split
      · exact h.keep rfl rfl rfl id (by rw [hp]; rfl) (by simp)
      · exact h.keep rfl rfl rfl id (by rw [hp]; rfl) (by simp)
  · next c hp =>
    cases hstep
    exact h.keep rfl rfl rfl (fun _ => rfl) (by rw [hp]; rfl) (fun _ _ => rfl)
  · next c hp =>
    cases hstep
    exact h.release hp
  · next c hp =>
    cases hstep
    exact h.keep rfl rfl (wake_point rfl s) id (by rw [hp]; rfl) (by simp)

/-- While the queue thread holds the lock, no producer is about to release it. -/
theorem Locked.no_unlock (h : Locked s) (hpoint : s.queueThread.holds = true) (p : Nat) (c : Call) :
    s.producers p ≠ some (c, .unlock) := by
  intro hp
  have hmutex := (h.producer p).mpr (by rw [hp]; rfl)
  rw [h.queueThread.mpr hpoint] at hmutex
  cases hmutex

/-- A step of the queue thread that neither takes nor releases the lock. -/
theorem Locked.keepQueue (h : Locked s) (hproducers : t.producers = s.producers)
    (hmutex : t.mutex = s.mutex) (hpoint : t.queueThread.holds = s.queueThread.holds)
    (havailable : s.msgAvailable = t.msgAvailable ∨ s.queueThread.holds = true) : Locked t where
  queueThread := by rw [hmutex, hpoint, h.queueThread]
  producer q := by rw [hmutex, hproducers, h.producer]
  available q c hc := by
    rw [hproducers] at hc
    rcases havailable with hsame | hholds
    · rw [← hsame]
      exact h.available q c hc
    · exact absurd hc (h.no_unlock hholds q c)

/-- The queue thread takes the free lock. -/
theorem Locked.acquireQueue (h : Locked s) (hfree : s.mutex = .free) :
    Locked { s with mutex := .queueThread, queueThread := .wait } where
  queueThread := by simp [QueuePoint.holds]
  producer q := by
    have hother := h.producer q
    rw [hfree] at hother
    simpa using hother
  available := h.available

/-- The queue thread releases the lock. -/
theorem Locked.releaseQueue (h : Locked s) (hholds : s.queueThread.holds = true) {point : QueuePoint}
    (hpoint : point.holds = false) : Locked { s with mutex := .free, queueThread := point } where
  queueThread := by simp [hpoint]
  producer q := by
    have hother := h.producer q
    rw [h.queueThread.mpr hholds] at hother
    simpa using hother
  available := h.available

theorem Locked.queueStep (h : Locked s) (hstep : s.queueStep = some t) : Locked t := by
  unfold QueueState.queueStep at hstep
  split at hstep
  · next hpoint =>
    cases hstep
    exact h.keepQueue rfl rfl (by rw [hpoint]; cases s.run <;> rfl) (.inl rfl)
  · next hpoint =>
    split at hstep
    · next hfree =>
      cases hstep
      exact h.acquireQueue hfree
    · cases hstep
  · next hpoint =>
    split at hstep
    · next hfree =>
      cases hstep
      exact h.acquireQueue hfree
    · cases hstep
  · next hpoint =>
    split at hstep
    · cases hstep
      exact h.keepQueue rfl rfl (by rw [hpoint]; rfl) (.inl rfl)
    · cases hstep
      exact h.releaseQueue (by rw [hpoint]; rfl) rfl
  · cases hstep
  · next hpoint =>
    split at hstep
    · cases hstep
      exact h.keepQueue rfl rfl (by rw [hpoint]; rfl) (.inl rfl)
    · next message rest _ =>
      cases hstep
      cases message <;> exact h.keepQueue rfl rfl (by rw [hpoint]; rfl) (.inl rfl)
  · next hpoint =>
    cases hstep
    exact h.keepQueue rfl rfl (by rw [hpoint]; rfl) (.inr (by rw [hpoint]; rfl))
  · next hpoint =>
    cases hstep
    exact h.keepQueue rfl rfl (by rw [hpoint]; cases s.allowConnections <;> rfl) (.inl rfl)
  · next hpoint =>
    split at hstep
    · cases hstep
      exact h.keepQueue rfl rfl (by rw [hpoint]; rfl) (.inl rfl)
    · cases hstep
      exact h.keepQueue rfl rfl (by rw [hpoint]; rfl) (.inl rfl)
  · next hpoint =>
    cases hstep
    exact h.keepQueue rfl rfl (by rw [hpoint]; rfl) (.inr (by rw [hpoint]; rfl))
  · next hpoint =>
    cases hstep
    exact h.releaseQueue (by rw [hpoint]; rfl) rfl
  · cases hstep

/-! ## What the steps do to the queues -/

/-- The queues, the permission and `_run` are the same. -/
structure SameQueues (s t : QueueState) : Prop where
  queue : t.queue = s.queue
  connectionQueue : t.connectionQueue = s.connectionQueue
  run : t.run = s.run
  allowConnections : t.allowConnections = s.allowConnections

/-- After the writes of its call, a producer only handles the lock. -/
theorem producerStep_cases (hstep : s.producerStep p = some t) :
    (∃ c, s.producers p = some (c, .write) ∧ t = s.write p c) ∨
      t = { s with run := false }.atStage p .stop .tryLock ∨ SameQueues s t := by
  unfold QueueState.producerStep at hstep
  split at hstep <;> cases hstep
  · next c hp => exact .inl ⟨c, hp, rfl⟩
  · exact .inr (.inl rfl)
  · unfold QueueState.tryLock
    right
    right
    split
    · exact ⟨rfl, rfl, rfl, rfl⟩
    · split
      · exact ⟨rfl, rfl, rfl, rfl⟩
      · exact ⟨rfl, rfl, rfl, rfl⟩
  · exact .inr (.inr ⟨rfl, rfl, rfl, rfl⟩)
  · exact .inr (.inr ⟨rfl, rfl, rfl, rfl⟩)
  · exact .inr (.inr ⟨rfl, rfl, rfl, rfl⟩)

theorem producerStep_queue (hstep : s.producerStep p = some t) :
    t.queue = s.queue ∨ ∃ message, t.producers p = some (.giveMessage message, .tryLock) := by
  obtain ⟨c, -, rfl⟩ | rfl | hsame := producerStep_cases hstep
  · cases c with
    | giveMessage message => exact .inr ⟨message, by simp [QueueState.write, atStage]⟩
    | requestConnection client => exact .inl rfl
    | allowConnections => exact .inl rfl
    | stop => exact .inl rfl
  · exact .inl rfl
  · exact .inl hsame.queue

theorem producerStep_run (hstep : s.producerStep p = some t) :
    t.run = s.run ∨ t.run = false ∧ t.producers p = some (.stop, .tryLock) := by
  obtain ⟨c, -, rfl⟩ | rfl | hsame := producerStep_cases hstep
  · left
    cases c <;> rfl
  · exact .inr ⟨rfl, by simp [atStage]⟩
  · exact .inl hsame.run

theorem producerStep_wasRunning (hstep : s.producerStep p = some t) (hrun : t.run = true) :
    s.run = true := by
  rcases producerStep_run hstep with hr | ⟨hr, -⟩
  · rw [← hr, hrun]
  · rw [hr] at hrun
    cases hrun

/-- Beside the permission, no step makes a connection wait that did not wait
before, but that of a request which is still to try the lock. -/
theorem producerStep_connections (hstep : s.producerStep p = some t) :
    (t.connectionQueue = s.connectionQueue ∧ (t.allowConnections = true → s.allowConnections = true)) ∨
      (∃ client, t.producers p = some (.requestConnection client, .tryLock)) ∨
      (s.producers p = some (.allowConnections, .write) ∧
        t = { s with allowConnections := true }.leave p) := by
  obtain ⟨c, hp, rfl⟩ | rfl | hsame := producerStep_cases hstep
  · cases c with
    | giveMessage message => exact .inl ⟨rfl, id⟩
    | requestConnection client =>
      exact .inr (.inl ⟨client, by simp [QueueState.write, atStage]⟩)
    | allowConnections => exact .inr (.inr ⟨hp, rfl⟩)
    | stop => exact .inl ⟨rfl, fun h => absurd h Bool.false_ne_true⟩
  · exact .inl ⟨rfl, id⟩
  · exact .inl ⟨hsame.connectionQueue, fun h => hsame.allowConnections ▸ h⟩

theorem producerStep_others (hstep : s.producerStep p = some t) :
    (∀ q, q ≠ p → t.producers q = s.producers q) ∧ t.stopCalled = s.stopCalled := by
  unfold QueueState.producerStep at hstep
  split at hstep <;> cases hstep
  · next c _ =>
    cases c <;> exact ⟨fun q hq => Function.update_of_ne hq .., rfl⟩
  · exact ⟨fun q hq => Function.update_of_ne hq .., rfl⟩
  · unfold QueueState.tryLock
    split
    · exact ⟨fun q hq => Function.update_of_ne hq .., rfl⟩
    · split <;> exact ⟨fun q hq => Function.update_of_ne hq .., rfl⟩
  · exact ⟨fun q hq => Function.update_of_ne hq .., rfl⟩
  · exact ⟨fun q hq => Function.update_of_ne hq .., rfl⟩
  · exact ⟨fun q hq => Function.update_of_ne hq .., rfl⟩

/-- A message leaves everything as it is but the permission and `_run`, which it
can only take back. -/
theorem handleMessage_cases (s : QueueState) (message : QueuedMessage) :
    s.handleMessage message = s ∨
      s.handleMessage message = { s with allowConnections := false, run := false } := by
  cases message with
  | STOP => exact .inr rfl
  | update => exact .inl rfl

theorem queueStep_keeps (hstep : s.queueStep = some t) :
    t.producers = s.producers ∧ t.stopCalled = s.stopCalled ∧
      (t.run = true → s.run = true) ∧ (t.allowConnections = true → s.allowConnections = true) ∧
      (t.queue ≠ [] → s.queue ≠ []) ∧ (t.connectionQueue ≠ [] → s.connectionQueue ≠ []) := by
  unfold QueueState.queueStep at hstep
  grind [handleMessage_cases]

/-- The queue thread stops looking at a queue only when it is empty, at the
connections also when they are not allowed, and at `_run` only while it is set. -/
theorem queueStep_looksAtQueue (hstep : s.queueStep = some t) (hne : t.queue ≠ [])
    (hlooks : s.queueThread.looksAtQueue = true) : t.queueThread.looksAtQueue = true := by
  unfold QueueState.queueStep at hstep
  grind [QueuePoint.looksAtQueue, handleMessage_cases]

theorem queueStep_looksAtConnections (hstep : s.queueStep = some t)
    (hallow : t.allowConnections = true) (hne : t.connectionQueue ≠ [])
    (hlooks : s.queueThread.looksAtConnections = true) :
    t.queueThread.looksAtConnections = true := by
  unfold QueueState.queueStep at hstep
  grind [QueuePoint.looksAtConnections, handleMessage_cases]

theorem queueStep_looksAtRun (hstep : s.queueStep = some t) (hrun : t.run = false)
    (hlooks : s.run = true ∨ s.queueThread.looksAtRun = true) :
    t.queueThread.looksAtRun = true := by
  unfold QueueState.queueStep at hstep
  grind [QueuePoint.looksAtRun, handleMessage_cases]

/-- The queue thread resets the flag only inside its two loops. -/
theorem queueStep_available (hstep : s.queueStep = some t) :
    t.msgAvailable = s.msgAvailable ∨
      (s.queueThread = .clearQueue ∧ t.queueThread = .drainQueue) ∨
      (s.queueThread = .clearConnections ∧
        t = { s with msgAvailable := false, queueThread := .drainConnections }) := by
  unfold QueueState.queueStep at hstep
  grind [handleMessage_cases]

/-! ## Coverage along a step -/

variable {pending : Call → Bool} {looks : QueuePoint → Bool}

/-- A producer that covers nothing moves on. -/
theorem Covered.keep (h : Covered pending looks s)
    (hproducers : t.producers = Function.update s.producers p v)
    (havailable : t.msgAvailable = s.msgAvailable)
    (hlooks : looks t.queueThread = looks s.queueThread)
    (hset : ∀ c, s.producers p ≠ some (c, .setAvailable))
    (htry : ∀ c, pending c = true → s.producers p ≠ some (c, .tryLock)) :
    Covered pending looks t := by
  rw [Covered, havailable, hproducers, hlooks]
  rcases h with h | ⟨q, c, hq⟩ | ⟨q, c, hc, hq⟩ | h
  · exact .inl h
  · refine .inr (.inl ⟨q, c, ?_⟩)
    rw [Function.update_of_ne, hq]
    rintro rfl
    exact hset c hq
  · refine .inr (.inr (.inl ⟨q, c, hc, ?_⟩))
    rw [Function.update_of_ne, hq]
    rintro rfl
    exact htry c hc hq
  · exact .inr (.inr (.inr h))

/-- A lock that a producer holds covers everything. -/
theorem Locked.covered (h : Locked s) {q : Nat} (hmutex : s.mutex = .producer q) :
    Covered pending looks s := by
  have hlock := (h.producer q).mp hmutex
  match hq : s.producers q with
  | none =>
    rw [hq] at hlock
    cases hlock
  | some (c, .setAvailable) => exact .inr (.inl ⟨q, c, hq⟩)
  | some (c, .unlock) => exact .inl (h.available q c hq)
  | some (_, .write) | some (_, .clearRun) | some (_, .tryLock) | some (_, .notify) =>
    rw [hq] at hlock
    cases hlock

/-- A step of a producer keeps what is covered, unless its `try_lock` fails
against the queue thread. -/
theorem Covered.producerStep (h : Covered pending looks s) (hlock : Locked s)
    (hstep : s.producerStep p = some t) (hwake : looks .woken = looks .blocked)
    (hfail : ∀ c, s.producers p = some (c, .tryLock) → s.mutex = .queueThread →
      pending c = true → Covered pending looks (s.leave p)) :
    Covered pending looks t := by
  unfold QueueState.producerStep at hstep
  split at hstep <;> cases hstep
  · next c hp =>
    cases c <;> exact h.keep rfl rfl rfl (by simp [hp]) (by simp [hp])
  · next hp => exact h.keep rfl rfl rfl (by simp [hp]) (by simp [hp])
  · next c hp =>
    unfold QueueState.tryLock
    split
    · exact .inr (.inl ⟨p, c, Function.update_self ..⟩)
    · next hheld =>
      -- without `p` everything is still covered
      have hrest : Covered pending looks (s.leave p) := by
        match hmutex : s.mutex with
        | .free => exact absurd hmutex hheld
        | .queueThread =>
          by_cases hc : pending c = true
          · exact hfail c hp hmutex hc
          · refine h.keep rfl rfl rfl (by simp [hp]) ?_
            rintro d hd hpd
            rw [hp] at hpd
            cases hpd
            exact hc hd
        | .producer q =>
          have hleave : Locked (s.leave p) :=
            hlock.keep rfl rfl rfl id (by rw [hp]; rfl) (by simp)
          exact hleave.covered hmutex
      split
      · next client =>
        refine hrest.keep (p := p) (v := some (.requestConnection client, .notify)) ?_ rfl rfl ?_ ?_
        · simp [atStage, leave]
        · simp [leave]
        · simp [leave]
      · exact hrest
  · exact .inl rfl
  · next c hp => exact .inl (hlock.available p c hp)
  · next c hp => exact h.keep rfl rfl (wake_point hwake s) (by simp [hp]) (by simp [hp])

/-- A step of the queue thread keeps what is covered, if it goes on looking and
does not reset the flag over something that is not covered. -/
theorem Covered.queueStep (h : Covered pending looks s) (hstep : s.queueStep = some t)
    (hlooks : looks s.queueThread = true → looks t.queueThread = true)
    (hdrain : looks .drainQueue = true)
    (hreset : s.queueThread = .clearConnections → looks .drainConnections = true ∨
      Covered pending looks { s with msgAvailable := false, queueThread := .drainConnections }) :
    Covered pending looks t := by
  obtain ⟨hproducers, -⟩ := queueStep_keeps hstep
  rcases queueStep_available hstep with havailable | ⟨-, hpoint⟩ | ⟨hpoint, ht⟩
  · rw [Covered, havailable, hproducers]
    exact h.imp_right (.imp_right (.imp_right hlooks))
  · exact .inr (.inr (.inr (by rw [hpoint, hdrain])))
  · subst ht
    rcases hreset hpoint with hlook | hcovered
    · exact .inr (.inr (.inr hlook))
    · exact hcovered

/-! ## The queue thread stays awake -/

/-- The lock is in order, everything is covered, and a call of `stop` is either
still to clear `_run` or has cleared it. -/
structure Awake (s : QueueState) : Prop where
  locked : Locked s
  queue : QueueCovered s
  connections : ConnectionsCovered s
  stop : StopCovered s
  stopping : s.stopCalled = true → s.run = false ∨
    ∃ p, s.producers p = some (.stop, .write) ∨ s.producers p = some (.stop, .clearRun)

theorem awake_start : Awake start where
  locked := locked_start
  queue _ h := absurd rfl h
  connections _ _ h := absurd rfl h
  stop h := by cases h
  stopping h := by cases h

theorem Awake.call {c : Call} (h : Awake s) (hstep : s.call p c = some t) : Awake t := by
  unfold QueueState.call at hstep
  split at hstep
  · next hp =>
    cases hstep
    have hkeep : ∀ {pending looks}, Covered pending looks s →
        Covered pending looks
          ({ s with stopCalled := s.stopCalled || c == Call.stop }.atStage p c .write) :=
      fun hc => hc.keep rfl rfl rfl (by simp [hp]) (by simp [hp])
    refine ⟨h.locked.keep rfl rfl rfl id (by rw [hp]; rfl) (by simp), ?_, ?_, ?_, ?_⟩
    · exact fun hrun hne => hkeep (h.queue hrun hne)
    · exact fun hrun hallow hne => hkeep (h.connections hrun hallow hne)
    · exact fun hrun => hkeep (h.stop hrun)
    · intro hcalled
      simp only [atStage, Bool.or_eq_true, beq_iff_eq] at hcalled ⊢
      rcases hcalled with hcalled | rfl
      · refine (h.stopping hcalled).imp_right ?_
        rintro ⟨q, hq⟩
        have hne : q ≠ p := by
          rintro rfl
          simp [hp] at hq
        exact ⟨q, by simpa [Function.update_of_ne hne] using hq⟩
      · exact .inr ⟨p, .inl (Function.update_self ..)⟩
  · cases hstep

/-- A stop under way stays so until it clears `_run`. -/
theorem Awake.stopping_producerStep (h : Awake s) (hstep : s.producerStep p = some t)
    (hcalled : t.stopCalled = true) : t.run = false ∨
      ∃ q, t.producers q = some (.stop, .write) ∨ t.producers q = some (.stop, .clearRun) := by
  obtain ⟨hothers, hsame⟩ := producerStep_others hstep
  rw [hsame] at hcalled
  rcases h.stopping hcalled with hrun | ⟨q, hq⟩
  · left
    rcases producerStep_run hstep with hr | ⟨hr, -⟩
    · rw [hr, hrun]
    · exact hr
  · by_cases hqp : q = p
    · subst hqp
      unfold QueueState.producerStep at hstep
      rcases hq with hq | hq
      · rw [hq] at hstep
        cases hstep
        exact .inr ⟨q, .inr (Function.update_self ..)⟩
      · rw [hq] at hstep
        cases hstep
        exact .inl rfl
    · exact .inr ⟨q, by rw [hothers q hqp]; exact hq⟩

theorem Awake.producerStep (h : Awake s) (hstep : s.producerStep p = some t)
    (hok : Looked s (.producer p)) : Awake t := by
  obtain ⟨hgives, hallows⟩ := hok
  refine ⟨h.locked.producerStep hstep, ?_, ?_, ?_, h.stopping_producerStep hstep⟩
  · intro hrun hne
    have hrun' := producerStep_wasRunning hstep hrun
    rcases producerStep_queue hstep with hqueue | ⟨message, hp⟩
    · rw [hqueue] at hne
      refine (h.queue hrun' hne).producerStep h.locked hstep rfl ?_
      intro c hp hmutex hc
      cases c with
      | giveMessage message => exact hgives _ hp hmutex hrun' hne
      | requestConnection client => cases hc
      | allowConnections => cases hc
      | stop => cases hc
    · exact .inr (.inr (.inl ⟨p, _, rfl, hp⟩))
  · intro hrun hallow hne
    have hrun' := producerStep_wasRunning hstep hrun
    rcases producerStep_connections hstep with ⟨hqueue, hallow'⟩ | ⟨client, hp⟩ | ⟨hp, rfl⟩
    · rw [hqueue] at hne
      refine (h.connections hrun' (hallow' hallow) hne).producerStep h.locked hstep rfl ?_
      intro c hp hmutex hc
      cases c with
      | giveMessage message => cases hc
      | requestConnection client => exact hgives _ hp hmutex hrun' (hallow' hallow) hne
      | allowConnections => cases hc
      | stop => cases hc
    · exact .inr (.inr (.inl ⟨p, _, rfl, hp⟩))
    · exact (hallows hp hrun' rfl hne).keep rfl rfl rfl (by simp [hp]) (by simp [hp])
  · intro hrun
    rcases producerStep_run hstep with hr | ⟨-, hp⟩
    · rw [hr] at hrun
      refine (h.stop hrun).producerStep h.locked hstep rfl ?_
      intro c hp hmutex hc
      cases c with
      | giveMessage message => cases hc
      | requestConnection client => cases hc
      | allowConnections => cases hc
      | stop => exact hgives _ hp hmutex hrun
    · exact .inr (.inr (.inl ⟨p, _, rfl, hp⟩))

theorem Awake.queueStep (h : Awake s) (hstep : s.queueStep = some t)
    (hok : Looked s .queueThread) : Awake t := by
  obtain ⟨hproducers, hcalled, hrun', hallow', hqueue', hconnections'⟩ := queueStep_keeps hstep
  refine ⟨h.locked.queueStep hstep, ?_, ?_, ?_, ?_⟩
  · intro hrun hne
    refine (h.queue (hrun' hrun) (hqueue' hne)).queueStep hstep
      (queueStep_looksAtQueue hstep hne) rfl ?_
    intro hpoint
    right
    have hcovered := hok hpoint (hrun' hrun) (hqueue' hne)
    simpa [Covered, hpoint, QueuePoint.looksAtQueue] using hcovered
  · intro hrun hallow hne
    exact (h.connections (hrun' hrun) (hallow' hallow) (hconnections' hne)).queueStep hstep
      (queueStep_looksAtConnections hstep hallow hne) rfl (fun _ => .inl rfl)
  · intro hrun
    by_cases hbefore : s.run = false
    · exact (h.stop hbefore).queueStep hstep
        (fun hlooks => queueStep_looksAtRun hstep hrun (.inr hlooks)) rfl (fun _ => .inl rfl)
    · -- a `STOP` message, after which the thread looks at `_run`
      rw [Bool.not_eq_false] at hbefore
      exact .inr (.inr (.inr (queueStep_looksAtRun hstep hrun (.inl hbefore))))
  · intro h'
    rw [hcalled] at h'
    rw [hproducers]
    refine (h.stopping h').imp_left fun hrun => ?_
    by_contra hne
    simp only [Bool.not_eq_false] at hne
    rw [hrun' hne] at hrun
    cases hrun

theorem Awake.step {l : QueueLabel} (h : Awake s) (hstep : Step s l t) (hok : Looked s l) :
    Awake t := by
  cases l with
  | call p c => exact h.call hstep
  | producer p => exact h.producerStep hstep hok
  | queueThread => exact h.queueStep hstep hok
  | spuriousWakeup =>
    cases hstep
    have hwake : ∀ {pending looks}, looks .woken = looks .blocked → Covered pending looks s →
        Covered pending looks s.wake := by
      intro pending looks hlooks hc
      rw [Covered, wake_point hlooks]
      exact hc
    refine ⟨?_, ?_, ?_, ?_, h.stopping⟩
    · exact h.locked.keepQueue rfl rfl (wake_point rfl s) (.inl rfl)
    · exact fun hrun hne => hwake rfl (h.queue hrun hne)
    · exact fun hrun hallow hne => hwake rfl (h.connections hrun hallow hne)
    · exact fun hrun => hwake rfl (h.stop hrun)

/-- Nobody covers anything when the thread is blocked, the flag is clear and no
call is under way. -/
theorem not_covered (hlooks : looks .blocked = false) (hblocked : s.queueThread = .blocked)
    (havailable : s.msgAvailable = false) (hdone : ∀ p, s.producers p = none) :
    ¬ Covered pending looks s := by
  simp [Covered, hblocked, havailable, hdone, hlooks]

theorem Awake.settled (h : Awake s) : Settled s := by
  intro hblocked havailable hdone
  have hrun : s.run = true := by
    by_contra hrun
    exact not_covered rfl hblocked havailable hdone (h.stop (by simpa using hrun))
  refine ⟨?_, ?_, ?_⟩
  · by_contra hne
    exact not_covered rfl hblocked havailable hdone (h.queue hrun hne)
  · intro hallow
    by_contra hne
    exact not_covered rfl hblocked havailable hdone (h.connections hrun hallow hne)
  · by_contra hcalled
    rcases h.stopping (by simpa using hcalled) with hr | ⟨p, hp⟩
    · rw [hrun] at hr
      cases hr
    · simp [hdone p] at hp

/-- **No lost wake-up.**  In every run whose steps meet the condition, a blocked
queue thread has left nothing behind. -/
theorem no_lost_wakeup {ls : List QueueLabel} (h : Run (Guarded Step Looked) start ls t) :
    Settled t := by
  have hawake : Awake t :=
    h.invariant (fun _ _ _ hs hg => hs.step hg.1 hg.2) awake_start
  exact hawake.settled

/-! ## Two messages -/

/-- A producer that gives a message while nobody has the lock. -/
def giveFirst : List QueueLabel :=
  [.call 0 (.giveMessage .update), .producer 0, .producer 0, .producer 0, .producer 0, .producer 0]

/-- The message is handled, and the queue thread blocks with nothing left. -/
theorem settled_after_message :
    ∃ t, Run (Guarded Step Looked) start (giveFirst ++ List.replicate 11 .queueThread) t ∧
      t.queueThread = .blocked ∧ t.queue = [] ∧ Settled t := by
  have hproducer : ∀ {s t : QueueState}, Step s (.producer 0) t → s.mutex ≠ .queueThread →
      s.producers 0 ≠ some (.allowConnections, .write) →
      Guarded Step Looked s (.producer 0) t :=
    fun hstep hfree hne => ⟨hstep, fun _ _ h => absurd h hfree, fun h => absurd h hne⟩
  have hqueue : ∀ {s t : QueueState}, Step s .queueThread t →
      s.queueThread ≠ .clearConnections → Guarded Step Looked s .queueThread t :=
    fun hstep hne => ⟨hstep, fun h => absurd h hne⟩
  have hrun : Run (Guarded Step Looked) start (giveFirst ++ List.replicate 11 .queueThread) _ :=
    .cons ⟨rfl, trivial⟩ <|
    .cons (hproducer rfl (by decide) (by decide)) <|
    .cons (hproducer rfl (by decide) (by decide)) <|
    .cons (hproducer rfl (by decide) (by decide)) <|
    .cons (hproducer rfl (by decide) (by decide)) <|
    .cons (hproducer rfl (by decide) (by decide)) <|
    .cons (hqueue rfl (by decide)) <| .cons (hqueue rfl (by decide)) <|
    .cons (hqueue rfl (by decide)) <| .cons (hqueue rfl (by decide)) <|
    .cons (hqueue rfl (by decide)) <| .cons (hqueue rfl (by decide)) <|
    .cons (hqueue rfl (by decide)) <| .cons (hqueue rfl (by decide)) <|
    .cons (hqueue rfl (by decide)) <| .cons (hqueue rfl (by decide)) <|
    .single (hqueue rfl (by decide))
  exact ⟨_, hrun, rfl, rfl, no_lost_wakeup hrun⟩

/-- The queue thread has drained `_queue` and still holds the lock when the second
message comes, so `try_lock` fails; the thread then blocks with the message queued. -/
theorem second_message_lost :
    ∃ t, Run Step start
        (giveFirst ++ List.replicate 7 .queueThread ++
          [.call 1 (.giveMessage .update), .producer 1, .producer 1] ++
          List.replicate 4 .queueThread) t ∧
      t.queueThread = .blocked ∧ t.msgAvailable = false ∧ (∀ p, t.producers p = none) ∧
      t.queue = [.update] := by
  have hrun : Run Step start
      (giveFirst ++ List.replicate 7 .queueThread ++
        [.call 1 (.giveMessage .update), .producer 1, .producer 1] ++
        List.replicate 4 .queueThread) _ :=
    .cons rfl <| .cons rfl <| .cons rfl <| .cons rfl <| .cons rfl <| .cons rfl <|
    .cons rfl <| .cons rfl <| .cons rfl <| .cons rfl <| .cons rfl <| .cons rfl <| .cons rfl <|
    .cons rfl <| .cons rfl <| .cons rfl <|
    .cons rfl <| .cons rfl <| .cons rfl <| .single rfl
  refine ⟨_, hrun, rfl, rfl, ?_, rfl⟩
  intro p
  match p with
  | 0 | 1 => rfl
  | p + 2 => rfl

end QueueState

end PiScan.Server

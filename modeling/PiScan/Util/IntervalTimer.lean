import Mathlib.Logic.Function.Basic
import PiScan.Lib.Run

/-!
# The interval timer

`util/IntervalTimer.h`, which refreshes the signal level while the squelch is open:
the timer thread of `create`, and any number of callers of `start`, `stop` and
`destroy`, interleaved at every access to a flag, a mutex or a condition variable.

* `one_more_callback`: from the moment at which `stop` clears `_runTimer`, the timer
  thread begins the callback at most once, until a `start` sets the flag again;
* `comes_to_rest`: where the calls do not overlap, a stopped timer thread needs no
  timeout to come to rest, waiting for the next `start` or ended for `destroy`.
-/

namespace PiScan.Util

open Runs

namespace IntervalTimer

/-- What the timer thread does next; `timedOut` is the answer of its last wait. -/
inductive WorkerPoint
  | testExecute
  | lock
  | testRun
  | testStop
  | wait
  | waiting
  | unlock
  | testBreak
  | callback
  | lockSleep
  | testChanged (timedOut : Bool)
  | sleep
  | asleep
  | wake (timedOut : Bool)
  | clearChanged
  | elapsed
  | unlockSleep
  | exited
  deriving DecidableEq, Repr

/-- What a caller does next; a `stop` can be a part of `destroy`. -/
inductive CallerPoint
  | idle
  | startLock
  | startRun
  | startClear
  | startNotify
  | startUnlock
  | stopRun (destroying : Bool)
  | stopChanged (destroying : Bool)
  | stopLock (destroying : Bool)
  | stopNotify (destroying : Bool)
  | stopUnlock (destroying : Bool)
  | destroyExecute
  | destroyTest
  | destroyLock
  | destroyNotify
  | destroyUnlock
  | join
  | destroyed
  deriving DecidableEq, Repr

inductive Owner
  | worker
  | caller (c : Nat)
  deriving DecidableEq, Repr

/-- The members that the threads share, and where the timer thread is.  `late` only
records how many callbacks have begun since `_runTimer` was last cleared. -/
structure Timer where
  runTimer : Bool
  execute : Bool
  stateChanged : Bool
  mtx : Option Owner
  sleepMtx : Option Owner
  worker : WorkerPoint
  late : Nat

structure TimerState where
  timer : Timer
  callers : Nat → CallerPoint

inductive Label
  | start (c : Nat)
  | stop (c : Nat)
  | destroy (c : Nat)
  | caller (c : Nat)
  | worker (expired : Bool)
  | timeout
  | spurious
  deriving DecidableEq, Repr

namespace Timer

/-- After `create`. -/
def create : Timer where
  runTimer := false
  execute := true
  stateChanged := false
  mtx := none
  sleepMtx := none
  worker := .testExecute
  late := 0

def goto (s : Timer) (w : WorkerPoint) : Timer := { s with worker := w }

/-- `_cv.notify_all`. -/
def notifyRun (s : Timer) : Timer := if s.worker = .waiting then s.goto .lock else s

/-- `_sleepTime.notify_all`. -/
def notifySleep (s : Timer) : Timer := if s.worker = .asleep then s.goto (.wake false) else s

/-- The timer thread; `expired` is whether the interval is over at a timeout. -/
def workerStep (s : Timer) (expired : Bool) : Option Timer :=
  match s.worker with
  | .testExecute => some (s.goto (if s.execute then .lock else .exited))
  | .lock => if s.mtx = none then some ({ s with mtx := some .worker }.goto .testRun) else none
  | .testRun => some (s.goto (if s.runTimer then .unlock else .testStop))
  | .testStop => some (s.goto (if s.execute then .wait else .unlock))
  | .wait => some ({ s with mtx := none }.goto .waiting)
  | .waiting => none
  | .unlock => some ({ s with mtx := none }.goto .testBreak)
  | .testBreak => some (s.goto (if s.execute then .callback else .exited))
  | .callback => some ({ s with late := s.late + 1 }.goto .lockSleep)
  | .lockSleep =>
    if s.sleepMtx = none then some ({ s with sleepMtx := some .worker }.goto (.testChanged false))
    else none
  | .testChanged timedOut =>
    some (s.goto (if s.stateChanged then .clearChanged else if timedOut then .elapsed else .sleep))
  | .sleep => some ({ s with sleepMtx := none }.goto .asleep)
  | .asleep => none
  | .wake timedOut =>
    if s.sleepMtx = none then
      some ({ s with sleepMtx := some .worker }.goto (.testChanged timedOut))
    else none
  | .clearChanged => some ({ s with stateChanged := false }.goto .unlockSleep)
  | .elapsed => some (s.goto (if expired then .unlockSleep else .testChanged false))
  | .unlockSleep => some ({ s with sleepMtx := none }.goto .testExecute)
  | .exited => none

/-- The caller `c` in `start`, `stop` or `destroy`. -/
def callerStep (s : Timer) (c : Nat) : CallerPoint → Option (Timer × CallerPoint)
  | .idle => none
  | .startLock => if s.mtx = none then some ({ s with mtx := some (.caller c) }, .startRun) else none
  | .startRun => some ({ s with runTimer := true }, .startClear)
  | .startClear => some ({ s with stateChanged := false }, .startNotify)
  | .startNotify => some (s.notifyRun, .startUnlock)
  | .startUnlock => some ({ s with mtx := none }, .idle)
  | .stopRun d =>
    some ({ s with runTimer := false, late := if s.runTimer then 0 else s.late }, .stopChanged d)
  | .stopChanged d => some ({ s with stateChanged := true }, .stopLock d)
  | .stopLock d =>
    if s.sleepMtx = none then some ({ s with sleepMtx := some (.caller c) }, .stopNotify d) else none
  | .stopNotify d => some (s.notifySleep, .stopUnlock d)
  | .stopUnlock d => some ({ s with sleepMtx := none }, if d then .join else .idle)
  | .destroyExecute => some ({ s with execute := false }, .destroyTest)
  | .destroyTest => some (s, if s.runTimer then .stopRun true else .destroyLock)
  | .destroyLock =>
    if s.mtx = none then some ({ s with mtx := some (.caller c) }, .destroyNotify) else none
  | .destroyNotify => some (s.notifyRun, .destroyUnlock)
  | .destroyUnlock => some ({ s with mtx := none }, .join)
  | .join => if s.worker = .exited then some (s, .destroyed) else none
  | .destroyed => none

end Timer

namespace TimerState

def create : TimerState := ⟨.create, fun _ => .idle⟩

def call (s : TimerState) (c : Nat) (p : CallerPoint) : Option TimerState :=
  if s.callers c = .idle then some { s with callers := Function.update s.callers c p } else none

def next (s : TimerState) : Label → Option TimerState
  | .start c => s.call c .startLock
  | .stop c => s.call c (.stopRun false)
  | .destroy c => s.call c .destroyExecute
  | .caller c =>
    (s.timer.callerStep c (s.callers c)).map fun r => ⟨r.1, Function.update s.callers c r.2⟩
  | .worker expired => (s.timer.workerStep expired).map fun timer => { s with timer := timer }
  | .timeout =>
    if s.timer.worker = .asleep then some { s with timer := s.timer.goto (.wake true) } else none
  | .spurious => some { s with timer := s.timer.notifyRun.notifySleep }

def Step (s : TimerState) (l : Label) (t : TimerState) : Prop := s.next l = some t

/-- **What a step can do**: a new call, a step of a caller, or one of the timer
thread, which may also wake up by itself. -/
theorem step_cases {s t : TimerState} {l : Label} (h : Step s l t) :
    (∃ c p, s.callers c = .idle ∧ (p = .startLock ∨ p = .stopRun false ∨ p = .destroyExecute) ∧
      t = { s with callers := Function.update s.callers c p } ∧
      (l = .start c ∨ l = .stop c ∨ l = .destroy c)) ∨
    (∃ c timer p, l = .caller c ∧ s.timer.callerStep c (s.callers c) = some (timer, p) ∧
      t = ⟨timer, Function.update s.callers c p⟩) ∨
    (∃ expired timer, l = .worker expired ∧ s.timer.workerStep expired = some timer ∧
      t = { s with timer := timer }) ∨
    (s.timer.worker = .asleep ∧ t = { s with timer := s.timer.goto (.wake true) }) ∨
    t = { s with timer := s.timer.notifyRun.notifySleep } := by
  have hcall : ∀ {c p}, s.call c p = some t → s.callers c = .idle ∧
      t = { s with callers := Function.update s.callers c p } := by
    intro c p hc
    unfold call at hc
    split at hc
    · next hidle =>
      cases hc
      exact ⟨hidle, rfl⟩
    · cases hc
  cases l with
  | start c =>
    obtain ⟨hidle, ht⟩ := hcall h
    exact .inl ⟨c, _, hidle, .inl rfl, ht, .inl rfl⟩
  | stop c =>
    obtain ⟨hidle, ht⟩ := hcall h
    exact .inl ⟨c, _, hidle, .inr (.inl rfl), ht, .inr (.inl rfl)⟩
  | destroy c =>
    obtain ⟨hidle, ht⟩ := hcall h
    exact .inl ⟨c, _, hidle, .inr (.inr rfl), ht, .inr (.inr rfl)⟩
  | caller c =>
    obtain ⟨⟨timer, p⟩, hstep, rfl⟩ := Option.map_eq_some_iff.mp h
    exact .inr (.inl ⟨c, timer, p, rfl, hstep, rfl⟩)
  | worker expired =>
    obtain ⟨timer, hstep, rfl⟩ := Option.map_eq_some_iff.mp h
    exact .inr (.inr (.inl ⟨expired, timer, rfl, hstep, rfl⟩))
  | timeout =>
    simp only [Step, next] at h
    split at h
    · next hasleep =>
      cases h
      exact .inr (.inr (.inr (.inl ⟨hasleep, rfl⟩)))
    · cases h
  | spurious =>
    cases h
    exact .inr (.inr (.inr (.inr rfl)))

end TimerState

/-! ## After a stop -/

namespace Timer

variable {s t : Timer} {c : Nat} {p q : CallerPoint} {expired : Bool}

/-- The timer thread has passed its tests and will begin the callback. -/
def AboutToCall (s : Timer) : Prop :=
  s.worker = .callback ∨ (s.worker = .unlock ∨ s.worker = .testBreak) ∧ s.execute = true

/-- Since `_runTimer` was cleared, the callback has begun at most once, and not yet
if the timer thread is about to begin it. -/
def Settling (s : Timer) : Prop :=
  s.runTimer = false → s.late ≤ 1 ∧ (s.AboutToCall → s.late = 0)

theorem settling_create : create.Settling := by
  intro _
  exact ⟨Nat.zero_le 1, fun _ => rfl⟩

/-- A step that begins no callback and does not bring the thread nearer to one. -/
theorem Settling.keep (h : s.Settling) (hrun : t.runTimer = s.runTimer) (hlate : t.late = s.late)
    (hcall : t.AboutToCall → s.AboutToCall) : t.Settling := by
  intro hstopped
  obtain ⟨hle, hzero⟩ := h (by rw [← hrun, hstopped])
  rw [hlate]
  exact ⟨hle, fun hc => hzero (hcall hc)⟩

theorem Settling.workerStep (h : s.Settling) (hstep : s.workerStep expired = some t) :
    t.Settling := by
  unfold Timer.workerStep at hstep
  split at hstep
  case h_3 hw =>
    -- the test of `_runTimer` passes only while it is set
    cases hstep
    intro hstopped
    have hrun : s.runTimer = false := hstopped
    refine ⟨(h hrun).1, ?_⟩
    rintro (hc | ⟨hc | hc, -⟩) <;> simp [goto, hrun] at hc
  case h_4 hw =>
    -- nor does the test of `_execute` lead to the callback
    cases hstep
    refine h.keep rfl rfl ?_
    rintro (hc | ⟨hc | hc, hexec⟩)
    · split at hc <;> cases hc
    · have hexec' : s.execute = true := hexec
      simp [goto, hexec'] at hc
    · split at hc <;> cases hc
  case h_9 hw =>
    cases hstep
    intro hstopped
    have hzero := (h hstopped).2 (.inl hw)
    refine ⟨by show s.late + 1 ≤ 1; omega, ?_⟩
    rintro (hc | ⟨hc | hc, -⟩) <;> cases hc
  all_goals grind [Settling, AboutToCall, goto]

theorem Settling.notifyRun (h : s.Settling) : s.notifyRun.Settling := by
  unfold Timer.notifyRun
  split
  · refine h.keep rfl rfl ?_
    rintro (hc | ⟨hc | hc, -⟩) <;> cases hc
  · exact h

theorem Settling.notifySleep (h : s.Settling) : s.notifySleep.Settling := by
  unfold Timer.notifySleep
  split
  · refine h.keep rfl rfl ?_
    rintro (hc | ⟨hc | hc, -⟩) <;> cases hc
  · exact h

theorem Settling.callerStep (h : s.Settling) (hstep : s.callerStep c p = some (t, q)) :
    t.Settling := by
  have hrun := h.notifyRun
  have hsleep := h.notifySleep
  unfold Timer.callerStep at hstep
  split at hstep
  all_goals grind [Settling, AboutToCall]

end Timer

namespace TimerState

/-- **One more callback at most.**  However the calls overlap, while `_runTimer` is
cleared the callback has begun at most once since. -/
theorem one_more_callback {s : TimerState} {ls : List Label} (h : Run Step create ls s)
    (hcleared : s.timer.runTimer = false) : s.timer.late ≤ 1 := by
  have hsettling : s.timer.Settling := by
    refine h.invariant (I := fun s => s.timer.Settling) ?_ Timer.settling_create
    intro s l t hi hstep
    obtain ⟨c, p, -, -, rfl, -⟩ | ⟨c, timer, p, -, hcaller, rfl⟩ |
      ⟨expired, timer, -, hworker, rfl⟩ | ⟨hasleep, rfl⟩ | rfl := step_cases hstep
    · exact hi
    · exact hi.callerStep hcaller
    · exact hi.workerStep hworker
    · refine hi.keep rfl rfl ?_
      rintro (hc | ⟨hc | hc, -⟩) <;> cases hc
    · exact hi.notifyRun.notifySleep
  exact (hsettling hcleared).1

/-- A `stop` that comes between the test of `_runTimer` and the callback. -/
theorem called_once_after_stop :
    ∃ s : TimerState, s.timer.runTimer = false ∧ s.timer.late = 1 ∧ s.timer.late ≤ 1 := by
  have hrun : ∃ s, Run Step create
      [.start 0, .caller 0, .caller 0, .caller 0, .caller 0, .caller 0, .worker false,
        .worker false, .worker false, .worker false, .worker false, .stop 0, .caller 0,
        .worker false] s ∧ s.timer.runTimer = false ∧ s.timer.late = 1 :=
    ⟨_, .cons rfl <| .cons rfl <| .cons rfl <| .cons rfl <| .cons rfl <| .cons rfl <|
      .cons rfl <| .cons rfl <| .cons rfl <| .cons rfl <| .cons rfl <| .cons rfl <|
      .cons rfl <| .single rfl, rfl, rfl⟩
  obtain ⟨s, hs, hcleared, hlate⟩ := hrun
  exact ⟨s, hcleared, hlate, one_more_callback hs hcleared⟩

end TimerState

/-! ## One call at a time -/

namespace WorkerPoint

def holdsMtx : WorkerPoint → Bool
  | testRun | testStop | wait | unlock => true
  | _ => false

def holdsSleepMtx : WorkerPoint → Bool
  | testChanged _ | sleep | clearChanged | elapsed | unlockSleep => true
  | _ => false

/-- Past the test of `_runTimer` and before the end of the sleep. -/
def passed : WorkerPoint → Bool
  | unlock | testBreak | callback | lockSleep | testChanged _ | sleep | asleep | wake _
  | elapsed => true
  | _ => false

end WorkerPoint

namespace CallerPoint

def holdsMtx : CallerPoint → Bool
  | startRun | startClear | startNotify | startUnlock | destroyNotify | destroyUnlock => true
  | _ => false

def holdsSleepMtx : CallerPoint → Bool
  | stopNotify _ | stopUnlock _ => true
  | _ => false

/-- A `start` that has set `_runTimer`. -/
def started : CallerPoint → Bool
  | startClear | startNotify | startUnlock => true
  | _ => false

/-- A `stop` or `destroy` that has cleared `_runTimer` or found it cleared. -/
def stopped : CallerPoint → Bool
  | stopChanged _ | stopLock _ | stopNotify _ | stopUnlock _ | destroyLock | destroyNotify
  | destroyUnlock | join | destroyed => true
  | _ => false

/-- A `destroy` that has cleared `_execute`. -/
def destroying : CallerPoint → Bool
  | stopRun d | stopChanged d | stopLock d | stopNotify d | stopUnlock d => d
  | destroyTest | destroyLock | destroyNotify | destroyUnlock | join | destroyed => true
  | _ => false

end CallerPoint

namespace Timer

/-- A mutex belongs to whoever is where the code holds it: `w` says so of the timer
thread, `p` of the one call under way. -/
structure Owned (c : Nat) (mutex : Option Owner) (w p : Bool) : Prop where
  worker : w = true → mutex = some .worker
  caller : p = true → mutex = some (.caller c)
  free : w = false → p = false → mutex = none

/-- The mutexes, with the one call at `p`. -/
structure Held (c : Nat) (s : Timer) (p : CallerPoint) : Prop where
  mtx : Owned c s.mtx s.worker.holdsMtx p.holdsMtx
  sleepMtx : Owned c s.sleepMtx s.worker.holdsSleepMtx p.holdsSleepMtx

/-- The flags say how far the call is. -/
structure Flags (s : Timer) (p : CallerPoint) : Prop where
  started : p.started = true → s.runTimer = true
  stopped : p.stopped = true → s.runTimer = false
  destroying : s.execute = !p.destroying

/-- The thread waits for a start only while `_runTimer` is cleared, and a `destroy`
has still to tell it. -/
structure Waits (s : Timer) (p : CallerPoint) : Prop where
  testStop : s.worker = .testStop → s.runTimer = false
  wait : s.worker = .wait → s.runTimer = false
  waiting : s.worker = .waiting → s.runTimer = false ∨ p = .startClear ∨ p = .startNotify
  waitEnd : s.worker = .wait → s.execute = false → p = .destroyTest ∨ p = .destroyLock
  waitingEnd : s.worker = .waiting → s.execute = false →
    p = .destroyTest ∨ p = .destroyLock ∨ p = .destroyNotify
  exited : s.worker = .exited → s.execute = false

/-- A stopped thread that goes to sleep finds `_stateChanged` set, and a `stop` has
still to tell one that sleeps. -/
structure Sleeps (s : Timer) (p : CallerPoint) : Prop where
  passed : s.worker.passed = true → s.runTimer = false → s.stateChanged = true ∨
    (∃ d, p = .stopChanged d) ∨ (s.worker = .unlock ∨ s.worker = .testBreak) ∧ s.execute = false
  sleep : s.worker = .sleep → s.stateChanged = true → ∃ d, p = .stopLock d
  asleep : s.worker = .asleep → s.stateChanged = true → ∃ d, p = .stopLock d ∨ p = .stopNotify d

/-- The states that calls without overlap lead to. -/
structure Calm (c : Nat) (s : Timer) (p : CallerPoint) : Prop where
  held : s.Held c p
  flags : s.Flags p
  waits : s.Waits p
  sleeps : s.Sleeps p

variable {s t : Timer} {c : Nat} {p q : CallerPoint} {expired : Bool}

theorem calm_create (c : Nat) : create.Calm c .idle := by
  refine ⟨⟨⟨?_, ?_, ?_⟩, ⟨?_, ?_, ?_⟩⟩, ⟨?_, ?_, ?_⟩, ⟨?_, ?_, ?_, ?_, ?_, ?_⟩, ⟨?_, ?_, ?_⟩⟩ <;>
    simp [create, WorkerPoint.holdsMtx, CallerPoint.holdsMtx, WorkerPoint.passed,
      WorkerPoint.holdsSleepMtx, CallerPoint.holdsSleepMtx, CallerPoint.started,
      CallerPoint.stopped, CallerPoint.destroying]

namespace Owned

variable {mutex : Option Owner} {w b : Bool}

theorem lock (h : Owned c none w b) : Owned c (some .worker) true b where
  worker _ := rfl
  caller hb := by
    have hnone := h.caller hb
    cases hnone
  free hw := by cases hw

theorem unlock (h : Owned c mutex true b) : Owned c none false b where
  worker hw := by cases hw
  caller hb := by
    have hworker := h.worker rfl
    rw [h.caller hb] at hworker
    cases hworker
  free _ _ := rfl

theorem lockCaller (h : Owned c none w b) : Owned c (some (.caller c)) w true where
  worker hw := by
    have hnone := h.worker hw
    cases hnone
  caller _ := rfl
  free _ hb := by cases hb

theorem unlockCaller (h : Owned c mutex w true) : Owned c none w false where
  worker hw := by
    have hcaller := h.caller rfl
    rw [h.worker hw] at hcaller
    cases hcaller
  caller hb := by cases hb
  free _ _ := rfl

end Owned

theorem Held.workerStep (h : s.Held c p) (hstep : s.workerStep expired = some t) : t.Held c p := by
  obtain ⟨hmtx, hsleep⟩ := h
  unfold Timer.workerStep at hstep
  split at hstep
  all_goals
    rename_i hw
    rw [hw] at hmtx hsleep
  case h_2 =>
    split at hstep
    · next hfree =>
      cases hstep
      rw [hfree] at hmtx
      exact ⟨hmtx.lock, hsleep⟩
    · cases hstep
  case h_5 | h_7 =>
    cases hstep
    exact ⟨hmtx.unlock, hsleep⟩
  case h_10 | h_14 =>
    split at hstep
    · next hfree =>
      cases hstep
      rw [hfree] at hsleep
      exact ⟨hmtx, hsleep.lock⟩
    · cases hstep
  case h_12 | h_17 =>
    cases hstep
    exact ⟨hmtx, hsleep.unlock⟩
  case h_6 | h_13 | h_18 => cases hstep
  all_goals
    (try split at hstep) <;> (try split at hstep) <;> cases hstep <;> exact ⟨hmtx, hsleep⟩

theorem Held.goto (h : s.Held c p) {w : WorkerPoint} (hmtx : w.holdsMtx = s.worker.holdsMtx)
    (hsleep : w.holdsSleepMtx = s.worker.holdsSleepMtx) : (s.goto w).Held c p := by
  obtain ⟨h₁, h₂⟩ := h
  rw [← hmtx] at h₁
  rw [← hsleep] at h₂
  exact ⟨h₁, h₂⟩

theorem Held.notifyRun (h : s.Held c p) : s.notifyRun.Held c p := by
  unfold Timer.notifyRun
  split
  · next hw => exact h.goto (by rw [hw]; rfl) (by rw [hw]; rfl)
  · exact h

theorem Held.notifySleep (h : s.Held c p) : s.notifySleep.Held c p := by
  unfold Timer.notifySleep
  split
  · next hw => exact h.goto (by rw [hw]; rfl) (by rw [hw]; rfl)
  · exact h

theorem Held.callerStep (h : s.Held c p) (hstep : s.callerStep c p = some (t, q)) :
    t.Held c q := by
  have hrun := h.notifyRun
  have hsleep := h.notifySleep
  obtain ⟨h₁, h₂⟩ := h
  unfold Timer.callerStep at hstep
  split at hstep
  case h_2 | h_14 =>
    split at hstep
    · next hfree =>
      cases hstep
      rw [hfree] at h₁
      exact ⟨h₁.lockCaller, h₂⟩
    · cases hstep
  case h_5 | h_15 =>
    cases hstep
    exact ⟨hrun.mtx, hrun.sleepMtx⟩
  case h_6 | h_16 =>
    cases hstep
    exact ⟨h₁.unlockCaller, h₂⟩
  case h_9 =>
    split at hstep
    · next hfree =>
      cases hstep
      rw [hfree] at h₂
      exact ⟨h₁, h₂.lockCaller⟩
    · cases hstep
  case h_10 =>
    cases hstep
    exact ⟨hsleep.mtx, hsleep.sleepMtx⟩
  case h_11 d =>
    cases hstep
    cases d with
    | false => exact ⟨h₁, h₂.unlockCaller⟩
    | true => exact ⟨h₁, h₂.unlockCaller⟩
  case h_1 | h_18 => cases hstep
  all_goals
    (try split at hstep) <;> cases hstep <;> exact ⟨h₁, h₂⟩

/-! A notification only moves the timer thread. -/

@[simp] theorem notifyRun_runTimer (s : Timer) : s.notifyRun.runTimer = s.runTimer := by
  unfold notifyRun
  split <;> rfl

@[simp] theorem notifyRun_execute (s : Timer) : s.notifyRun.execute = s.execute := by
  unfold notifyRun
  split <;> rfl

@[simp] theorem notifySleep_runTimer (s : Timer) : s.notifySleep.runTimer = s.runTimer := by
  unfold notifySleep
  split <;> rfl

@[simp] theorem notifySleep_execute (s : Timer) : s.notifySleep.execute = s.execute := by
  unfold notifySleep
  split <;> rfl

theorem Flags.callerStep (h : s.Flags p) (hstep : s.callerStep c p = some (t, q)) :
    t.Flags q := by
  obtain ⟨h₁, h₂, h₃⟩ := h
  unfold Timer.callerStep at hstep
  split at hstep
  case h_11 d =>
    -- only a `stop` inside `destroy` goes on to the `join`
    cases hstep
    cases d with
    | false => exact ⟨fun hq => (by cases hq), fun hq => (by cases hq), h₃⟩
    | true => exact ⟨fun hq => (by cases hq), h₂, h₃⟩
  all_goals
    (try split at hstep) <;> cases hstep
  all_goals
    refine ⟨?_, ?_, ?_⟩ <;>
      simp_all [CallerPoint.started, CallerPoint.stopped, CallerPoint.destroying]

theorem Flags.workerStep (h : s.Flags p) (hstep : s.workerStep expired = some t) : t.Flags p := by
  obtain ⟨h₁, h₂, h₃⟩ := h
  unfold Timer.workerStep at hstep
  split at hstep <;> (try split at hstep) <;> (try split at hstep) <;> cases hstep
  all_goals exact ⟨h₁, h₂, h₃⟩

/-- The timer thread is not between its test of `_runTimer` and its wait while `_mtx`
is free or with a caller. -/
theorem Held.apart (h : s.Held c p) (hp : p.holdsMtx = true ∨ s.mtx = none) :
    s.worker ≠ .testStop ∧ s.worker ≠ .wait := by
  have hnot : s.worker.holdsMtx = false := by
    rw [← Bool.not_eq_true]
    intro hw
    have hmtx := h.mtx.worker hw
    rcases hp with hp | hp
    · rw [h.mtx.caller hp] at hmtx
      cases hmtx
    · rw [hp] at hmtx
      cases hmtx
  constructor
  · intro hw
    rw [hw] at hnot
    cases hnot
  · intro hw
    rw [hw] at hnot
    cases hnot

theorem Waits.workerStep (h : s.Waits p) (hstep : s.workerStep expired = some t) : t.Waits p := by
  obtain ⟨h₁, h₂, h₃, h₄, h₅, h₆⟩ := h
  unfold Timer.workerStep at hstep
  split at hstep <;> (try split at hstep) <;> (try split at hstep) <;> cases hstep
  case h_5 hw =>
    refine ⟨?_, ?_, ?_, ?_, ?_, ?_⟩ <;> grind [goto]
  all_goals
    refine ⟨?_, ?_, ?_, ?_, ?_, ?_⟩ <;> simp_all [goto]

/-- While the timer thread has `_mtx`, no caller sets `_runTimer` or waits to notify. -/
theorem Waits.callerStep (h : s.Waits p) (hheld : s.Held c p) (hflags : s.Flags p)
    (hstep : s.callerStep c p = some (t, q)) : t.Waits q := by
  obtain ⟨h₁, h₂, h₃, h₄, h₅, h₆⟩ := h
  have hapart := hheld.apart
  have hend := hflags.destroying
  unfold Timer.callerStep at hstep
  split at hstep <;> (try split at hstep) <;> cases hstep
  all_goals
    simp only [CallerPoint.holdsMtx, CallerPoint.destroying] at hapart hend
    clear hheld hflags
    refine ⟨?_, ?_, ?_, ?_, ?_, ?_⟩ <;> grind [goto, notifyRun, notifySleep]

/-- Nor is it about to sleep while `_sleepMtx` is free or with a caller. -/
theorem Held.apartSleep (h : s.Held c p) (hp : p.holdsSleepMtx = true ∨ s.sleepMtx = none) :
    s.worker.holdsSleepMtx = false := by
  rw [← Bool.not_eq_true]
  intro hw
  have hmtx := h.sleepMtx.worker hw
  rcases hp with hp | hp
  · rw [h.sleepMtx.caller hp] at hmtx
    cases hmtx
  · rw [hp] at hmtx
    cases hmtx

theorem Sleeps.workerStep (h : s.Sleeps p) (hstep : s.workerStep expired = some t) :
    t.Sleeps p := by
  obtain ⟨h₁, h₂, h₃⟩ := h
  unfold Timer.workerStep at hstep
  split at hstep <;> (try split at hstep) <;> (try split at hstep) <;> cases hstep
  case h_12 hw =>
    refine ⟨?_, ?_, ?_⟩
    · simp_all [goto, WorkerPoint.passed]
    · intro hsleep
      cases hsleep
    · intro _ hchanged
      obtain ⟨d, hd⟩ := h₂ hw hchanged
      exact ⟨d, .inl hd⟩
  all_goals
    refine ⟨?_, ?_, ?_⟩ <;> simp_all [goto, WorkerPoint.passed]

/-- Outside a `stop`, how far the call is does not matter. -/
theorem Sleeps.aside (h : s.Sleeps p)
    (hp : ∀ d, p ≠ .stopChanged d ∧ p ≠ .stopLock d ∧ p ≠ .stopNotify d) : s.Sleeps q := by
  refine ⟨?_, ?_, ?_⟩
  · intro hpassed hrun
    rcases h.passed hpassed hrun with hchanged | ⟨d, hd⟩ | hunlock
    · exact .inl hchanged
    · exact absurd hd (hp d).1
    · exact .inr (.inr hunlock)
  · intro hw hchanged
    obtain ⟨d, hd⟩ := h.sleep hw hchanged
    exact absurd hd (hp d).2.1
  · intro hw hchanged
    obtain ⟨d, hd | hd⟩ := h.asleep hw hchanged
    · exact absurd hd (hp d).2.1
    · exact absurd hd (hp d).2.2

theorem Sleeps.notifyRun (h : s.Sleeps p) : s.notifyRun.Sleeps p := by
  unfold Timer.notifyRun
  split
  · refine ⟨?_, ?_, ?_⟩ <;> intro hw <;> cases hw
  · exact h

/-- The notification wakes a sleeping thread, which then finds `_stateChanged` set. -/
theorem Sleeps.notifySleep {d : Bool} (h : s.Sleeps (.stopNotify d)) :
    s.notifySleep.Sleeps (.stopUnlock d) := by
  unfold Timer.notifySleep
  split
  · next hasleep =>
    refine ⟨?_, ?_, ?_⟩
    · intro _ hrun
      rcases h.passed (by rw [hasleep]; rfl) hrun with hchanged | ⟨e, he⟩ | ⟨hw | hw, -⟩
      · exact .inl hchanged
      · cases he
      · rw [hasleep] at hw
        cases hw
      · rw [hasleep] at hw
        cases hw
    · intro hw
      cases hw
    · intro hw
      cases hw
  · next hawake =>
    refine ⟨?_, ?_, ?_⟩
    · intro hpassed hrun
      rcases h.passed hpassed hrun with hchanged | ⟨e, he⟩ | hunlock
      · exact .inl hchanged
      · cases he
      · exact .inr (.inr hunlock)
    · intro hw hchanged
      obtain ⟨e, he⟩ := h.sleep hw hchanged
      cases he
    · intro hw
      exact absurd hw hawake

theorem Sleeps.callerStep (h : s.Sleeps p) (hheld : s.Held c p) (hflags : s.Flags p)
    (hstep : s.callerStep c p = some (t, q)) : t.Sleeps q := by
  unfold Timer.callerStep at hstep
  split at hstep
  case h_1 | h_18 => cases hstep
  case h_4 =>
    -- `_runTimer` is set
    cases hstep
    have hrun := hflags.started rfl
    refine ⟨?_, ?_, ?_⟩
    · intro _ hcleared
      rw [hrun] at hcleared
      cases hcleared
    · intro _ hchanged
      cases hchanged
    · intro _ hchanged
      cases hchanged
  case h_5 =>
    cases hstep
    exact h.notifyRun.aside (by simp)
  case h_7 d =>
    cases hstep
    obtain ⟨-, h₂, h₃⟩ := h.aside (q := .stopChanged d) (by simp)
    exact ⟨fun _ _ => .inr (.inl ⟨d, rfl⟩), h₂, h₃⟩
  case h_8 d =>
    cases hstep
    exact ⟨fun _ _ => .inl rfl, fun _ _ => ⟨d, rfl⟩, fun _ _ => ⟨d, .inl rfl⟩⟩
  case h_9 d =>
    split at hstep
    · next hfree =>
      cases hstep
      obtain ⟨h₁, h₂, h₃⟩ := h
      refine ⟨?_, ?_, fun _ _ => ⟨d, .inr rfl⟩⟩
      · intro hpassed hrun
        rcases h₁ hpassed hrun with hchanged | ⟨e, he⟩ | hunlock
        · exact .inl hchanged
        · cases he
        · exact .inr (.inr hunlock)
      · intro hw
        have hnot := hheld.apartSleep (.inr hfree)
        have hsleep : s.worker = .sleep := hw
        rw [hsleep] at hnot
        cases hnot
    · cases hstep
  case h_10 d =>
    cases hstep
    exact h.notifySleep
  case h_15 =>
    cases hstep
    exact h.notifyRun.aside (by simp)
  case h_3 =>
    cases hstep
    obtain ⟨-, h₂, h₃⟩ := h.aside (q := .startClear) (by simp)
    refine ⟨?_, h₂, h₃⟩
    intro _ hcleared
    cases hcleared
  case h_12 =>
    cases hstep
    obtain ⟨h₁, h₂, h₃⟩ := h.aside (q := .destroyTest) (by simp)
    refine ⟨?_, h₂, h₃⟩
    intro hpassed hrun
    rcases h₁ hpassed hrun with hchanged | ⟨e, he⟩ | ⟨hw, -⟩
    · exact .inl hchanged
    · cases he
    · exact .inr (.inr ⟨hw, rfl⟩)
  all_goals
    obtain ⟨h₁, h₂, h₃⟩ := h.aside (q := q) (by simp)
    (try split at hstep) <;> cases hstep <;> exact ⟨h₁, h₂, h₃⟩

theorem Calm.workerStep (h : s.Calm c p) (hstep : s.workerStep expired = some t) : t.Calm c p :=
  ⟨h.held.workerStep hstep, h.flags.workerStep hstep, h.waits.workerStep hstep,
    h.sleeps.workerStep hstep⟩

theorem Calm.callerStep (h : s.Calm c p) (hstep : s.callerStep c p = some (t, q)) : t.Calm c q :=
  ⟨h.held.callerStep hstep, h.flags.callerStep hstep, h.waits.callerStep h.held h.flags hstep,
    h.sleeps.callerStep h.held h.flags hstep⟩

/-- A blocked thread wakes up. -/
theorem Calm.wake (h : s.Calm c p) {w : WorkerPoint}
    (hw : s.worker = .waiting ∧ w = .lock ∨ s.worker = .asleep ∧ ∃ b, w = .wake b) :
    (s.goto w).Calm c p := by
  obtain ⟨⟨⟨h₁, h₂, h₃⟩, ⟨h₄, h₅, h₆⟩⟩, ⟨h₇, h₈, h₉⟩, -, ⟨h₁₀, -, -⟩⟩ := h
  refine ⟨⟨⟨?_, ?_, ?_⟩, ⟨?_, ?_, ?_⟩⟩, ⟨h₇, h₈, h₉⟩, ⟨?_, ?_, ?_, ?_, ?_, ?_⟩, ⟨?_, ?_, ?_⟩⟩ <;>
    grind [goto, WorkerPoint.holdsMtx, WorkerPoint.holdsSleepMtx, WorkerPoint.passed]

theorem Calm.notifyRun (h : s.Calm c p) : s.notifyRun.Calm c p := by
  unfold Timer.notifyRun
  split
  · next hwaiting => exact h.wake (.inl ⟨hwaiting, rfl⟩)
  · exact h

theorem Calm.notifySleep (h : s.Calm c p) : s.notifySleep.Calm c p := by
  unfold Timer.notifySleep
  split
  · next hasleep => exact h.wake (.inr ⟨hasleep, false, rfl⟩)
  · exact h

/-- A new call, perhaps of another caller. -/
theorem Calm.call (h : s.Calm c .idle) (d : Nat)
    (hq : q = .startLock ∨ q = .stopRun false ∨ q = .destroyExecute) : s.Calm d q := by
  obtain ⟨⟨⟨h₁, h₂, h₃⟩, ⟨h₄, h₅, h₆⟩⟩, ⟨h₇, h₈, h₉⟩, ⟨h₁₀, h₁₁, h₁₂, h₁₃, h₁₄, h₁₈⟩,
    ⟨h₁₅, h₁₆, h₁₇⟩⟩ := h
  refine ⟨⟨⟨?_, ?_, ?_⟩, ⟨?_, ?_, ?_⟩⟩, ⟨?_, ?_, ?_⟩, ⟨?_, ?_, ?_, ?_, ?_, ?_⟩, ⟨?_, ?_, ?_⟩⟩ <;>
    grind [CallerPoint.holdsMtx, CallerPoint.holdsSleepMtx, CallerPoint.started,
      CallerPoint.stopped, CallerPoint.destroying]

/-! ## Coming to rest -/

/-- The timer thread waits for a start, or has ended if it is to. -/
def AtRest (s : Timer) : Prop := s.worker = if s.execute then .waiting else .exited

/-- The steps of a stopped timer thread until it is at rest. -/
def stepsLeft (execute : Bool) : WorkerPoint → Nat
  | .unlock => if execute then 12 else 2
  | .testBreak => if execute then 11 else 1
  | .callback => if execute then 10 else 6
  | .lockSleep | .wake _ | .elapsed => if execute then 9 else 5
  | .testChanged _ => if execute then 8 else 4
  | .clearChanged => if execute then 7 else 3
  | .unlockSleep => if execute then 6 else 2
  | .testExecute => if execute then 5 else 1
  | .lock => if execute then 4 else 5
  | .testRun => if execute then 3 else 4
  | .testStop => if execute then 2 else 3
  | .wait => if execute then 1 else 0
  | .waiting | .sleep | .asleep | .exited => 0

theorem stepsLeft_le (execute : Bool) (w : WorkerPoint) : stepsLeft execute w ≤ 12 := by
  cases w <;> cases execute <;> simp [stepsLeft]

/-- No call is under way, or a `destroy` waits for the timer thread to end. -/
def Returned (p : CallerPoint) : Prop := p = .idle ∨ p = .join

/-- A stopped timer thread with no call to wait for is at rest, or takes a step that
brings it nearer, whatever the interval is. -/
theorem Calm.progress (h : s.Calm c p) (hp : Returned p) (hrun : s.runTimer = false) :
    s.AtRest ∨ ∃ t, s.workerStep expired = some t := by
  obtain ⟨⟨⟨h₁, h₂, h₃⟩, ⟨h₄, h₅, h₆⟩⟩, ⟨h₇, h₈, h₉⟩, ⟨h₁₀, h₁₁, h₁₂, h₁₃, h₁₄, h₁₈⟩,
    ⟨h₁₅, h₁₆, h₁₇⟩⟩ := h
  have hmtx : s.worker.holdsMtx = false → s.mtx = none := by
    intro hw
    rcases hp with rfl | rfl <;> exact h₃ hw rfl
  have hsleep : s.worker.holdsSleepMtx = false → s.sleepMtx = none := by
    intro hw
    rcases hp with rfl | rfl <;> exact h₆ hw rfl
  have hnone : ∀ d, p ≠ .stopChanged d ∧ p ≠ .stopLock d ∧ p ≠ .stopNotify d := by
    rcases hp with rfl | rfl <;> simp
  have hawake : s.worker ≠ .asleep := by
    intro hasleep
    rcases h₁₅ (by rw [hasleep]; rfl) hrun with hchanged | ⟨d, hd⟩ | ⟨hw | hw, -⟩
    · obtain ⟨d, hd | hd⟩ := h₁₇ hasleep hchanged
      · exact (hnone d).2.1 hd
      · exact (hnone d).2.2 hd
    · exact (hnone d).1 hd
    · rw [hasleep] at hw
      cases hw
    · rw [hasleep] at hw
      cases hw
  by_cases hwaiting : s.worker = .waiting
  · left
    have hexec : s.execute = true := by
      by_contra hne
      rcases hp with rfl | rfl
      · exact hne h₉
      · rcases h₁₄ hwaiting (by simpa using hne) with hq | hq | hq <;> cases hq
    simp [AtRest, hwaiting, hexec]
  by_cases hexited : s.worker = .exited
  · left
    simp [AtRest, hexited, h₁₈ hexited]
  · right
    unfold Timer.workerStep
    split
    case h_2 hw => exact ⟨_, if_pos (hmtx (by rw [hw]; rfl))⟩
    case h_6 hw => exact absurd hw hwaiting
    case h_10 hw => exact ⟨_, if_pos (hsleep (by rw [hw]; rfl))⟩
    case h_13 hw => exact absurd hw hawake
    case h_14 hw => exact ⟨_, if_pos (hsleep (by rw [hw]; rfl))⟩
    case h_18 hw => exact absurd hw hexited
    all_goals exact ⟨_, rfl⟩

theorem Calm.stepsLeft_lt (h : s.Calm c p) (hp : Returned p) (hrun : s.runTimer = false)
    (hstep : s.workerStep expired = some t) :
    t.runTimer = false ∧ t.execute = s.execute ∧
      stepsLeft t.execute t.worker < stepsLeft s.execute s.worker := by
  obtain ⟨-, ⟨h₇, h₈, h₉⟩, ⟨h₁₀, h₁₁, h₁₂, h₁₃, h₁₄, h₁₈⟩, ⟨h₁₅, h₁₆, h₁₇⟩⟩ := h
  unfold Timer.workerStep at hstep
  split at hstep <;> (try split at hstep) <;> (try split at hstep) <;> cases hstep
  all_goals
    refine ⟨hrun, rfl, ?_⟩
    grind [goto, Returned, stepsLeft, WorkerPoint.passed, CallerPoint.destroying]

end Timer

namespace TimerState

open Timer

variable {s t : TimerState} {c : Nat} {ls ms : List Label}

/-- The calls do not overlap: a new one comes only while no other is under way. -/
def Alone (s : TimerState) : Label → Prop
  | .start _ | .stop _ | .destroy _ => ∀ c, s.callers c = .idle
  | _ => True

/-- No call but that of `c` is under way. -/
def Quiet (c : Nat) (s : TimerState) : Prop :=
  (∀ d, d ≠ c → s.callers d = .idle) ∧ s.timer.Calm c (s.callers c)

theorem Quiet.step {l : Label} (h : s.Quiet c) (hstep : Step s l t) (hok : s.Alone l) :
    ∃ d, t.Quiet d := by
  obtain ⟨hothers, hcalm⟩ := h
  obtain ⟨d, p, hidle, hp, rfl, hl⟩ | ⟨d, timer, p, -, hcaller, rfl⟩ |
    ⟨expired, timer, -, hworker, rfl⟩ | ⟨hasleep, rfl⟩ | rfl := step_cases hstep
  · -- a new call comes while all callers are idle
    have hall : ∀ e, s.callers e = .idle := by
      rcases hl with rfl | rfl | rfl <;> exact hok
    refine ⟨d, fun e he => ?_, ?_⟩
    · show Function.update s.callers d p e = .idle
      rw [Function.update_of_ne he, hall e]
    · show s.timer.Calm d (Function.update s.callers d p d)
      rw [Function.update_self]
      rw [hall c] at hcalm
      exact hcalm.call d hp
  · -- only the caller in a call can take a step
    obtain rfl : d = c := by
      by_contra hne
      rw [hothers d hne] at hcaller
      cases hcaller
    refine ⟨d, fun e he => ?_, ?_⟩
    · show Function.update s.callers d p e = .idle
      rw [Function.update_of_ne he, hothers e he]
    · show timer.Calm d (Function.update s.callers d p d)
      rw [Function.update_self]
      exact hcalm.callerStep hcaller
  · exact ⟨c, hothers, hcalm.workerStep hworker⟩
  · exact ⟨c, hothers, hcalm.wake (.inr ⟨hasleep, true, rfl⟩)⟩
  · exact ⟨c, hothers, hcalm.notifyRun.notifySleep⟩

theorem quiet_of_run (h : Run (Guarded Step Alone) create ls s) : ∃ c, s.Quiet c := by
  refine h.invariant (I := fun s => ∃ c, s.Quiet c) ?_ ⟨0, fun _ _ => rfl, calm_create 0⟩
  rintro s l t ⟨c, hc⟩ ⟨hstep, hok⟩
  exact hc.step hstep hok

/-- `_runTimer` is cleared, and every call has returned, except a `destroy` that
waits for the timer thread to end. -/
def Stopped (s : TimerState) : Prop :=
  s.timer.runTimer = false ∧ ∀ c, Returned (s.callers c)

/-- The steps of a stopped timer thread are no more than those to its rest. -/
theorem length_le_stepsLeft (h : s.Quiet c) (hs : s.Stopped) (hms : Run Step s ms t)
    (hworker : ∀ l ∈ ms, ∃ expired, l = .worker expired) :
    t.Quiet c ∧ t.Stopped ∧
      ms.length + stepsLeft t.timer.execute t.timer.worker ≤
        stepsLeft s.timer.execute s.timer.worker := by
  induction hms with
  | nil s => exact ⟨h, hs, by simp⟩
  | @cons s u t l ms hstep hrest ih =>
    obtain ⟨expired, rfl⟩ := hworker l (List.mem_cons_self ..)
    obtain ⟨timer, htimer, rfl⟩ := Option.map_eq_some_iff.mp hstep
    obtain ⟨hrun, hexec, hlt⟩ := h.2.stepsLeft_lt (hs.2 c) hs.1 htimer
    have hquiet : Quiet c { s with timer := timer } := ⟨h.1, h.2.workerStep htimer⟩
    obtain ⟨hq, hstopped, hle⟩ := ih hquiet ⟨hrun, hs.2⟩ fun l hl =>
      hworker l (List.mem_cons_of_mem _ hl)
    refine ⟨hq, hstopped, ?_⟩
    simp only [List.length_cons]
    simp only at hle
    omega

/-- **A stopped timer comes to rest.**  Where the calls did not overlap and the last
one has returned, or is a `destroy` that waits for the thread to end, the thread takes
at most 12 steps, whatever the interval is, and can go on until it is at rest. -/
theorem comes_to_rest (h : Run (Guarded Step Alone) create ls s) (hs : s.Stopped)
    (hms : Run Step s ms t) (hworker : ∀ l ∈ ms, ∃ expired, l = .worker expired) :
    ms.length ≤ 12 ∧ (t.timer.AtRest ∨ ∀ expired, ∃ u, Step t (.worker expired) u) := by
  obtain ⟨c, hquiet⟩ := quiet_of_run h
  obtain ⟨hq, hstopped, hle⟩ := length_le_stepsLeft hquiet hs hms hworker
  have hbound := stepsLeft_le s.timer.execute s.timer.worker
  refine ⟨by omega, ?_⟩
  by_cases hrest : t.timer.AtRest
  · exact .inl hrest
  · right
    intro expired
    obtain ⟨timer, htimer⟩ := (hq.2.progress (hstopped.2 c) hstopped.1).resolve_left hrest
    exact ⟨_, Option.map_eq_some_iff.mpr ⟨timer, htimer, rfl⟩⟩

/-- The timer is started, and stopped after the callback has begun; the thread passes
by the sleep and waits for the next start. -/
theorem rests_after_stop :
    ∃ s t : TimerState, s.timer.worker = .lockSleep ∧
      Run Step s (List.replicate 9 (.worker false)) t ∧ t.timer.worker = .waiting ∧
      (List.replicate 9 (Label.worker false)).length ≤ 12 := by
  have hstart : ∃ s, Run (Guarded Step Alone) create
      [.start 0, .caller 0, .caller 0, .caller 0, .caller 0, .caller 0, .worker false,
        .worker false, .worker false, .worker false, .worker false, .worker false] s ∧
      (∀ c, s.callers c = .idle) ∧
      s.timer = { create.timer with runTimer := true, worker := .lockSleep, late := 1 } := by
    refine ⟨_, .cons ⟨rfl, fun _ => rfl⟩ <| .cons ⟨rfl, trivial⟩ <| .cons ⟨rfl, trivial⟩ <|
      .cons ⟨rfl, trivial⟩ <| .cons ⟨rfl, trivial⟩ <| .cons ⟨rfl, trivial⟩ <|
      .cons ⟨rfl, trivial⟩ <| .cons ⟨rfl, trivial⟩ <| .cons ⟨rfl, trivial⟩ <|
      .cons ⟨rfl, trivial⟩ <| .cons ⟨rfl, trivial⟩ <| .single ⟨rfl, trivial⟩, ?_, rfl⟩
    intro c
    by_cases hc : c = 0
    · subst hc
      rfl
    · simp [hc, create]
  obtain ⟨⟨timer, callers⟩, hrun, hidle, rfl⟩ := hstart
  have hfirst : callers 0 = .idle := hidle 0
  have hstop : ∃ s, Run (Guarded Step Alone)
      ⟨{ create.timer with runTimer := true, worker := .lockSleep, late := 1 }, callers⟩
      [.stop 0, .caller 0, .caller 0, .caller 0, .caller 0, .caller 0] s ∧
      (∀ c, s.callers c = .idle) ∧
      s.timer = { create.timer with stateChanged := true, worker := .lockSleep } := by
    refine ⟨_, .cons ⟨if_pos hfirst, hidle⟩ <| .cons ⟨rfl, trivial⟩ <| .cons ⟨rfl, trivial⟩ <|
      .cons ⟨rfl, trivial⟩ <| .cons ⟨rfl, trivial⟩ <| .single ⟨rfl, trivial⟩, ?_, rfl⟩
    intro c
    by_cases hc : c = 0
    · subst hc
      rfl
    · simpa [hc] using hidle c
  obtain ⟨⟨timer, callers'⟩, hrun', hidle', rfl⟩ := hstop
  have hrest : ∃ t, Run Step
      ⟨{ create.timer with stateChanged := true, worker := .lockSleep }, callers'⟩
      (List.replicate 9 (.worker false)) t ∧ t.timer.worker = .waiting :=
    ⟨_, .cons rfl <| .cons rfl <| .cons rfl <| .cons rfl <| .cons rfl <| .cons rfl <|
      .cons rfl <| .cons rfl <| .single rfl, rfl⟩
  obtain ⟨t, hms, ht⟩ := hrest
  refine ⟨_, t, rfl, hms, ht, ?_⟩
  have hworker : ∀ l ∈ List.replicate 9 (Label.worker false), ∃ expired, l = .worker expired :=
    fun l hl => ⟨false, List.eq_of_mem_replicate hl⟩
  exact (comes_to_rest (hrun.append hrun') ⟨rfl, fun c => .inl (hidle' c)⟩ hms hworker).1

end TimerState

end IntervalTimer

end PiScan.Util

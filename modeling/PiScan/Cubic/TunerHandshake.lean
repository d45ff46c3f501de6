import Mathlib.Logic.Function.Basic
import PiScan.Lib.Run

/-!
# Sending the tuner to a frequency

`SDRThread::setFrequency` stores the frequency, raises a flag and waits for a message of the
SDR thread, which sends the device to the frequency, lowers the flag and tries to lock the
message.  The message is never taken back.

* `tuned`: as long as the flag is not raised between the thread's tuning and its lowering of
  the flag, the device is at the frequency stored last, once the flag is lowered;
* `retune_dropped`: a call that falls between them is lost, until another one is made;
* `missed_for_ever`: where the first try to lock fails, the callers wait for ever;
* `never_missed`: otherwise none does;
* `no_wait_after_message`: after the first message no call waits at all, and one can return
  before the device is sent anywhere.
-/

namespace PiScan.Cubic.TunerHandshake

open Runs

/-- What a caller does next in `setFrequency`. -/
inductive CallerStep
  | away
  | store (freq : Int)
  | raise
  | lock
  | test
  | waiting
  | unlock
  deriving DecidableEq, Repr

/-- What the thread does next in `updateSettings`. -/
inductive ThreadStep
  | test
  | tune
  | clear
  | tryLock
  | set
  | unlock
  | notify
  deriving DecidableEq, Repr

structure State (τ : Type) where
  sampleRate : Int
  frequency : Int
  freqChanged : Bool
  msgAvailable : Bool
  locked : Bool
  device : Int
  caller : τ → CallerStep
  thread : ThreadStep

/-- `notify_one` wakes a caller, if one waits; callers may wake for no reason as well. -/
inductive Label (τ : Type)
  | call (u : τ) (freq : Int)
  | run (u : τ)
  | spurious (u : τ)
  | thread
  | notify (u : Option τ)
  deriving DecidableEq

/-- The call has not raised the flag yet. -/
def CallerStep.early : CallerStep → Bool
  | .store _ | .raise => true
  | .away | .lock | .test | .waiting | .unlock => false

/-- The call has not been let through yet. -/
def CallerStep.inside : CallerStep → Bool
  | .lock | .test | .waiting => true
  | .away | .store _ | .raise | .unlock => false

variable {τ : Type}

def Label.Calls : Label τ → Prop
  | .call _ _ => True
  | .run _ | .spurious _ | .thread | .notify _ => False

variable [DecidableEq τ]

namespace State

def start (sampleRate frequency : Int) : State τ :=
  ⟨sampleRate, frequency, false, false, false, frequency, fun _ => .away, .test⟩

def goto (s : State τ) (u : τ) (v : CallerStep) : State τ :=
  { s with caller := Function.update s.caller u v }

def setFrequency (s : State τ) (u : τ) : Option (State τ) :=
  match s.caller u with
  | .store freq => some ({ s with frequency := freq }.goto u .raise)
  | .raise => some ({ s with freqChanged := true }.goto u .lock)
  | .lock => if s.locked then none else some ({ s with locked := true }.goto u .test)
  | .test =>
    if s.msgAvailable then some (s.goto u .unlock)
    else some ({ s with locked := false }.goto u .waiting)
  | .unlock => some ({ s with locked := false }.goto u .away)
  | .away | .waiting => none

def updateSettings (s : State τ) : Option (State τ) :=
  match s.thread with
  | .test => some { s with thread := if s.freqChanged then .tune else .test }
  | .tune => some { s with device := s.frequency, thread := .clear }
  | .clear => some { s with freqChanged := false, thread := .tryLock }
  | .tryLock =>
    if s.locked then some { s with thread := .notify }
    else some { s with locked := true, thread := .set }
  | .set => some { s with msgAvailable := true, thread := .unlock }
  | .unlock => some { s with locked := false, thread := .notify }
  | .notify => none

def next (s : State τ) : Label τ → Option (State τ)
  | .call u freq =>
    if s.caller u = .away then
      some (s.goto u (.store (max freq (s.sampleRate.tdiv 2))))
    else none
  | .run u => s.setFrequency u
  | .spurious u => if s.caller u = .waiting then some (s.goto u .lock) else none
  | .thread => s.updateSettings
  | .notify none => if s.thread = .notify then some { s with thread := .test } else none
  | .notify (some u) =>
    if s.thread = .notify ∧ s.caller u = .waiting then
      some ({ s with thread := .test }.goto u .lock)
    else none

/-- A notification is lost only where nobody waits. -/
def Step (s : State τ) (l : Label τ) (t : State τ) : Prop :=
  s.next l = some t ∧ (l = .notify none → ∀ u, s.caller u ≠ .waiting)

/-- What a step can do. -/
inductive Moves (s : State τ) : Label τ → State τ → Prop
  | call (u : τ) (freq : Int) (h : s.caller u = .away) :
      Moves s (.call u freq) (s.goto u (.store (max freq (s.sampleRate.tdiv 2))))
  | store (u : τ) (freq : Int) (h : s.caller u = .store freq) :
      Moves s (.run u) ({ s with frequency := freq }.goto u .raise)
  | raise (u : τ) (h : s.caller u = .raise) :
      Moves s (.run u) ({ s with freqChanged := true }.goto u .lock)
  | lock (u : τ) (h : s.caller u = .lock) (hfree : s.locked = false) :
      Moves s (.run u) ({ s with locked := true }.goto u .test)
  | pass (u : τ) (h : s.caller u = .test) (hmsg : s.msgAvailable = true) :
      Moves s (.run u) (s.goto u .unlock)
  | wait (u : τ) (h : s.caller u = .test) (hmsg : s.msgAvailable = false) :
      Moves s (.run u) ({ s with locked := false }.goto u .waiting)
  | leave (u : τ) (h : s.caller u = .unlock) :
      Moves s (.run u) ({ s with locked := false }.goto u .away)
  | spurious (u : τ) (h : s.caller u = .waiting) : Moves s (.spurious u) (s.goto u .lock)
  | test (h : s.thread = .test) :
      Moves s .thread { s with thread := if s.freqChanged then .tune else .test }
  | tune (h : s.thread = .tune) : Moves s .thread { s with device := s.frequency, thread := .clear }
  | clear (h : s.thread = .clear) :
      Moves s .thread { s with freqChanged := false, thread := .tryLock }
  | miss (h : s.thread = .tryLock) (htaken : s.locked = true) :
      Moves s .thread { s with thread := .notify }
  | tryLock (h : s.thread = .tryLock) (hfree : s.locked = false) :
      Moves s .thread { s with locked := true, thread := .set }
  | set (h : s.thread = .set) : Moves s .thread { s with msgAvailable := true, thread := .unlock }
  | unlock (h : s.thread = .unlock) :
      Moves s .thread { s with locked := false, thread := .notify }
  | notify (u : τ) (h : s.thread = .notify) (hwait : s.caller u = .waiting) :
      Moves s (.notify (some u)) ({ s with thread := .test }.goto u .lock)
  | notifyNone (h : s.thread = .notify) : Moves s (.notify none) { s with thread := .test }

variable {s t : State τ} {l : Label τ} {u w : τ} {v : CallerStep}

theorem goto_self (s : State τ) (u : τ) (v : CallerStep) : (s.goto u v).caller u = v :=
  Function.update_self ..

theorem goto_other (s : State τ) (v : CallerStep) (h : w ≠ u) :
    (s.goto u v).caller w = s.caller w :=
  Function.update_of_ne h ..

theorem Step.moves (h : Step s l t) : Moves s l t := by
  obtain ⟨hnext, -⟩ := h
  cases l with
  | call u freq =>
    simp only [next] at hnext
    split at hnext
    · next haway =>
      cases hnext
      exact .call u freq haway
    · cases hnext
  | run u =>
    simp only [next, setFrequency] at hnext
    split at hnext
    · next freq hu =>
      cases hnext
      exact .store u freq hu
    · next hu =>
      cases hnext
      exact .raise u hu
    · next hu =>
      split at hnext
      · cases hnext
      · next hfree =>
        cases hnext
        exact .lock u hu (Bool.eq_false_iff.mpr hfree)
    · next hu =>
      split at hnext
      · next hmsg =>
        cases hnext
        exact .pass u hu hmsg
      · next hmsg =>
        cases hnext
        exact .wait u hu (Bool.eq_false_iff.mpr hmsg)
    · next hu =>
      cases hnext
      exact .leave u hu
    · cases hnext
    · cases hnext
  | spurious u =>
    simp only [next] at hnext
    split at hnext
    · next hwait =>
      cases hnext
      exact .spurious u hwait
    · cases hnext
  | thread =>
    simp only [next, updateSettings] at hnext
    split at hnext
    · next h =>
      cases hnext
      exact .test h
    · next h =>
      cases hnext
      exact .tune h
    · next h =>
      cases hnext
      exact .clear h
    · next h =>
      split at hnext
      · next htaken =>
        cases hnext
        exact .miss h htaken
      · next hfree =>
        cases hnext
        exact .tryLock h (Bool.eq_false_iff.mpr hfree)
    · next h =>
      cases hnext
      exact .set h
    · next h =>
      cases hnext
      exact .unlock h
    · cases hnext
  | notify u =>
    cases u with
    | none =>
      simp only [next] at hnext
      split at hnext
      · next h =>
        cases hnext
        exact .notifyNone h
      · cases hnext
    | some u =>
      simp only [next] at hnext
      split at hnext
      · next h =>
        cases hnext
        exact .notify u h.1 h.2
      · cases hnext

/-- The state after the steps `ls`, if they can be taken and meet `Ok`. -/
def after (Ok : State τ → Label τ → Prop) [∀ s l, Decidable (Ok s l)] (s : State τ) :
    List (Label τ) → Option (State τ)
  | [] => some s
  | l :: ls =>
    if Ok s l ∧ l ≠ .notify none then
      match s.next l with
      | some t => after Ok t ls
      | none => none
    else none

theorem run_of_after {Ok : State τ → Label τ → Prop} [∀ s l, Decidable (Ok s l)]
    {ls : List (Label τ)} (h : s.after Ok ls = some t) : Run (Guarded Step Ok) s ls t := by
  induction ls generalizing s with
  | nil =>
    cases h
    exact .nil _
  | cons l ls ih =>
    simp only [after] at h
    split at h
    · next hok =>
      split at h
      · next r hr => exact .cons ⟨⟨hr, fun hl => absurd hl hok.2⟩, hok.1⟩ (ih h)
      · cases h
    · cases h

/-! ## Where the device is -/

/-- No caller raises the flag where the thread is about to lower it. -/
def Apart (s : State τ) : Label τ → Prop
  | .run u => s.caller u = .raise → s.thread ≠ .clear
  | .call _ _ | .spurious _ | .thread | .notify _ => True

instance (s : State τ) (l : Label τ) : Decidable (s.Apart l) :=
  match l with
  | .run u => inferInstanceAs (Decidable (s.caller u = .raise → s.thread ≠ .clear))
  | .call _ _ | .spurious _ | .thread | .notify _ => isTrue trivial

/-- The device is at the frequency stored last, or will be sent there. -/
def Follows (s : State τ) : Prop :=
  (s.freqChanged = true ∧ s.thread ≠ .clear) ∨ (∃ u, s.caller u = .raise) ∨
    s.device = s.frequency

/-- A caller that moves is not the one that is about to raise the flag. -/
theorem raise_goto (h : ∃ w, s.caller w = .raise) (hu : s.caller u ≠ .raise) :
    ∃ w, (s.goto u v).caller w = .raise := by
  obtain ⟨w, hw⟩ := h
  have hne : w ≠ u := by
    rintro rfl
    exact hu hw
  exact ⟨w, (goto_other s v hne).trans hw⟩

theorem Follows.goto (h : s.Follows) (hu : s.caller u ≠ .raise) : (s.goto u v).Follows := by
  rcases h with hchanged | hraise | hdevice
  · exact .inl hchanged
  · exact .inr (.inl (raise_goto hraise hu))
  · exact .inr (.inr hdevice)

theorem Follows.step (h : s.Follows) (hm : Moves s l t) (happart : s.Apart l) : t.Follows := by
  cases hm with
  | call u freq hu => exact h.goto (by simp [hu])
  | store u freq hu => exact .inr (.inl ⟨u, goto_self _ u _⟩)
  | raise u hu => exact .inl ⟨rfl, happart hu⟩
  | lock u hu hfree => exact Follows.goto (s := { s with locked := true }) h (by simp [hu])
  | pass u hu hmsg => exact h.goto (by simp [hu])
  | wait u hu hmsg => exact Follows.goto (s := { s with locked := false }) h (by simp [hu])
  | leave u hu => exact Follows.goto (s := { s with locked := false }) h (by simp [hu])
  | spurious u hu => exact h.goto (by simp [hu])
  | test htest =>
    rcases h with ⟨hchanged, -⟩ | hrest
    · exact .inl ⟨hchanged, by simp [hchanged]⟩
    · exact .inr hrest
  | tune htune => exact .inr (.inr rfl)
  | clear hclear => exact .inr (h.resolve_left fun hboth => hboth.2 hclear)
  | miss htry htaken => exact h.imp_left fun hboth => ⟨hboth.1, by simp⟩
  | tryLock htry hfree => exact h.imp_left fun hboth => ⟨hboth.1, by simp⟩
  | set hset => exact h.imp_left fun hboth => ⟨hboth.1, by simp⟩
  | unlock hunlock => exact h.imp_left fun hboth => ⟨hboth.1, by simp⟩
  | notify u hnotify hwait =>
    have hmoved : Follows { s with thread := .test } :=
      h.imp_left fun hboth => ⟨hboth.1, by simp⟩
    exact hmoved.goto (by simp [hwait])
  | notifyNone hnotify => exact h.imp_left fun hboth => ⟨hboth.1, by simp⟩

/-- **The tuner is at the frequency stored last**, once the flag is lowered and nobody is
about to raise it. -/
theorem tuned {sampleRate frequency : Int} {ls : List (Label τ)}
    (h : Run (Guarded Step Apart) (start sampleRate frequency) ls s)
    (hchanged : s.freqChanged = false) (hraise : ∀ u, s.caller u ≠ .raise) :
    s.device = s.frequency := by
  have hfollows : s.Follows := by
    refine h.invariant (I := Follows) ?_ (.inr (.inr rfl))
    rintro s l t hs ⟨hstep, happart⟩
    exact hs.step hstep.moves happart
  rcases hfollows with ⟨hup, -⟩ | ⟨u, hu⟩ | hdevice
  · rw [hchanged] at hup
    cases hup
  · exact absurd hu (hraise u)
  · exact hdevice

/-- A call, and the thread until it has lowered the flag. -/
theorem tuned_first :
    ∃ s : State Unit, s.frequency = 100000000 ∧ s.device = s.frequency := by
  have hafter : ∃ s : State Unit, (start 2000000 0 : State Unit).after Apart
      [.call () 100000000, .run (), .run (), .thread, .thread, .thread] = some s ∧
      s.frequency = 100000000 ∧ s.freqChanged = false ∧ s.caller () = .lock :=
    ⟨_, rfl, rfl, rfl, rfl⟩
  obtain ⟨s, hs, hfreq, hlow, hcaller⟩ := hafter
  refine ⟨s, hfreq, tuned (run_of_after hs) hlow ?_⟩
  intro u
  rw [show s.caller u = .lock from hcaller]
  simp

/-- All calls have raised their flag. -/
def Raised (s : State τ) : Prop := ∀ u, (s.caller u).early = false

theorem Raised.goto (h : s.Raised) (hv : v.early = false) : (s.goto u v).Raised := by
  intro w
  by_cases hw : w = u
  · rw [hw, goto_self]
    exact hv
  · rw [goto_other s v hw]
    exact h w

theorem Raised.step (h : s.Raised) (hm : Moves s l t) (hl : ¬ Label.Calls l) :
    t.Raised ∧ t.frequency = s.frequency ∧ (s.freqChanged = false → t.freqChanged = false) := by
  cases hm with
  | call u freq hu => exact absurd trivial hl
  | store u freq hu =>
    have hearly := h u
    rw [hu] at hearly
    cases hearly
  | raise u hu =>
    have hearly := h u
    rw [hu] at hearly
    cases hearly
  | lock u hu hfree => exact ⟨Raised.goto (s := { s with locked := true }) h rfl, rfl, id⟩
  | pass u hu hmsg => exact ⟨h.goto rfl, rfl, id⟩
  | wait u hu hmsg => exact ⟨Raised.goto (s := { s with locked := false }) h rfl, rfl, id⟩
  | leave u hu => exact ⟨Raised.goto (s := { s with locked := false }) h rfl, rfl, id⟩
  | spurious u hu => exact ⟨h.goto rfl, rfl, id⟩
  | clear hclear => exact ⟨h, rfl, fun _ => rfl⟩
  | notify u hnotify hwait =>
    exact ⟨Raised.goto (s := { s with thread := .test }) h rfl, rfl, id⟩
  | test | tune | miss | tryLock | set | unlock | notifyNone => exact ⟨h, rfl, id⟩

/-- The device is at `k`, and the flag is about to be lowered or has been. -/
structure Dropped (k f : Int) (s : State τ) : Prop where
  raised : s.Raised
  device : s.device = k
  frequency : s.frequency = f
  lowered : s.thread = .clear ∨ s.freqChanged = false ∧ s.thread ≠ .tune

theorem Dropped.step {k f : Int} (h : s.Dropped k f) (hm : Moves s l t) (hl : ¬ Label.Calls l) :
    t.Dropped k f := by
  obtain ⟨hraised, hfreq, hdown⟩ := h.raised.step hm hl
  have hfrequency := hfreq.trans h.frequency
  cases hm with
  | call u freq hu => exact absurd trivial hl
  | store | raise | lock | pass | wait | leave | spurious =>
    exact ⟨hraised, h.device, hfrequency, h.lowered.imp id fun hboth => ⟨hdown hboth.1, hboth.2⟩⟩
  | test htest =>
    obtain ⟨hlow, -⟩ := h.lowered.resolve_left (by simp [htest])
    exact ⟨hraised, h.device, hfrequency, .inr ⟨hlow, by simp [hlow]⟩⟩
  | tune htune =>
    rcases h.lowered with hclear | ⟨-, hne⟩
    · rw [htune] at hclear
      cases hclear
    · exact absurd htune hne
  | clear hclear => exact ⟨hraised, h.device, hfrequency, .inr ⟨rfl, by simp⟩⟩
  | miss hthread | tryLock hthread | set hthread | unlock hthread | notify u hthread
  | notifyNone hthread =>
    obtain ⟨hlow, -⟩ := h.lowered.resolve_left (by simp [hthread])
    exact ⟨hraised, h.device, hfrequency, .inr ⟨hlow, by simp [goto]⟩⟩

/-- **A retune of the tuner can be dropped.**  The thread has sent the device to its
frequency and not yet lowered the flag, and all calls have raised it.  Until another one is
made, the device stays where it is, even if a call has stored a frequency since. -/
theorem retune_dropped {ls : List (Label τ)} (hclear : s.thread = .clear) (hraised : s.Raised)
    (h : Run Step s ls t) (hls : ∀ l ∈ ls, ¬ Label.Calls l) :
    t.device = s.device ∧ t.frequency = s.frequency ∧
      (t.thread ≠ .clear → t.freqChanged = false) := by
  have hdropped : t.Dropped s.device s.frequency := by
    refine h.invariant_on (I := fun t => t.Dropped s.device s.frequency)
      (P := fun l => ¬ Label.Calls l) ?_ hls ⟨hraised, rfl, rfl, .inl hclear⟩
    intro s l t hl hs hstep
    exact hs.step hstep.moves hl
  refine ⟨hdropped.device, hdropped.frequency, fun hne => ?_⟩
  exact (hdropped.lowered.resolve_left hne).1

/-- The second caller stores and raises while the thread comes from tuning for the first. -/
theorem retune_dropped_second :
    ∃ s t : State Bool, Run Step s [.thread] t ∧ t.device = 100000000 ∧
      t.frequency = 101000000 := by
  have hafter : ∃ s t : State Bool, (start 2000000 0 : State Bool).after (fun _ _ => True)
      [.call false 100000000, .run false, .run false, .thread, .thread,
        .call true 101000000, .run true, .run true] = some s ∧
      s.after (fun _ _ => True) [.thread] = some t ∧ s.thread = .clear ∧
      s.caller false = .lock ∧ s.caller true = .lock ∧ s.device = 100000000 ∧
      s.frequency = 101000000 := ⟨_, _, rfl, rfl, rfl, rfl, rfl, rfl, rfl⟩
  obtain ⟨s, t, -, ht, hthread, hfalse, htrue, hdevice, hfreq⟩ := hafter
  have hraised : s.Raised := by
    intro u
    cases u with
    | false => rw [hfalse]; rfl
    | true => rw [htrue]; rfl
  have hrun := (run_of_after ht).of_guarded
  obtain ⟨hkeep, hstored, -⟩ := retune_dropped hthread hraised hrun (by simp [Label.Calls])
  exact ⟨s, t, hrun, hkeep.trans hdevice, hstored.trans hfreq⟩

/-! ## Who waits -/

/-- There is no message, and none under way. -/
structure Missed (s : State τ) : Prop where
  raised : s.Raised
  message : s.msgAvailable = false
  changed : s.freqChanged = false
  thread : s.thread = .test ∨ s.thread = .notify

theorem inside_goto {s : State τ} (hv : v.inside = true) (hw : (s.caller w).inside = true) :
    ((s.goto u v).caller w).inside = true := by
  by_cases heq : w = u
  · rw [heq, goto_self]
    exact hv
  · rw [goto_other s v heq]
    exact hw

theorem Missed.step (h : s.Missed) (hm : Moves s l t) (hl : ¬ Label.Calls l) :
    t.Missed ∧ ∀ w, (s.caller w).inside = true → (t.caller w).inside = true := by
  obtain ⟨hraised, -, hdown⟩ := h.raised.step hm hl
  have hchanged := hdown h.changed
  cases hm with
  | call u freq hu => exact absurd trivial hl
  | store u freq hu =>
    have hearly := h.raised u
    rw [hu] at hearly
    cases hearly
  | raise u hu => cases hchanged
  | lock u hu hfree =>
    exact ⟨⟨hraised, h.message, hchanged, h.thread⟩, fun w hw => inside_goto rfl hw⟩
  | pass u hu hmsg =>
    rw [h.message] at hmsg
    cases hmsg
  | wait u hu hmsg =>
    exact ⟨⟨hraised, h.message, hchanged, h.thread⟩, fun w hw => inside_goto rfl hw⟩
  | leave u hu =>
    refine ⟨⟨hraised, h.message, hchanged, h.thread⟩, fun w hw => ?_⟩
    have hne : w ≠ u := by
      rintro rfl
      rw [hu] at hw
      cases hw
    rw [goto_other _ _ hne]
    exact hw
  | spurious u hu =>
    exact ⟨⟨hraised, h.message, hchanged, h.thread⟩, fun w hw => inside_goto rfl hw⟩
  | test htest =>
    exact ⟨⟨hraised, h.message, hchanged, .inl (by simp [h.changed])⟩, fun w hw => hw⟩
  | tune hthread | clear hthread | miss hthread | tryLock hthread | set hthread
  | unlock hthread =>
    rcases h.thread with htest | hnotify
    · rw [hthread] at htest
      cases htest
    · rw [hthread] at hnotify
      cases hnotify
  | notify u hthread hwait =>
    exact ⟨⟨hraised, h.message, hchanged, .inl rfl⟩, fun w hw => inside_goto rfl hw⟩
  | notifyNone hthread => exact ⟨⟨hraised, h.message, hchanged, .inl rfl⟩, fun w hw => hw⟩

/-- **Callers can wait for ever.**  The thread finds the lock taken when it brings its first
message, and the flag has been lowered.  Until another call is made, no call that is in
`setFrequency` then, beyond raising the flag, returns. -/
theorem missed_for_ever {ls : List (Label τ)} (hthread : s.thread = .tryLock)
    (htaken : s.locked = true) (hmessage : s.msgAvailable = false)
    (hchanged : s.freqChanged = false) (hraised : s.Raised)
    (h : Run Step s (.thread :: ls) t) (hls : ∀ l ∈ ls, ¬ Label.Calls l) (u : τ)
    (hu : (s.caller u).inside = true) : (t.caller u).inside = true := by
  obtain _ | ⟨hstep, hrun⟩ := h
  obtain ⟨hnext, -⟩ := hstep
  simp only [next, updateSettings, hthread, htaken, if_true, Option.some.injEq] at hnext
  subst hnext
  have hmissed : Missed { s with locked := true, thread := .notify } :=
    ⟨hraised, hmessage, hchanged, .inr rfl⟩
  have hboth : t.Missed ∧ (t.caller u).inside = true := by
    refine hrun.invariant_on (I := fun t => t.Missed ∧ (t.caller u).inside = true)
      (P := fun l => ¬ Label.Calls l) ?_ hls ⟨hmissed, hu⟩
    rintro r l t hl ⟨hr, hin⟩ hstep
    obtain ⟨ht, hstill⟩ := hr.step hstep.moves hl
    exact ⟨ht, hstill u hin⟩
  exact hboth.2

/-- The only caller has taken the lock to test for the message, and waits from then on. -/
theorem missed_for_ever_first :
    ∃ s t : State Unit, (s.caller ()).inside = true ∧
      Run Step s [.thread, .run (), .notify (some ()), .run (), .run (), .thread] t ∧
      (t.caller ()).inside = true := by
  have hafter : ∃ s t : State Unit, (start 2000000 0 : State Unit).after (fun _ _ => True)
      [.call () 100000000, .run (), .run (), .thread, .thread, .thread, .run ()] = some s ∧
      s.after (fun _ _ => True)
        [.thread, .run (), .notify (some ()), .run (), .run (), .thread] = some t ∧
      s.thread = .tryLock ∧ s.locked = true ∧ s.msgAvailable = false ∧
      s.freqChanged = false ∧ s.caller () = .test :=
    ⟨_, _, rfl, rfl, rfl, rfl, rfl, rfl, rfl⟩
  obtain ⟨s, t, -, ht, hthread, htaken, hmsg, hlow, hcaller⟩ := hafter
  have hraised : s.Raised := by
    intro u
    rw [show s.caller u = .test from hcaller]
    rfl
  have hinside : (s.caller ()).inside = true := by
    rw [hcaller]
    rfl
  have hrun := (run_of_after ht).of_guarded
  exact ⟨s, t, hinside, hrun, missed_for_ever hthread htaken hmsg hlow hraised hrun
    (by simp [Label.Calls]) () hinside⟩

/-- The thread never finds the lock taken. -/
def Free (s : State τ) : Label τ → Prop
  | .thread => s.thread = .tryLock → s.locked = false
  | .call _ _ | .run _ | .spurious _ | .notify _ => True

instance (s : State τ) (l : Label τ) : Decidable (s.Free l) :=
  match l with
  | .thread => inferInstanceAs (Decidable (s.thread = .tryLock → s.locked = false))
  | .call _ _ | .run _ | .spurious _ | .notify _ => isTrue trivial

/-- There is a message or one will come. -/
def Coming (s : State τ) : Prop :=
  s.freqChanged = true ∨ s.msgAvailable = true ∨ s.thread = .tryLock ∨ s.thread = .set

omit [DecidableEq τ] in
/-- The message still comes where the thread goes on, unless it was about to bring it. -/
theorem Coming.moved {step : ThreadStep} {device : Int} {locked : Bool} (h : s.Coming)
    (htry : s.thread ≠ .tryLock) (hset : s.thread ≠ .set) :
    Coming { s with device := device, locked := locked, thread := step } := by
  rcases h with hchanged | hmsg | hthread | hthread
  · exact .inl hchanged
  · exact .inr (.inl hmsg)
  · exact absurd hthread htry
  · exact absurd hthread hset

def Served (s : State τ) : Prop := s.Coming ∨ ∀ w, (s.caller w).inside = false

theorem Served.goto (h : s.Served) (hv : v.inside = true → (s.caller u).inside = true) :
    (s.goto u v).Served := by
  refine h.imp id fun hall w => ?_
  by_cases hw : w = u
  · rw [hw, goto_self]
    have hu := hall u
    cases hinside : v.inside with
    | false => rfl
    | true =>
      rw [hv hinside] at hu
      cases hu
  · rw [goto_other s v hw]
    exact hall w

theorem Served.step (h : s.Served) (hm : Moves s l t) (hfree : s.Free l) : t.Served := by
  cases hm with
  | call u freq hu => exact h.goto (fun hv => by cases hv)
  | store u freq hu =>
    exact Served.goto (s := { s with frequency := freq }) h (fun hv => by cases hv)
  | raise u hu => exact .inl (.inl rfl)
  | lock u hu hl =>
    exact Served.goto (s := { s with locked := true }) h (fun _ => by simp [hu, CallerStep.inside])
  | pass u hu hmsg => exact h.goto (fun hv => by cases hv)
  | wait u hu hmsg =>
    exact Served.goto (s := { s with locked := false }) h (fun _ => by simp [hu, CallerStep.inside])
  | leave u hu =>
    exact Served.goto (s := { s with locked := false }) h (fun hv => by cases hv)
  | spurious u hu => exact h.goto (fun _ => by simp [hu, CallerStep.inside])
  | test hthread | tune hthread | unlock hthread | notifyNone hthread =>
    exact h.imp_left fun hcoming => hcoming.moved (by simp [hthread]) (by simp [hthread])
  | clear hthread => exact .inl (.inr (.inr (.inl rfl)))
  | miss hthread htaken =>
    rw [hfree hthread] at htaken
    cases htaken
  | tryLock hthread hl => exact .inl (.inr (.inr (.inr rfl)))
  | set hthread => exact .inl (.inr (.inl rfl))
  | notify u hthread hwait =>
    have hmoved : Served { s with thread := .test } :=
      h.imp_left fun hcoming => hcoming.moved (by simp [hthread]) (by simp [hthread])
    exact hmoved.goto (fun _ => by simp [hwait, CallerStep.inside])

/-- **No caller is missed** as long as the thread never finds the lock taken: where one is in
`setFrequency`, beyond raising the flag, there is a message or the thread will bring it. -/
theorem never_missed {sampleRate frequency : Int} {ls : List (Label τ)}
    (h : Run (Guarded Step Free) (start sampleRate frequency) ls s) (u : τ)
    (hu : (s.caller u).inside = true) : s.Coming := by
  have hserved : s.Served := by
    refine h.invariant (I := Served) ?_ (.inr fun _ => rfl)
    rintro s l t hs ⟨hstep, hfree⟩
    exact hs.step hstep.moves hfree
  refine hserved.resolve_right fun hall => ?_
  rw [hall u] at hu
  cases hu

/-- A call that has just raised its flag. -/
theorem never_missed_first : ∃ s : State Unit, s.caller () = .lock ∧ s.Coming := by
  have hafter : ∃ s : State Unit, (start 2000000 0 : State Unit).after Free
      [.call () 100000000, .run (), .run ()] = some s ∧ s.caller () = .lock :=
    ⟨_, rfl, rfl⟩
  obtain ⟨s, hs, hcaller⟩ := hafter
  exact ⟨s, hcaller, never_missed (run_of_after hs) () (by rw [hcaller]; rfl)⟩

theorem msgAvailable_step (h : s.msgAvailable = true) (hm : Moves s l t) :
    t.msgAvailable = true ∧ ∀ w, t.caller w = .waiting → s.caller w = .waiting := by
  have hmove : ∀ (s' : State τ) (u : τ) (v : CallerStep), s'.caller = s.caller → v ≠ .waiting →
      ∀ w, (s'.goto u v).caller w = .waiting → s.caller w = .waiting := by
    intro s' u v hcaller hv w hw
    by_cases hwu : w = u
    · rw [hwu, goto_self] at hw
      exact absurd hw hv
    · rw [goto_other _ _ hwu, hcaller] at hw
      exact hw
  cases hm with
  | call u freq hu => exact ⟨h, hmove s u _ rfl (by simp)⟩
  | store u freq hu => exact ⟨h, hmove _ u _ rfl (by simp)⟩
  | raise u hu => exact ⟨h, hmove _ u _ rfl (by simp)⟩
  | lock u hu hl => exact ⟨h, hmove _ u _ rfl (by simp)⟩
  | pass u hu hmsg => exact ⟨h, hmove s u _ rfl (by simp)⟩
  | wait u hu hmsg =>
    rw [h] at hmsg
    cases hmsg
  | leave u hu => exact ⟨h, hmove _ u _ rfl (by simp)⟩
  | spurious u hu => exact ⟨h, hmove s u _ rfl (by simp)⟩
  | set hthread => exact ⟨rfl, fun _ hw => hw⟩
  | notify u hthread hwait => exact ⟨h, hmove _ u _ rfl (by simp)⟩
  | test | tune | clear | miss | tryLock | unlock | notifyNone => exact ⟨h, fun _ hw => hw⟩

theorem step_run (h : s.setFrequency u = some t) : Step s (.run u) t :=
  ⟨h, fun hl => by cases hl⟩

/-- A call that finds the message and the lock free returns by its own steps alone. -/
theorem passes (hmessage : s.msgAvailable = true) (hfree : s.locked = false)
    (haway : s.caller u = .away) (freq : Int) :
    ∃ t, Run Step s [.call u freq, .run u, .run u, .run u, .run u, .run u] t ∧
      t.caller u = .away ∧ t.device = s.device ∧
      t.frequency = max freq (s.sampleRate.tdiv 2) ∧ t.freqChanged = true := by
  let f := max freq (s.sampleRate.tdiv 2)
  let stored := { s.goto u (.store f) with frequency := f }.goto u .raise
  let raised := { stored with freqChanged := true }.goto u .lock
  let taken := { raised with locked := true }.goto u .test
  let passed := taken.goto u .unlock
  have hcall : Step s (.call u freq) (s.goto u (.store f)) := by
    refine ⟨?_, fun hl => by cases hl⟩
    simp only [next, haway, if_true]
    rfl
  have hstore : Step (s.goto u (.store f)) (.run u) stored :=
    step_run (by simp only [setFrequency, goto_self]; rfl)
  have hraise : Step stored (.run u) raised :=
    step_run (by simp only [setFrequency, stored, goto_self]; rfl)
  have hlock : Step raised (.run u) taken := by
    have hopen : raised.locked = false := hfree
    exact step_run (by simp only [setFrequency, hopen, raised, goto_self]; rfl)
  have hpass : Step taken (.run u) passed := by
    have hthere : taken.msgAvailable = true := hmessage
    exact step_run (by simp only [setFrequency, hthere, taken, goto_self]; rfl)
  have hleave : Step passed (.run u) ({ passed with locked := false }.goto u .away) :=
    step_run (by simp only [setFrequency, passed, goto_self])
  exact ⟨_, .cons hcall (.cons hstore (.cons hraise (.cons hlock (.cons hpass (.single hleave))))),
    goto_self .., rfl, rfl, rfl⟩

/-- **After the first message no call waits**: none begins to wait in any run, and whenever
the lock is free a call can store its frequency, raise the flag and return with no step of
the thread, the device still where it was. -/
theorem no_wait_after_message {ls : List (Label τ)} (hmessage : s.msgAvailable = true)
    (h : Run Step s ls t) (u : τ) (hu : s.caller u ≠ .waiting) :
    t.caller u ≠ .waiting ∧
      (t.caller u = .away → t.locked = false → ∀ freq,
        ∃ r, Run Step t [.call u freq, .run u, .run u, .run u, .run u, .run u] r ∧
          r.caller u = .away ∧ r.device = t.device ∧
          r.frequency = max freq (t.sampleRate.tdiv 2) ∧ r.freqChanged = true) := by
  have hboth : t.msgAvailable = true ∧ ∀ w, t.caller w = .waiting → s.caller w = .waiting := by
    refine h.invariant
      (I := fun t => t.msgAvailable = true ∧ ∀ w, t.caller w = .waiting → s.caller w = .waiting)
      ?_ ⟨hmessage, fun _ hw => hw⟩
    rintro r l t ⟨hr, hold⟩ hstep
    obtain ⟨ht, hstill⟩ := msgAvailable_step hr hstep.moves
    exact ⟨ht, fun w hw => hold w (hstill w hw)⟩
  refine ⟨fun hwait => hu (hboth.2 u hwait), fun haway hfree freq => ?_⟩
  exact passes hboth.1 hfree haway freq

/-- The second call returns before the device is sent to its frequency. -/
theorem no_wait_second :
    ∃ r : State Unit, r.caller () = .away ∧ r.device = 100000000 ∧ r.frequency = 101000000 := by
  have hafter : ∃ s t : State Unit, (start 2000000 0 : State Unit).after (fun _ _ => True)
      [.call () 100000000, .run (), .run (), .thread, .thread, .thread, .thread, .thread] =
        some s ∧
      s.after (fun _ _ => True) [.thread, .run (), .run (), .run ()] = some t ∧
      s.msgAvailable = true ∧ s.caller () = .lock ∧ t.caller () = .away ∧ t.locked = false ∧
      t.device = 100000000 ∧ t.sampleRate = 2000000 :=
    ⟨_, _, rfl, rfl, rfl, rfl, rfl, rfl, rfl, rfl⟩
  obtain ⟨s, t, -, ht, hmsg, hcaller, haway, hfree, hdevice, hrate⟩ := hafter
  obtain ⟨-, hpasses⟩ :=
    no_wait_after_message hmsg (run_of_after ht).of_guarded () (by simp [hcaller])
  obtain ⟨r, -, hback, hstill, hfreq, -⟩ := hpasses haway hfree 101000000
  refine ⟨r, hback, hstill.trans hdevice, ?_⟩
  rw [hfreq, hrate]
  rfl

end State

end PiScan.Cubic.TunerHandshake

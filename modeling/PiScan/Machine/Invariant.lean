import PiScan.Machine.Control

/-!
# Invariants of every run

* `Sane`: what a client carries from its lookup is the event of its own call,
  `ST_Hold` runs without an event pending, and a manual mode has an entry;
* `InCalls`: which calls are in progress, as long as no others begin;
* `Running`: without a commit of `stopScanner` the machine neither saves nor
  stops.
-/

namespace PiScan.Machine

open Runs

/-- The call of a client that has looked up an event raises its own event. -/
def ClientPc.Sane : ClientPc → Prop
  | looked call (some next) => next = call.target
  | _ => True

theorem ClientPc.sane_looked (call : Call) (s : States) :
    (looked call (call.transition s)).Sane := by
  cases h : call.transition s with
  | none => trivial
  | some next => exact Call.transition_target h

/-- The thread is in `ST_Hold`. -/
def Pc.InHold : Pc → Prop
  | hold _ | holdDecision _ | holdEvent _ => True
  | _ => False

theorem forall_update {P : ClientPc → Prop} {clients : Nat → ClientPc} (h : ∀ c, P (clients c))
    (c : Nat) {p : ClientPc} (hp : P p) : ∀ c', P (Function.update clients c p c') := by
  intro c'
  by_cases hc : c' = c
  · subst hc
    simpa using hp
  · simpa [hc] using h c'

theorem call?_of_toLookup {p : ClientPc} {call : Call} (h : p.toLookup = some call) :
    p.call? = some call := by
  unfold ClientPc.toLookup at h
  split at h
  · cases h
  · exact h
  · exact h
  · cases h

namespace Control

structure Sane (s : Control) : Prop where
  clients : ∀ c, (s.clients c).Sane
  decided : ∀ next, s.pc = .holdEvent (some next) →
    next = .ST_RECEIVE ∨ next = .ST_HOLD ∨ next = .ST_SCAN
  holding : s.pc.InHold → s.eventGenerated = false
  entry : s.manualMode = true → s.hasEntry = true

/-- A commit leads where its call wants. -/
theorem Sane.target {s : Control} (h : s.Sane) {c : Nat} {call : Call} {next : States}
    (hc : s.clients c = .looked call (some next)) : next = call.target := by
  have hcs := h.clients c
  rwa [hc] at hcs

theorem Sane.step {s s' : Control} {l : Label} (h : s.Sane) (hs : Step s l s') : s'.Sane := by
  obtain ⟨hclients, hdecided, hholding, hentry⟩ := h
  cases hs with
  | begin hc => exact ⟨forall_update hclients _ trivial, hdecided, hholding, hentry⟩
  | storeFlag hc => exact ⟨forall_update hclients _ trivial, hdecided, hholding, hentry⟩
  | storeIndex hc => exact ⟨forall_update hclients _ trivial, hdecided, hholding, hentry⟩
  | lookup hc =>
    exact ⟨forall_update hclients _ (ClientPc.sane_looked _ _), hdecided, hholding, hentry⟩
  | ignore hc => exact ⟨forall_update hclients _ trivial, hdecided, hholding, hentry⟩
  | commit hc hu =>
    refine ⟨forall_update hclients _ trivial, hdecided, ?_, hentry⟩
    intro hpc
    have hpc' : s.pc.InHold := hpc
    rcases hu with hu | hu <;> rw [hu] at hpc' <;> cases hpc'
  | load hdue => exact ⟨hclients, nofun, nofun, hentry⟩
  | scanEmpty hdue => exact ⟨hclients, nofun, nofun, hentry⟩
  | scan hdue => exact ⟨hclients, nofun, nofun, nofun⟩
  | hold hdue he => exact ⟨hclients, nofun, fun _ => rfl, fun h => he (hentry h)⟩
  | receive hdue => exact ⟨hclients, nofun, nofun, hentry⟩
  | manual hdue => exact ⟨hclients, nofun, nofun, fun _ => rfl⟩
  | saveAll hdue => exact ⟨hclients, nofun, nofun, hentry⟩
  | stopped hdue => exact ⟨hclients, nofun, nofun, hentry⟩
  | scanEnd hpc hnext =>
    exact ⟨hclients, nofun, nofun, fun _ => rfl⟩
  | holdEntry hpc =>
    exact ⟨hclients, nofun, fun _ => hholding (by rw [hpc]; trivial), fun _ => rfl⟩
  | holdDecision hpc hnext hhold hnone =>
    refine ⟨hclients, ?_, fun _ => hholding (by rw [hpc]; trivial), hentry⟩
    intro next hn
    cases hn
    simpa using hnext
  | holdEvent hpc => exact ⟨hclients, nofun, nofun, hentry⟩
  | holdQuiet hpc => exact ⟨hclients, nofun, nofun, hentry⟩
  | receiveEnd hpc hnext => exact ⟨hclients, nofun, nofun, hentry⟩
  | manualEnd hpc => exact ⟨hclients, nofun, nofun, hentry⟩
  | saveAllEnd hpc => exact ⟨hclients, nofun, nofun, hentry⟩
  | crash hmay hdue => exact ⟨hclients, nofun, nofun, hentry⟩

/-- Every call in progress is of the kind `K`. -/
def InCalls (K : Call → Prop) (s : Control) : Prop :=
  ∀ c call, (s.clients c).call? = some call → K call

theorem InCalls.step {K : Call → Prop} {s s' : Control} {l : Label} (h : s.InCalls K)
    (hl : l.Begins K) (hs : Step s l s') : s'.InCalls K := by
  have hupdate : ∀ c (p : ClientPc), (∀ call, p.call? = some call → K call) →
      (s.setClient c p).InCalls K := fun c p hp =>
    forall_update (P := fun p => ∀ call, p.call? = some call → K call) h c hp
  cases hs with
  | begin hc => exact hupdate _ _ fun call hcall => by cases hcall; exact hl
  | storeFlag hc => exact hupdate _ _ fun call hcall => h _ call (by rw [hc]; exact hcall)
  | storeIndex hc => exact hupdate _ _ fun call hcall => h _ call (by rw [hc]; exact hcall)
  | lookup hc =>
    exact hupdate _ _ fun call hcall => h _ call (by rw [call?_of_toLookup hc]; exact hcall)
  | ignore hc => exact hupdate _ _ fun call hcall => by cases hcall
  | commit hc hu => exact hupdate _ _ fun call hcall => by cases hcall
  | _ => exact h

/-- A client changes only in steps of its own. -/
theorem Step.clients {s s' : Control} {l : Label} {c : Nat} (hc : l.client ≠ some c)
    (hs : Step s l s') : s'.clients c = s.clients c := by
  have hne : ∀ {c' : Nat} {p : ClientPc}, some c' ≠ some c →
      (s.setClient c' p).clients c = s.clients c := fun h =>
    Function.update_of_ne (fun he => h (by rw [he])) _ _
  cases hs with
  | begin _ => exact hne hc
  | storeFlag _ => exact hne hc
  | storeIndex _ => exact hne hc
  | lookup _ => exact hne hc
  | ignore _ => exact hne hc
  | commit _ _ => exact hne hc
  | _ => rfl

/-- A client that commits an event is in its call. -/
theorem InCalls.commit {K : Call → Prop} {s : Control} (h : s.InCalls K) {c : Nat} {call : Call}
    {next : Transition} (hc : s.clients c = .looked call next) : K call :=
  h c call (by rw [hc]; rfl)

/-- The machine neither saves nor stops, and has not saved. -/
structure Running (s : Control) : Prop where
  saves : s.saves = 0
  saveAll : s.currentState ≠ .ST_SAVEALL
  stopped : s.currentState ≠ .ST_STOPPED
  pc_saveAll : s.pc ≠ .saveAll
  pc_ended : s.pc ≠ .ended

theorem Running.step {s s' : Control} {l : Label} (h : s.Running) (hsane : s.Sane)
    (hcommit : ∀ c call next, l = .commit c → s.clients c = .looked call (some next) →
      call ≠ .stopScanner) (hs : Step s l s') : s'.Running := by
  obtain ⟨hsaves, hsave, hstop, hpcs, hpce⟩ := h
  cases hs with
  | begin hc => exact ⟨hsaves, hsave, hstop, hpcs, hpce⟩
  | storeFlag hc => exact ⟨hsaves, hsave, hstop, hpcs, hpce⟩
  | storeIndex hc => exact ⟨hsaves, hsave, hstop, hpcs, hpce⟩
  | lookup hc => exact ⟨hsaves, hsave, hstop, hpcs, hpce⟩
  | ignore hc => exact ⟨hsaves, hsave, hstop, hpcs, hpce⟩
  | @commit c call next hc hu =>
    have hnext := hsane.target hc
    have hcall : call ≠ .stopScanner := hcommit c call next rfl hc
    refine ⟨hsaves, ?_, ?_, hpcs, hpce⟩
    · change next ≠ _
      rw [hnext]
      cases call <;> simp [Call.target] at hcall ⊢
    · change next ≠ _
      rw [hnext]
      cases call <;> simp [Call.target] at hcall ⊢
  | load hdue => exact ⟨hsaves, hsave, hstop, nofun, nofun⟩
  | scanEmpty hdue => exact ⟨hsaves, nofun, nofun, nofun, nofun⟩
  | scan hdue => exact ⟨hsaves, hsave, hstop, nofun, nofun⟩
  | hold hdue he => exact ⟨hsaves, hsave, hstop, nofun, nofun⟩
  | receive hdue hcur => rcases hcur with rfl | rfl <;> exact ⟨hsaves, nofun, nofun, nofun, nofun⟩
  | manual hdue => exact ⟨hsaves, hsave, hstop, nofun, nofun⟩
  | saveAll hdue => exact absurd hdue.2.2 hsave
  | stopped hdue => exact absurd hdue.2.2 hstop
  | scanEnd hpc hnext => rcases hnext with rfl | rfl <;> exact ⟨hsaves, nofun, nofun, nofun, nofun⟩
  | holdEntry hpc => exact ⟨hsaves, hsave, hstop, nofun, nofun⟩
  | holdDecision hpc hnext hhold hnone => exact ⟨hsaves, hsave, hstop, nofun, nofun⟩
  | holdEvent hpc =>
    rcases hsane.decided _ hpc with rfl | rfl | rfl <;> exact ⟨hsaves, nofun, nofun, nofun, nofun⟩
  | holdQuiet hpc => exact ⟨hsaves, hsave, hstop, nofun, nofun⟩
  | receiveEnd hpc hnext => rcases hnext with rfl | rfl <;> exact ⟨hsaves, nofun, nofun, nofun, nofun⟩
  | manualEnd hpc => exact ⟨hsaves, nofun, nofun, nofun, nofun⟩
  | saveAllEnd hpc => exact absurd hpc hpcs
  | crash hmay hdue => exact ⟨hsaves, hsave, hstop, nofun, nofun⟩

end Control

namespace World

/-- The world after `start()`, over a systems file and a demodulator. -/
def start (file : Scan.SystemsFile) (demod : Sigproc.Demodulator) : World :=
  init (.new file demod)

theorem sane_start (file : Scan.SystemsFile) (demod : Sigproc.Demodulator) :
    (start file demod).control.Sane :=
  ⟨fun _ => trivial, nofun, nofun, nofun⟩

theorem running_start (file : Scan.SystemsFile) (demod : Sigproc.Demodulator) :
    (start file demod).control.Running :=
  ⟨rfl, nofun, nofun, nofun, nofun⟩

theorem sane_run {file : Scan.SystemsFile} {demod : Sigproc.Demodulator} {ls : List Label}
    {w : World} (h : Run Step (start file demod) ls w) : w.control.Sane :=
  control_invariant (fun _ _ _ hi hs => hi.step hs) h (sane_start file demod)

theorem clients_run {w w' : World} {ls : List Label} {c : Nat}
    (hls : ∀ l ∈ ls, l.client ≠ some c) (h : Run Step w ls w') : w'.clients c = w.clients c :=
  h.invariant_on (I := fun s => s.clients c = w.clients c)
    (fun _ _ _ hl hi hs => ((control_step hs).clients hl).trans hi) hls rfl

/-- **Without a stop the machine goes on running.** -/
theorem running_run {file : Scan.SystemsFile} {demod : Sigproc.Demodulator} {ls : List Label}
    {w : World} (hls : Begins (· ≠ .stopScanner) ls) (h : Run Step (start file demod) ls w) :
    w.control.Running ∧ w.control.InCalls (· ≠ .stopScanner) := by
  have hstep : ∀ (s : World) (l : Label) (t : World),
      l.Begins (· ≠ .stopScanner) →
      (s.control.Sane ∧ s.control.Running ∧ s.control.InCalls (· ≠ .stopScanner)) → Step s l t →
      t.control.Sane ∧ t.control.Running ∧ t.control.InCalls (· ≠ .stopScanner) := by
    rintro s l t hl ⟨hsane, hrun, hcalls⟩ hs
    have hc := control_step hs
    exact ⟨hsane.step hc, hrun.step hsane (fun _ _ _ _ => hcalls.commit) hc, hcalls.step hl hc⟩
  have hcalls : (start file demod).control.InCalls (· ≠ .stopScanner) := fun c call hcall => by
    cases hcall
  exact (h.invariant_on hstep hls ⟨sane_start file demod, running_start file demod, hcalls⟩).2

end World

end PiScan.Machine

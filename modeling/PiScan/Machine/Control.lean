import PiScan.Machine.Moves

/-!
# The control flow, without the radio

What the interleavings depend on: the mailbox, the flag, the point of the state
thread, the points of the clients, whether there is a current entry and how
often the database was written.  `Control.Step` says what a step can do to these
and leaves open what entries, squelch and clock decide.

`control_step`: every step of the system is a step of its control.  The
properties of runs are proved about `Control.Step`, one case for each rule.
-/

namespace PiScan.Machine

open Scan Sigproc Runs

@[ext]
structure Control where
  currentState : States
  evtSrcExternal : Bool
  eventGenerated : Bool
  externalHold : Bool
  manualMode : Bool
  hasEntry : Bool
  saves : Nat
  pc : Pc
  clients : Nat → ClientPc

/-- The control of a world. -/
def World.control (w : World) : Control :=
  { currentState := w.sm.currentState
    evtSrcExternal := w.sm.evtSrcExternal
    eventGenerated := w.sm.eventGenerated
    externalHold := w.sm.externalHold
    manualMode := w.sm.data.manualMode
    hasEntry := w.sm.data.currentEntry.isSome
    saves := w.sm.data.written.length
    pc := w.pc
    clients := w.clients }

namespace Control

def setClient (c : Nat) (p : ClientPc) (s : Control) : Control :=
  { s with clients := Function.update s.clients c p }

/-- The thread can start the handler `h`. -/
def Due (h : States) (s : Control) : Prop :=
  s.pc = .idle ∧ s.eventGenerated = true ∧ s.currentState = h

instance (h : States) (s : Control) : Decidable (s.Due h) :=
  inferInstanceAs (Decidable (_ ∧ _))

/-- A handler raises `next` and ends. -/
def raised (next : States) (s : Control) : Control :=
  { s with currentState := next, eventGenerated := true, evtSrcExternal := false, pc := .idle }

/-- A handler ends and raises nothing. -/
def finished (s : Control) : Control := { s with evtSrcExternal := false, pc := .idle }

/-- A handler has taken its event. -/
def taken (pc : Pc) (s : Control) : Control := { s with eventGenerated := false, pc }

/-- What a handler can crash at: `ST_SaveAll` only where it needs an entry and
there is none, the ends of `ST_Manual` and `ST_SaveAll` and `ST_Stopped` not. -/
def MayCrash (s : Control) : Label → Prop
  | .activate .ST_SAVEALL =>
    s.hasEntry = false ∧ (s.externalHold = true ∨ s.manualMode = true)
  | .activate .ST_STOPPED => False
  | .activate _ => True
  | .resume _ => s.pc.InHandler ∧ s.pc ≠ .manual ∧ s.pc ≠ .saveAll
  | _ => False

/-- What one step can do. -/
inductive Step : Control → Label → Control → Prop
  | begin {s : Control} {c : Nat} {call : Call} (hc : s.clients c = .ready) :
      Step s (.begin c call) (s.setClient c (.begun call))
  | storeFlag {s : Control} {c : Nat} {index : List Int}
      (hc : s.clients c = .begun (.holdScan index)) :
      Step s (.storeFlag c) ({ s with externalHold := true }.setClient c (.flagged index))
  | storeIndex {s : Control} {c : Nat} {index : List Int} (hc : s.clients c = .flagged index) :
      Step s (.storeIndex c) (s.setClient c (.stored index))
  | lookup {s : Control} {c : Nat} {call : Call} (hc : (s.clients c).toLookup = some call) :
      Step s (.lookup c) (s.setClient c (.looked call (call.transition s.currentState)))
  | ignore {s : Control} {c : Nat} {call : Call} (hc : s.clients c = .looked call none) :
      Step s (.ignore c) (s.setClient c .ready)
  | commit {s : Control} {c : Nat} {call : Call} {next : States}
      (hc : s.clients c = .looked call (some next)) (hu : s.pc.Unlocked) :
      Step s (.commit c)
        ({ s with currentState := next, eventGenerated := true, evtSrcExternal := true }.setClient
          c .ready)
  | load {s : Control} (h : s.Due .ST_LOAD) :
      Step s (.activate .ST_LOAD) (s.taken .idle).finished
  | scanEmpty {s : Control} (h : s.Due .ST_SCAN) :
      Step s (.activate .ST_SCAN) (s.raised .ST_MANUAL)
  | scan {s : Control} (h : s.Due .ST_SCAN) :
      Step s (.activate .ST_SCAN)
        { s.taken .scan with externalHold := false, manualMode := false }
  | hold {s : Control} {update hasEntry : Bool} (h : s.Due .ST_HOLD)
      (he : s.hasEntry = true → hasEntry = true) :
      Step s (.activate .ST_HOLD) { s.taken (.hold update) with hasEntry }
  | receive {s : Control} {current : States} {pending : Bool} (h : s.Due .ST_RECEIVE)
      (hcur : current = .ST_RECEIVE ∨ current = .ST_SCAN) (he : s.hasEntry = true) :
      Step s (.activate .ST_RECEIVE)
        { s.taken .receive with currentState := current, eventGenerated := pending }
  | manual {s : Control} (h : s.Due .ST_MANUAL) :
      Step s (.activate .ST_MANUAL)
        { s.taken .manual with externalHold := true, manualMode := true, hasEntry := true }
  | saveAll {s : Control} (h : s.Due .ST_SAVEALL) :
      Step s (.activate .ST_SAVEALL) { s.taken .saveAll with saves := s.saves + 1 }
  | stopped {s : Control} (h : s.Due .ST_STOPPED) :
      Step s (.activate .ST_STOPPED) { (s.taken .idle).finished with pc := .ended }
  | scanEnd {s : Control} {r : ScannerSM.Reading} {next : States} (hpc : s.pc = .scan)
      (hnext : next = .ST_SCAN ∨ next = .ST_RECEIVE) :
      Step s (.resume r) { s.raised next with hasEntry := true }
  | holdEntry {s : Control} {r : ScannerSM.Reading} {update found : Bool}
      (hpc : s.pc = .hold update) :
      Step s (.resume r) { s with hasEntry := true, pc := .holdDecision found }
  | holdDecision {s : Control} {r : ScannerSM.Reading} {found : Bool} {next : Option States}
      (hpc : s.pc = .holdDecision found)
      (hnext : next ∈ [some .ST_RECEIVE, some .ST_HOLD, some .ST_SCAN, none])
      (hhold : s.externalHold = true → next ≠ some .ST_SCAN ∧ next ≠ none)
      (hnone : next = none → s.evtSrcExternal = true) :
      Step s (.resume r) { s with pc := .holdEvent next }
  | holdEvent {s : Control} {r : ScannerSM.Reading} {next : States}
      (hpc : s.pc = .holdEvent (some next)) : Step s (.resume r) (s.raised next)
  | holdQuiet {s : Control} {r : ScannerSM.Reading} (hpc : s.pc = .holdEvent none) :
      Step s (.resume r) s.finished
  | receiveEnd {s : Control} {r : ScannerSM.Reading} {next : States} (hpc : s.pc = .receive)
      (hnext : next = .ST_RECEIVE ∨ next = .ST_HOLD) : Step s (.resume r) (s.raised next)
  | manualEnd {s : Control} {r : ScannerSM.Reading} (hpc : s.pc = .manual) :
      Step s (.resume r) (s.raised .ST_HOLD)
  | saveAllEnd {s : Control} {r : ScannerSM.Reading} (hpc : s.pc = .saveAll) :
      Step s (.resume r) (s.raised .ST_STOPPED)
  | crash {s : Control} {l : Label} {f : Fault} (h : s.MayCrash l)
      (hdue : ∀ h, l = .activate h → s.Due h) :
      Step s l { s with pc := .crashed f }

end Control

/-! ## The system has this control flow -/

namespace World

open ThreadData

theorem saveAll_fault {w : World} {f : Fault} (h : w.sm.data.saveAll w.sm.externalHold = .error f) :
    w.control.hasEntry = false ∧
      (w.control.externalHold = true ∨ w.control.manualMode = true) := by
  by_contra hno
  have hok : w.sm.data.currentEntry.isSome = true ∨
      w.sm.externalHold = false ∧ w.sm.data.manualMode = false := by
    simp only [control] at hno
    revert hno
    cases w.sm.data.currentEntry.isSome <;> cases w.sm.externalHold <;>
      cases w.sm.data.manualMode <;> simp
  obtain ⟨d, hd⟩ := saveAll_ok hok
  rw [hd] at h
  cases h

/-- A handler that faults is one that may. -/
theorem mayCrash_of_fault {w : World} {l : Label} {f : Fault}
    (h : (∃ a, l = .activate a ∧ w.Due a ∧ w.sm.stateEngine = .error f) ∨
      ∃ r, l = .resume r ∧ w.pc.InHandler ∧ w.sm.resume r w.pc = .error f) :
    w.control.MayCrash l ∧ ∀ a, l = .activate a → w.control.Due a := by
  rcases h with ⟨a, rfl, hdue, hr⟩ | ⟨r, rfl, hpc, hr⟩
  · rw [hdue.stateEngine] at hr
    refine ⟨?_, fun a' ha' => by cases ha'; exact hdue⟩
    cases a with
    | ST_SAVEALL =>
      cases hs : w.sm.data.saveAll w.sm.externalHold with
      | error f' => exact saveAll_fault hs
      | ok d =>
        simp [ScannerSM.stateMap, ScannerSM.ST_SaveAll, ScannerSM.take, hs, pure, Except.pure,
          Bind.bind, Except.bind] at hr
    | ST_STOPPED => cases hr
    | _ => trivial
  · refine ⟨⟨hpc, ?_, ?_⟩, fun a ha => by cases ha⟩
    · intro hm
      simp [show w.pc = .manual from hm, ScannerSM.resume, pure, Except.pure] at hr
    · intro hm
      simp [show w.pc = .saveAll from hm, ScannerSM.resume, pure, Except.pure] at hr

/-- **Every step of the system is a step of its control.** -/
theorem control_step {w w' : World} {l : Label} (h : Step w l w') :
    Control.Step w.control l w'.control := by
  cases moves_of_step h with
  | begin hc => exact .begin hc
  | storeFlag hc => exact .storeFlag hc
  | storeIndex hc => exact .storeIndex hc
  | lookup hc => exact .lookup hc
  | ignore hc => exact .ignore hc
  | commit hc hu => exact .commit hc hu
  | load hdue hd =>
    simp only [load, bind_eq_ok, pure_eq_ok] at hd
    obtain ⟨sl, -, sl', -, rfl⟩ := hd
    exact .load hdue
  | scanEmpty hdue hempty => exact .scanEmpty hdue
  | scan hdue hsome hd =>
    simp only [scanStart, enableAudioOut, bind_eq_ok, pure_eq_ok] at hd
    obtain ⟨d₁, ⟨demod, -, rfl⟩, rfl⟩ := hd
    exact .scan hdue
  | holdIndex hdue hflag hindex hd =>
    obtain ⟨hs, hsome⟩ := indexEntry_scans hd
    have hstep : Control.Step w.control (.activate .ST_HOLD)
        { w.control.taken (.hold true) with hasEntry := true } := .hold hdue fun _ => rfl
    convert hstep using 1
    ext <;> simp [go, control, Control.taken, ScannerSM.take, hs.manualMode, hs.written, hsome]
  | hold hdue hno => exact .hold hdue id
  | @receive e d hdue he hd =>
    have hk := enterState_keeps hd
    have hstep : Control.Step w.control (.activate .ST_RECEIVE)
        { w.control.taken .receive with
          currentState := if e.isLockedOut then .ST_SCAN else .ST_RECEIVE
          eventGenerated := e.isLockedOut } :=
      .receive hdue (by split <;> simp) (isSome_of_entry he)
    convert hstep using 1
    have hcur : w.sm.currentState = .ST_RECEIVE := hdue.2.2
    ext <;> simp [go, control, Control.taken, ScannerSM.take, hk.manualMode, hk.written,
      hk.currentEntry, ScannerSM.raiseIfLocked]
    all_goals cases e.isLockedOut <;> simp [StateMachine.internalEvent, hcur]
  | manual hdue hdata => exact .manual hdue
  | saveAll hdue hd =>
    obtain ⟨state, -, rfl⟩ := saveAll_spec hd
    have hstep := Control.Step.saveAll (s := w.control) hdue
    convert hstep using 1
    ext <;> simp [go, control, Control.taken, ScannerSM.take]
  | stopped hdue => exact .stopped hdue
  | @scanEnd r next d hpc hd =>
    obtain ⟨d₁, hits, rfl, hs, hsome, hnext, -⟩ := scanEntry_scans hd
    have hstep := Control.Step.scanEnd (r := r) (s := w.control) hpc hnext
    convert hstep using 1
    ext <;> simp [go, control, Control.raised, hs.manualMode, hs.written, hsome,
      ScannerSM.raise, StateMachine.internalEvent, StateMachine.endHandler]
  | @holdEntry r update found d hpc hd =>
    obtain ⟨hs, e, he, -⟩ := holdEntry_scans hd
    have hstep : Control.Step w.control (.resume r)
        { w.control with hasEntry := true, pc := .holdDecision found } := .holdEntry hpc
    convert hstep using 1
    ext <;> simp [go, control, hs.manualMode, hs.written, isSome_of_entry he]
  | holdDecision hpc hd =>
    obtain ⟨hmem, hhold, hnone⟩ := holdDecision_next hd
    exact .holdDecision (s := w.control) hpc hmem hhold hnone
  | holdEvent hpc => exact .holdEvent (s := w.control) hpc
  | holdQuiet hpc => exact .holdQuiet (s := w.control) hpc
  | @receiveEnd r next d hpc hd =>
    obtain ⟨hk, hnext⟩ := receiveEntry_keeps hd
    have hstep := Control.Step.receiveEnd (r := r) (s := w.control) hpc hnext
    convert hstep using 1
    ext <;> simp [go, control, Control.raised, hk.manualMode, hk.written, hk.currentEntry,
      ScannerSM.raise, StateMachine.internalEvent, StateMachine.endHandler]
  | manualEnd hpc => exact .manualEnd (s := w.control) hpc
  | saveAllEnd hpc => exact .saveAllEnd (s := w.control) hpc
  | crash hfault =>
    obtain ⟨hmay, hdue⟩ := mayCrash_of_fault hfault
    exact .crash hmay hdue

/-- Invariants of the control hold along the runs of the system. -/
theorem control_invariant {I : Control → Prop}
    (hstep : ∀ s l s', I s → Control.Step s l s' → I s') {w w' : World} {ls : List Label}
    (h : Run Step w ls w') (hw : I w.control) : I w'.control :=
  h.invariant (I := fun w => I w.control) (fun _ _ _ hi hs => hstep _ _ _ hi (control_step hs)) hw

/-- The same for properties that also speak about the steps so far, along runs
over labels in `P`. -/
theorem control_history {I : List Label → Control → Prop} {P : Label → Prop}
    (hstep : ∀ pre s l s', P l → I pre s → Control.Step s l s' → I (pre ++ [l]) s')
    {w w' : World} {ls : List Label} (h : Run Step w ls w') (hls : ∀ l ∈ ls, P l)
    (hw : I [] w.control) : I ls w'.control := by
  have hr := h.history (I := fun pre w => I pre w.control)
    (fun _ _ _ _ hl hi hs => hstep _ _ _ _ hl hi (control_step hs)) hls hw
  simpa using hr

end World

end PiScan.Machine

import PiScan.Machine.Handlers
import PiScan.Machine.World

/-!
# What a step of the system does

`Moves w l w'` lists the steps of the system once, one constructor for each
branch of a call or a handler, with what the branch has found out and the world
it leaves.  `moves_of_step` says that there are no other steps; the invariants
of the following modules are proved by cases on it.
-/

namespace PiScan.Machine

open Scan Sigproc

namespace ScannerSM

/-- The machine whose handler has just been given its event. -/
def take (m : ScannerSM) : ScannerSM := { m with toStateMachine := m.takeEvent }

end ScannerSM

namespace World

/-- The thread can start the handler `h`. -/
def Due (h : States) (w : World) : Prop :=
  w.pc = .idle ∧ w.sm.eventGenerated = true ∧ w.sm.currentState = h

instance (h : States) (w : World) : Decidable (w.Due h) :=
  inferInstanceAs (Decidable (_ ∧ _ ∧ _))

/-- The engine starts the handler that is due. -/
theorem Due.stateEngine {a : States} {w : World} (h : w.Due a) :
    w.sm.stateEngine = ScannerSM.stateMap a w.sm.pEventData w.sm.take := by
  rw [← h.2.2]
  rfl

/-- The machine runs on at the point `pc`. -/
def go (w : World) (pc : Pc) (sm : ScannerSM) : World := { w with pc, sm }

inductive Moves (w : World) : Label → World → Prop
  | begin {c : Nat} {call : Call} (hc : w.clients c = .ready) :
      Moves w (.begin c call) (w.setClient c (.begun call))
  | storeFlag {c : Nat} {index : List Int} (hc : w.clients c = .begun (.holdScan index)) :
      Moves w (.storeFlag c)
        ({ w with sm := { w.sm with externalHold := true } }.setClient c (.flagged index))
  | storeIndex {c : Nat} {index : List Int} (hc : w.clients c = .flagged index) :
      Moves w (.storeIndex c)
        ({ w with sm := { w.sm with holdIndex := index } }.setClient c (.stored index))
  | lookup {c : Nat} {call : Call} (hc : (w.clients c).toLookup = some call) :
      Moves w (.lookup c) (w.setClient c (.looked call (call.transition w.sm.currentState)))
  | ignore {c : Nat} {call : Call} (hc : w.clients c = .looked call none) :
      Moves w (.ignore c) (w.setClient c .ready)
  | commit {c : Nat} {call : Call} {next : States} (hc : w.clients c = .looked call (some next))
      (hu : w.pc.Unlocked) :
      Moves w (.commit c)
        ({ w with
            sm := { w.sm with toStateMachine := w.sm.externalEvent next call.data } }.setClient
          c .ready)
  | load {d : ThreadData} (hdue : w.Due .ST_LOAD) (hd : w.sm.data.load = .ok d) :
      Moves w (.activate .ST_LOAD)
        (w.go .idle (ScannerSM.finish { w.sm.take with data := d }))
  | scanEmpty (hdue : w.Due .ST_SCAN) (hempty : w.sm.data.systems.size = 0) :
      Moves w (.activate .ST_SCAN)
        (w.go .idle
          { w.sm.take with
            toStateMachine :=
              (w.sm.takeEvent.internalEvent .ST_MANUAL (some (.number 100000000))).endHandler
            data := w.sm.data.resetHits w.sm.stateChanged })
  | scan {d : ThreadData} (hdue : w.Due .ST_SCAN) (hsome : w.sm.data.systems.size ≠ 0)
      (hd : (w.sm.data.resetHits w.sm.stateChanged).scanStart = .ok d) :
      Moves w (.activate .ST_SCAN)
        (w.go .scan { w.sm.take with externalHold := false, data := d })
  | holdIndex {d : ThreadData} (hdue : w.Due .ST_HOLD) (hflag : w.sm.externalHold = true)
      (hindex : 0 < w.sm.holdIndex.length) (hd : w.sm.data.indexEntry w.sm.holdIndex = .ok d) :
      Moves w (.activate .ST_HOLD)
        (w.go (.hold true) { w.sm.take with holdIndex := [], data := d })
  | hold (hdue : w.Due .ST_HOLD)
      (hno : ¬(w.sm.externalHold = true ∧ 0 < w.sm.holdIndex.length)) :
      Moves w (.activate .ST_HOLD) (w.go (.hold w.sm.stateChanged) w.sm.take)
  | receive {e : Entry} {d : ThreadData} (hdue : w.Due .ST_RECEIVE)
      (he : w.sm.data.entry = .ok e)
      (hd : w.sm.data.enterState true .RECEIVE
        (w.sm.take.raiseIfLocked e.isLockedOut).stateChanged = .ok d) :
      Moves w (.activate .ST_RECEIVE)
        (w.go .receive { w.sm.take.raiseIfLocked e.isLockedOut with data := d })
  | manual {freq : Int} {modulation : String} (hdue : w.Due .ST_MANUAL)
      (hdata : w.sm.pEventData = some (.manualEntryData freq modulation)) :
      Moves w (.activate .ST_MANUAL)
        (w.go .manual
          { w.sm.take with externalHold := true, data := w.sm.data.manual freq modulation })
  | saveAll {d : ThreadData} (hdue : w.Due .ST_SAVEALL)
      (hd : w.sm.data.saveAll w.sm.externalHold = .ok d) :
      Moves w (.activate .ST_SAVEALL) (w.go .saveAll { w.sm.take with data := d })
  | stopped (hdue : w.Due .ST_STOPPED) :
      Moves w (.activate .ST_STOPPED)
        (w.go .ended (ScannerSM.finish { w.sm.take with run := false }))
  | scanEnd {r : ScannerSM.Reading} {next : States} {d : ThreadData} (hpc : w.pc = .scan)
      (hd : w.sm.data.scanEntry w.sm.stateChanged r.signal = .ok (next, d)) :
      Moves w (.resume r) (w.go .idle (ScannerSM.raise next { w.sm with data := d }))
  | holdEntry {r : ScannerSM.Reading} {update found : Bool} {d : ThreadData}
      (hpc : w.pc = .hold update) (hd : w.sm.data.holdEntry update r.signal = .ok (found, d)) :
      Moves w (.resume r) (w.go (.holdDecision found) { w.sm with data := d })
  | holdDecision {r : ScannerSM.Reading} {found : Bool} {next : Option States}
      (hpc : w.pc = .holdDecision found)
      (hd : w.sm.data.holdDecision found w.sm.externalHold w.sm.evtSrcExternal r.now = .ok next) :
      Moves w (.resume r) (w.go (.holdEvent next) w.sm)
  | holdEvent {r : ScannerSM.Reading} {next : States} (hpc : w.pc = .holdEvent (some next)) :
      Moves w (.resume r) (w.go .idle (w.sm.raise next))
  | holdQuiet {r : ScannerSM.Reading} (hpc : w.pc = .holdEvent none) :
      Moves w (.resume r) (w.go .idle w.sm.finish)
  | receiveEnd {r : ScannerSM.Reading} {next : States} {d : ThreadData} (hpc : w.pc = .receive)
      (hd : w.sm.data.receiveEntry r.signal r.now = .ok (next, d)) :
      Moves w (.resume r) (w.go .idle (ScannerSM.raise next { w.sm with data := d }))
  | manualEnd {r : ScannerSM.Reading} (hpc : w.pc = .manual) :
      Moves w (.resume r) (w.go .idle (w.sm.raise .ST_HOLD))
  | saveAllEnd {r : ScannerSM.Reading} (hpc : w.pc = .saveAll) :
      Moves w (.resume r) (w.go .idle (w.sm.raise .ST_STOPPED))
  | crash {l : Label} {f : Fault}
      (h : (∃ a, l = .activate a ∧ w.Due a ∧ w.sm.stateEngine = .error f) ∨
        ∃ r, l = .resume r ∧ w.pc.InHandler ∧ w.sm.resume r w.pc = .error f) :
      Moves w l { w with pc := .crashed f }

variable {w w' : World}

/-- The fault of a handler that starts. -/
theorem fault_of_activate {a : States} {f : Fault}
    (h : (∃ b, Label.activate a = .activate b ∧ w.Due b ∧ w.sm.stateEngine = .error f) ∨
      ∃ r, Label.activate a = .resume r ∧ w.pc.InHandler ∧ w.sm.resume r w.pc = .error f) :
    ScannerSM.stateMap a w.sm.pEventData w.sm.take = .error f := by
  rcases h with ⟨b, hb, hdue, hr⟩ | ⟨r, hr, -⟩
  · cases hb
    rw [← hdue.stateEngine]
    exact hr
  · cases hr

/-- A handler starts. -/
theorem moves_activate {a : States} (hdue : w.Due a) :
    Moves w (.activate a) (w.outcome w.sm.stateEngine) := by
  cases hr : w.sm.stateEngine with
  | error f => exact .crash (.inl ⟨a, rfl, hdue, hr⟩)
  | ok p =>
    obtain ⟨pc, m⟩ := p
    rw [hdue.stateEngine] at hr
    cases a with
    | ST_LOAD =>
      simp only [ScannerSM.stateMap, ScannerSM.ST_Load, bind_eq_ok, pure_eq_ok,
        Prod.mk.injEq] at hr
      obtain ⟨d, hd, rfl, rfl⟩ := hr
      exact .load hdue hd
    | ST_SCAN =>
      simp only [ScannerSM.stateMap, ScannerSM.ST_Scan] at hr
      split at hr
      · next hempty =>
        simp only [pure_eq_ok, Prod.mk.injEq] at hr
        obtain ⟨rfl, rfl⟩ := hr
        exact .scanEmpty hdue hempty
      · next hsome =>
        simp only [bind_eq_ok, pure_eq_ok, Prod.mk.injEq] at hr
        obtain ⟨d, hd, rfl, rfl⟩ := hr
        exact .scan hdue hsome hd
    | ST_HOLD =>
      simp only [ScannerSM.stateMap, ScannerSM.ST_Hold] at hr
      split at hr
      · next hindex =>
        simp only [bind_eq_ok, pure_eq_ok, Prod.mk.injEq] at hr
        obtain ⟨d, hd, rfl, rfl⟩ := hr
        exact .holdIndex hdue hindex.1 hindex.2 hd
      · next hno =>
        simp only [pure_eq_ok, Prod.mk.injEq] at hr
        obtain ⟨rfl, rfl⟩ := hr
        exact .hold hdue hno
    | ST_RECEIVE =>
      simp only [ScannerSM.stateMap, ScannerSM.ST_Receive, bind_eq_ok, pure_eq_ok,
        Prod.mk.injEq] at hr
      obtain ⟨e, he, d, hd, rfl, rfl⟩ := hr
      exact .receive hdue he hd
    | ST_MANUAL =>
      simp only [ScannerSM.stateMap, ScannerSM.ST_Manual] at hr
      split at hr
      · cases hr
      · cases hr
      · next freq modulation hdata =>
        obtain ⟨rfl, rfl⟩ := Prod.mk.inj (Except.ok.inj hr)
        exact .manual hdue hdata
    | ST_SAVEALL =>
      simp only [ScannerSM.stateMap, ScannerSM.ST_SaveAll, bind_eq_ok, pure_eq_ok,
        Prod.mk.injEq] at hr
      obtain ⟨d, hd, rfl, rfl⟩ := hr
      exact .saveAll hdue hd
    | ST_STOPPED =>
      obtain ⟨rfl, rfl⟩ := Prod.mk.inj (Except.ok.inj hr)
      exact .stopped hdue

/-- A handler goes on. -/
theorem moves_resume (hpc : w.pc.InHandler) (r : ScannerSM.Reading) :
    Moves w (.resume r) (w.outcome (w.sm.resume r w.pc)) := by
  cases hr : w.sm.resume r w.pc with
  | error f => exact .crash (.inr ⟨r, rfl, hpc, hr⟩)
  | ok p =>
    obtain ⟨pc, m⟩ := p
    cases hw : w.pc with
    | scan =>
      simp only [hw, ScannerSM.resume, bind_eq_ok, pure_eq_ok, Prod.exists, Prod.mk.injEq] at hr
      obtain ⟨next, d, hd, rfl, rfl⟩ := hr
      exact .scanEnd hw hd
    | hold update =>
      simp only [hw, ScannerSM.resume, bind_eq_ok, pure_eq_ok, Prod.exists, Prod.mk.injEq] at hr
      obtain ⟨found, d, hd, rfl, rfl⟩ := hr
      exact .holdEntry hw hd
    | holdDecision found =>
      simp only [hw, ScannerSM.resume, bind_eq_ok, pure_eq_ok, Prod.mk.injEq] at hr
      obtain ⟨next, hd, rfl, rfl⟩ := hr
      exact .holdDecision hw hd
    | holdEvent next =>
      cases next with
      | none =>
        simp only [hw, ScannerSM.resume, pure_eq_ok, Prod.mk.injEq] at hr
        obtain ⟨rfl, rfl⟩ := hr
        exact .holdQuiet hw
      | some next =>
        simp only [hw, ScannerSM.resume, pure_eq_ok, Prod.mk.injEq] at hr
        obtain ⟨rfl, rfl⟩ := hr
        exact .holdEvent hw
    | receive =>
      simp only [hw, ScannerSM.resume, bind_eq_ok, pure_eq_ok, Prod.exists, Prod.mk.injEq] at hr
      obtain ⟨next, d, hd, rfl, rfl⟩ := hr
      exact .receiveEnd hw hd
    | manual =>
      simp only [hw, ScannerSM.resume, pure_eq_ok, Prod.mk.injEq] at hr
      obtain ⟨rfl, rfl⟩ := hr
      exact .manualEnd hw
    | saveAll =>
      simp only [hw, ScannerSM.resume, pure_eq_ok, Prod.mk.injEq] at hr
      obtain ⟨rfl, rfl⟩ := hr
      exact .saveAllEnd hw
    | idle => simp [hw, Pc.InHandler] at hpc
    | ended => simp [hw, Pc.InHandler] at hpc
    | crashed f => simp [hw, Pc.InHandler] at hpc

/-- **There are no other steps.** -/
theorem moves_of_step {l : Label} (h : Step w l w') : Moves w l w' := by
  have hp := perform_of_step h
  cases l with
  | begin c call =>
    simp only [perform, Option.ite_none_right_eq_some, Option.some.injEq] at hp
    obtain ⟨hc, rfl⟩ := hp
    exact .begin hc
  | storeFlag c =>
    simp only [perform] at hp
    split at hp
    · next index hc =>
      obtain rfl := Option.some.inj hp
      exact .storeFlag hc
    · cases hp
  | storeIndex c =>
    simp only [perform] at hp
    split at hp
    · next index hc =>
      obtain rfl := Option.some.inj hp
      exact .storeIndex hc
    · cases hp
  | lookup c =>
    simp only [perform] at hp
    split at hp
    · next call hc =>
      obtain rfl := Option.some.inj hp
      exact .lookup hc
    · cases hp
  | ignore c =>
    simp only [perform] at hp
    split at hp
    · next call hc =>
      obtain rfl := Option.some.inj hp
      exact .ignore hc
    · cases hp
  | commit c =>
    simp only [perform] at hp
    split at hp
    · next call next hc =>
      simp only [Option.ite_none_right_eq_some, Option.some.injEq] at hp
      obtain ⟨hu, rfl⟩ := hp
      exact .commit hc hu
    · cases hp
  | activate a =>
    simp only [perform, Option.ite_none_right_eq_some, Option.some.injEq] at hp
    obtain ⟨hdue, rfl⟩ := hp
    exact moves_activate hdue
  | resume r =>
    simp only [perform, Option.ite_none_right_eq_some, Option.some.injEq] at hp
    obtain ⟨hpc, rfl⟩ := hp
    exact moves_resume hpc r

/-! ## Who makes the step -/

/-- What a step of a client leaves alone: the thread, its data and, unless the client
commits, the machine. -/
structure ByClient (w : World) (l : Label) (w' : World) : Prop where
  activated : l.activated = none
  pc : w'.pc = w.pc
  data : w'.sm.data = w.sm.data
  machine : w'.sm.toStateMachine = w.sm.toStateMachine ∨
    w.pc.Unlocked ∧ ∃ c call next, w.clients c = .looked call (some next) ∧
      w'.sm.toStateMachine = w.sm.externalEvent next call.data

/-- **A step** is a client's, or a handler starts, or a handler goes on. -/
theorem step_cases {l : Label} (h : Step w l w') :
    ByClient w l w' ∨ (∃ a, l = .activate a ∧ Moves w (.activate a) w') ∨
      ∃ r, l = .resume r ∧ Moves w (.resume r) w' := by
  have hmoves := moves_of_step h
  cases l with
  | activate a => exact .inr (.inl ⟨a, rfl, hmoves⟩)
  | resume r => exact .inr (.inr ⟨r, rfl, hmoves⟩)
  | commit c =>
    cases hmoves with
    | commit hc hu => exact .inl ⟨rfl, rfl, rfl, .inr ⟨hu, _, _, _, hc, rfl⟩⟩
    | crash hfault => simp at hfault
  | begin c call =>
    cases hmoves with
    | begin hc => exact .inl ⟨rfl, rfl, rfl, .inl rfl⟩
    | crash hfault => simp at hfault
  | storeFlag c =>
    cases hmoves with
    | storeFlag hc => exact .inl ⟨rfl, rfl, rfl, .inl rfl⟩
    | crash hfault => simp at hfault
  | storeIndex c =>
    cases hmoves with
    | storeIndex hc => exact .inl ⟨rfl, rfl, rfl, .inl rfl⟩
    | crash hfault => simp at hfault
  | lookup c =>
    cases hmoves with
    | lookup hc => exact .inl ⟨rfl, rfl, rfl, .inl rfl⟩
    | crash hfault => simp at hfault
  | ignore c =>
    cases hmoves with
    | ignore hc => exact .inl ⟨rfl, rfl, rfl, .inl rfl⟩
    | crash hfault => simp at hfault

end World

end PiScan.Machine

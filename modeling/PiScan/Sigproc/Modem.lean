import Mathlib.Data.List.Induction
import PiScan.Sigproc.Demodulator

/-!
# Which modem is meant

`setFrequency` and `squelchBreak` act on the current modem of the manager, the
squelch test reads its active context modem.  `Stands` follows both over any
calls of the demodulator:

* `Stands.setModem_switch`: a switch of the modulation leaves the current modem
  at the one that was measured before;
* `run_stands`: so the two agree exactly as long as there was no switch;
* `Ready.call`: no call after `start` fails;
* `inStep_iff_unswitched`: the modem that is tuned is the one that is measured
  and heard if and only if no call since `start` has switched the modulation.
-/

namespace PiScan.Sigproc.Demodulator

/-- The calls that entries and the scanner issue. -/
inductive Call
  | setModem (mode : Modulation)
  | setFrequency (freq : Int)
  | setTunerFrequency (freq : Int)
  | squelchBreak (mute : Bool)
  deriving DecidableEq, Repr

def call (d : Demodulator) : Call → Except Scan.Fault Demodulator
  | .setModem mode => d.setModem mode
  | .setFrequency freq => d.setFrequency freq
  | .setTunerFrequency freq => d.setTunerFrequency freq
  | .squelchBreak mute => d.squelchBreak mute

def run : List Call → Demodulator → Except Scan.Fault Demodulator
  | [], d => .ok d
  | c :: cs, d =>
    match d.call c with
    | .error f => .error f
    | .ok d => run cs d

/-- The modem for `m` is the one that is measured, it is tuned to `f`, and
opening the squelch unmutes it and no other. -/
structure InStep (m : Modulation) (f : Int) (d : Demodulator) : Prop where
  measured : ∃ demod, d.demods.lookup m = some demod ∧
    d.demodMgr.getActiveContextModem.1 = some demod ∧
    (d.demodMgr.demods[demod]?).map DemodulatorInstance.frequency = some f
  heard : ∃ d', d.squelchBreak true = .ok d' ∧
    ∀ (demod : Nat) (inst : DemodulatorInstance), d'.demodMgr.demods[demod]? = some inst →
      (inst.muted = false ↔ d.demods.lookup m = some demod)

/-- Every modem has the bandwidth that `start` gives it. -/
def Narrow (d : Demodulator) : Prop :=
  ∀ (demod : Nat) (inst : DemodulatorInstance), d.demodMgr.demods[demod]? = some inst →
    inst.bandwidth = 12500

/-- The modulation is `mode`; frequencies and mutes go to the modem `tuned`,
levels are read from the modem `measured`. -/
structure Stands (mode : Modulation) (tuned measured : Nat) (d : Demodulator) : Prop where
  demods : d.demods = [(.NFM, 0), (.AM, 1)]
  modem : d.currentModem = mode
  current : d.demodMgr.currentModem = some tuned
  context : d.demodMgr.activeContextModem = some measured
  active : d.demodMgr.isActive measured = true
  two : d.demodMgr.demods.length = 2
  narrow : Narrow d

/-- The AM modem has never been opened. -/
def AMMuted (d : Demodulator) : Prop :=
  ∀ inst, d.demodMgr.demods[1]? = some inst → inst.muted = true

theorem getElem?_onModem (demod : Nat) (f : DemodulatorInstance → DemodulatorInstance)
    (d : Demodulator) (j : Nat) :
    (d.onModem demod f).demodMgr.demods[j]? =
      if demod = j then (d.demodMgr.demods[j]?).map f else d.demodMgr.demods[j]? := by
  simp only [onModem, List.getElem?_modify]
  split <;> simp

theorem isActive_onModem {f : DemodulatorInstance → DemodulatorInstance}
    (hf : ∀ inst, (f inst).active = inst.active) (demod : Nat) (d : Demodulator) (j : Nat) :
    (d.onModem demod f).demodMgr.isActive j = d.demodMgr.isActive j := by
  simp only [DemodulatorMgr.isActive, getElem?_onModem]
  by_cases h : demod = j
  · cases d.demodMgr.demods[j]? <;> simp [h, hf]
  · simp [h]

theorem Narrow.onModem {d : Demodulator} (h : Narrow d)
    {f : DemodulatorInstance → DemodulatorInstance}
    (hf : ∀ inst, (f inst).bandwidth = inst.bandwidth) (demod : Nat) :
    Narrow (d.onModem demod f) := by
  intro j inst hi
  rw [getElem?_onModem] at hi
  split at hi
  · obtain ⟨inst', hi', rfl⟩ := Option.map_eq_some_iff.mp hi
    rw [hf]
    exact h j inst' hi'
  · exact h j inst hi

/-- A change of the tuned modem that leaves activity and bandwidth alone. -/
theorem Stands.onCurrentModem {mode : Modulation} {tuned measured : Nat} {d : Demodulator}
    (h : Stands mode tuned measured d) {f : DemodulatorInstance → DemodulatorInstance}
    (hact : ∀ inst, (f inst).active = inst.active)
    (hbw : ∀ inst, (f inst).bandwidth = inst.bandwidth) :
    d.onCurrentModem f = .ok (d.onModem tuned f) ∧ Stands mode tuned measured (d.onModem tuned f) := by
  refine ⟨onCurrentModem_eq h.current f, ?_⟩
  refine ⟨h.demods, h.modem, h.current, h.context, ?_, ?_, h.narrow.onModem hbw tuned⟩
  · rw [isActive_onModem hact]
    exact h.active
  · simpa [onModem] using h.two

theorem AMMuted.onModem_zero {d : Demodulator} (h : AMMuted d)
    (f : DemodulatorInstance → DemodulatorInstance) : AMMuted (d.onModem 0 f) := by
  intro inst hi
  rw [getElem?_onModem, if_neg (by decide)] at hi
  exact h inst hi

theorem Stands.cubic {mode : Modulation} {tuned measured : Nat} {d : Demodulator}
    (h : Stands mode tuned measured d) (cubic : CubicSDR) :
    Stands mode tuned measured { d with cubic := cubic } :=
  ⟨h.demods, h.modem, h.current, h.context, h.active, h.two, h.narrow⟩

theorem Stands.retune {mode : Modulation} {tuned measured : Nat} {d : Demodulator}
    (h : Stands mode tuned measured d) (freq : Int) :
    Stands mode tuned measured (d.retune freq) := by
  unfold Demodulator.retune
  split
  · exact h.cubic _
  · exact h

/-- `setFrequency` twice sets the frequency of the tuned modem, and of no other. -/
theorem Stands.setFrequency {mode : Modulation} {tuned measured : Nat} {d : Demodulator}
    (h : Stands mode tuned measured d) (freq : Int) :
    ∃ d', d.setFrequency freq = .ok d' ∧ Stands mode tuned measured d' ∧
      (tuned = 0 → AMMuted d → AMMuted d') ∧
      ∀ inst, d.demodMgr.demods[tuned]? = some inst →
        d'.demodMgr.demods[tuned]? = some ((inst.setFrequency freq).setFrequency freq) := by
  have hs₁ := (h.onCurrentModem (f := (·.setFrequency freq)) (fun _ => rfl) (fun _ => rfl)).2
  have hs₂ := (hs₁.retune freq).onCurrentModem (f := (·.setFrequency freq)) (fun _ => rfl)
    (fun _ => rfl)
  have hs₃ := hs₂.2
  refine ⟨_, setFrequency_eq h.current freq, ?_, ?_, ?_⟩
  · exact ⟨hs₃.demods, hs₃.modem, hs₃.current, hs₃.context, hs₃.active, hs₃.two, hs₃.narrow⟩
  · rintro rfl hm
    have hm₂ : AMMuted ((d.onModem 0 (·.setFrequency freq)).retune freq) := by
      unfold AMMuted
      rw [retune_demodMgr]
      exact hm.onModem_zero _
    exact hm₂.onModem_zero _
  · intro inst hi
    simp only [getElem?_onModem, retune_demodMgr, ↓reduceIte, hi, Option.map_some]

theorem Stands.setTunerFrequency {mode : Modulation} {tuned measured : Nat} {d : Demodulator}
    (h : Stands mode tuned measured d) (freq : Int) :
    ∃ d', d.setTunerFrequency freq = .ok d' ∧ Stands mode tuned measured d' ∧
      (tuned = 0 → AMMuted d → AMMuted d') := by
  obtain ⟨h₁, hs₁⟩ := (h.cubic (d.cubic.setFrequency freq)).onCurrentModem
    (f := (·.setFrequency freq)) (fun _ => rfl) (fun _ => rfl)
  refine ⟨_, h₁, hs₁, ?_⟩
  rintro rfl hm
  exact AMMuted.onModem_zero (d := { d with cubic := d.cubic.setFrequency freq }) hm _

theorem Stands.squelchBreak {mode : Modulation} {tuned measured : Nat} {d : Demodulator}
    (h : Stands mode tuned measured d) (mute : Bool) :
    d.squelchBreak mute = .ok (d.onModem tuned (·.setMuted !mute)) ∧
      Stands mode tuned measured (d.onModem tuned (·.setMuted !mute)) :=
  h.onCurrentModem (fun _ => rfl) (fun _ => rfl)

theorem Stands.setModem_same {mode : Modulation} {tuned measured : Nat} {d : Demodulator}
    (h : Stands mode tuned measured d) : d.setModem mode = .ok d := by
  simp [setModem, h.modem]

/-- The position of the modem that `setModem` switches to. -/
def position : Modulation → Nat
  | .AM => 1
  | _ => 0

theorem lookup_position {mode : Modulation} (hm : mode ≠ .FM) :
    [(Modulation.NFM, 0), (Modulation.AM, 1)].lookup mode = some (position mode) := by
  cases mode with
  | NFM => rfl
  | FM => exact absurd rfl hm
  | AM => rfl

/-- **A switch of the modulation** leaves the tuned modem at the one that was
measured before. -/
theorem Stands.setModem_switch {mode mode' : Modulation} {tuned measured : Nat} {d : Demodulator}
    (h : Stands mode tuned measured d) (hne : mode ≠ mode') (hm : mode ≠ .FM) (hm' : mode' ≠ .FM)
    (hmeas : measured = position mode) :
    ∃ d', d.setModem mode' = .ok d' ∧ Stands mode' measured (position mode') d' := by
  subst hmeas
  have hpos : position mode' ≠ position mode := by
    cases mode <;> cases mode' <;> simp_all [position]
  -- the new modem is made active first
  set d₁ := d.onModem (position mode') (·.setActive true) with hd₁
  have hold : d₁.demodMgr.isActive (position mode) = true := by
    have h := h.active
    simp only [DemodulatorMgr.isActive, hd₁, getElem?_onModem, if_neg hpos] at h ⊢
    exact h
  have hnew : d₁.demodMgr.isActive (position mode') = true := by
    have hlt : position mode' < d.demodMgr.demods.length := by
      rw [h.two]
      cases mode' <;> decide
    simp [DemodulatorMgr.isActive, hd₁, getElem?_onModem, List.getElem?_eq_getElem hlt,
      DemodulatorInstance.setActive]
  -- then the manager moves its context modem to its current modem
  have hcontext : d₁.demodMgr.activeContextModem = some (position mode) := h.context
  have hset := DemodulatorMgr.setActiveDemodulator_context hcontext hold (position mode')
  set d₂ : Demodulator :=
    { d₁ with demodMgr := { d₁.demodMgr with
        currentModem := some (position mode), activeContextModem := some (position mode') } }
    with hd₂
  refine ⟨{ d₂.onModem (position mode) (·.setActive false) with currentModem := mode' }, ?_, ?_⟩
  · simp only [setModem, h.modem, if_neg hne, h.demods, lookup_position hm, lookup_position hm',
      ← hd₁, hset]
    rfl
  · have hnarrow : Narrow d₂ := h.narrow.onModem (f := (·.setActive true)) (fun _ => rfl) _
    refine ⟨h.demods, rfl, rfl, rfl, ?_, ?_,
      hnarrow.onModem (f := (·.setActive false)) (fun _ => rfl) _⟩
    · change (d₂.onModem _ _).demodMgr.isActive _ = true
      simp only [DemodulatorMgr.isActive, getElem?_onModem, if_neg hpos.symm]
      exact hnew
    · simpa [d₂, d₁, onModem] using h.two

/-! ## Every sequence of calls -/

/-- No call of the sequence asks for another modulation than NFM. -/
def Unswitched (cs : List Call) : Prop := ∀ mode, Call.setModem mode ∈ cs → mode = .NFM

/-- What stands after a sequence of calls. -/
def After (cs : List Call) (d : Demodulator) : Prop :=
  (Unswitched cs ∧ Stands .NFM 0 0 d ∧ AMMuted d) ∨
    (¬Unswitched cs ∧ (Stands .NFM 1 0 d ∨ Stands .AM 0 1 d))

theorem stands_start (cubic : CubicSDR) : After [] (start cubic) := by
  have hd : (start cubic).demodMgr.demods = [newDemod, newDemod] := rfl
  refine Or.inl ⟨fun mode h => by simp at h, ⟨rfl, rfl, rfl, rfl, rfl, rfl, ?_⟩, ?_⟩
  · intro demod inst hi
    rw [hd] at hi
    obtain rfl : inst = newDemod := by simpa using List.mem_of_getElem? hi
    rfl
  · intro inst hi
    cases hi
    rfl

theorem run_append (cs cs' : List Call) (d : Demodulator) :
    run (cs ++ cs') d = match run cs d with
      | .error f => .error f
      | .ok d => run cs' d := by
  induction cs generalizing d with
  | nil => rfl
  | cons c cs ih =>
    simp only [List.cons_append, run]
    cases d.call c with
    | error f => rfl
    | ok d => exact ih d

theorem unswitched_snoc {cs : List Call} {c : Call} :
    Unswitched (cs ++ [c]) ↔ Unswitched cs ∧ ∀ mode, c = .setModem mode → mode = .NFM := by
  simp only [Unswitched, List.mem_append, List.mem_singleton]
  constructor
  · intro h
    exact ⟨fun mode hc => h mode (Or.inl hc), fun mode hc => h mode (Or.inr hc.symm)⟩
  · rintro ⟨h, hc⟩ mode (hmem | heq)
    · exact h mode hmem
    · exact hc mode heq.symm

/-- A call that is no `setModem` leaves the modems where they are. -/
theorem Stands.call {mode : Modulation} {tuned measured : Nat} {d : Demodulator}
    (h : Stands mode tuned measured d) (c : Call) (hc : ∀ m, c ≠ .setModem m) :
    ∃ d', d.call c = .ok d' ∧ Stands mode tuned measured d' ∧
      (tuned = 0 → AMMuted d → AMMuted d') := by
  cases c with
  | setModem m => exact absurd rfl (hc m)
  | setFrequency freq =>
    obtain ⟨d', hd, hs, hm, -⟩ := h.setFrequency freq
    exact ⟨d', hd, hs, hm⟩
  | setTunerFrequency freq => exact h.setTunerFrequency freq
  | squelchBreak mute =>
    obtain ⟨hd, hs⟩ := h.squelchBreak mute
    refine ⟨_, hd, hs, ?_⟩
    rintro rfl hm
    exact hm.onModem_zero _

theorem call_after_setModem {cs : List Call} {d : Demodulator} (h : After cs d) (mode : Modulation)
    (hm : mode ≠ .FM) : ∃ d', d.setModem mode = .ok d' ∧ After (cs ++ [.setModem mode]) d' := by
  have hsnoc : Unswitched (cs ++ [.setModem mode]) ↔ Unswitched cs ∧ mode = .NFM := by
    rw [unswitched_snoc]
    simp
  cases mode with
  | FM => exact absurd rfl hm
  | NFM =>
    rcases h with ⟨hu, hs, hmute⟩ | ⟨hu, hs | hs⟩
    · exact ⟨d, hs.setModem_same, Or.inl ⟨hsnoc.mpr ⟨hu, rfl⟩, hs, hmute⟩⟩
    · exact ⟨d, hs.setModem_same, Or.inr ⟨fun hu' => hu (hsnoc.mp hu').1, Or.inl hs⟩⟩
    · obtain ⟨d', hd, hs'⟩ := hs.setModem_switch (by decide) (by decide) hm rfl
      exact ⟨d', hd, Or.inr ⟨fun hu' => hu (hsnoc.mp hu').1, Or.inl hs'⟩⟩
  | AM =>
    have hsw : ¬Unswitched (cs ++ [.setModem .AM]) := fun hu => by
      cases (hsnoc.mp hu).2
    rcases h with ⟨-, hs, -⟩ | ⟨-, hs | hs⟩
    · obtain ⟨d', hd, hs'⟩ := hs.setModem_switch (by decide) (by decide) hm rfl
      exact ⟨d', hd, Or.inr ⟨hsw, Or.inr hs'⟩⟩
    · obtain ⟨d', hd, hs'⟩ := hs.setModem_switch (by decide) (by decide) hm rfl
      exact ⟨d', hd, Or.inr ⟨hsw, Or.inr hs'⟩⟩
    · exact ⟨d, hs.setModem_same, Or.inr ⟨hsw, Or.inr hs⟩⟩

/-- **One more call.** -/
theorem call_after {cs : List Call} {d : Demodulator} (h : After cs d) (c : Call)
    (hc : c ≠ .setModem .FM) : ∃ d', d.call c = .ok d' ∧ After (cs ++ [c]) d' := by
  by_cases hset : ∃ mode, c = .setModem mode
  · obtain ⟨mode, rfl⟩ := hset
    exact call_after_setModem h mode fun hm => hc (by rw [hm])
  · have hno : ∀ m, c ≠ .setModem m := fun m hm => hset ⟨m, hm⟩
    have hsnoc : Unswitched (cs ++ [c]) ↔ Unswitched cs := by
      rw [unswitched_snoc]
      exact and_iff_left fun m hm => absurd hm (hno m)
    rcases h with ⟨hu, hs, hmute⟩ | ⟨hu, hs | hs⟩
    · obtain ⟨d', hd, hs', hmute'⟩ := hs.call c hno
      exact ⟨d', hd, Or.inl ⟨hsnoc.mpr hu, hs', hmute' rfl hmute⟩⟩
    · obtain ⟨d', hd, hs', -⟩ := hs.call c hno
      exact ⟨d', hd, Or.inr ⟨fun hu' => hu (hsnoc.mp hu'), Or.inl hs'⟩⟩
    · obtain ⟨d', hd, hs', -⟩ := hs.call c hno
      exact ⟨d', hd, Or.inr ⟨fun hu' => hu (hsnoc.mp hu'), Or.inr hs'⟩⟩

/-- **Every sequence of calls** after `start`. -/
theorem run_stands (cubic : CubicSDR) (cs : List Call) (hcs : Call.setModem .FM ∉ cs) :
    ∃ d, run cs (start cubic) = .ok d ∧ After cs d := by
  induction cs using List.reverseRecOn with
  | nil => exact ⟨_, rfl, stands_start cubic⟩
  | append_singleton cs c ih =>
    obtain ⟨d, hd, hafter⟩ := ih fun h => hcs (List.mem_append_left _ h)
    obtain ⟨d', hd', hafter'⟩ := call_after hafter c fun h => hcs (by simp [h])
    refine ⟨d', ?_, hafter'⟩
    rw [run_append, hd]
    simp only [run, hd']

/-! ## No call fails -/

/-- A demodulator that `start` made, after calls for NFM and AM. -/
def Ready (d : Demodulator) : Prop := ∃ cs, After cs d

theorem ready_start (cubic : CubicSDR) : Ready (start cubic) := ⟨[], stands_start cubic⟩

theorem Ready.call {d : Demodulator} (h : Ready d) (c : Call) (hc : c ≠ .setModem .FM) :
    ∃ d', d.call c = .ok d' ∧ Ready d' := by
  obtain ⟨cs, hcs⟩ := h
  obtain ⟨d', hd, hafter⟩ := call_after hcs c hc
  exact ⟨d', hd, _, hafter⟩

theorem Ready.of_call {d d' : Demodulator} (h : d.Ready) {c : Call} (hc : c ≠ .setModem .FM)
    (hd : d.call c = .ok d') : d'.Ready := by
  obtain ⟨d₁, hd₁, hr⟩ := h.call c hc
  obtain rfl := Except.ok.inj (hd₁.symm.trans hd)
  exact hr

theorem Ready.squelchThresholdMet {d : Demodulator} (h : Ready d) (met : Bool) :
    d.squelchThresholdMet met = .ok (met, d) := by
  have hstands : ∃ mode tuned measured, Stands mode tuned measured d := by
    obtain ⟨cs, ⟨-, hs, -⟩ | ⟨-, hs | hs⟩⟩ := h
    · exact ⟨_, _, _, hs⟩
    · exact ⟨_, _, _, hs⟩
    · exact ⟨_, _, _, hs⟩
  obtain ⟨mode, tuned, measured, hs⟩ := hstands
  simp [Demodulator.squelchThresholdMet, DemodulatorMgr.getActiveContextModem, hs.context, hs.active]

/-! ## The modem that is measured and heard -/

/-- Opening the squelch unmutes the tuned modem. -/
theorem Stands.heard_tuned {mode m : Modulation} {tuned measured : Nat} {d : Demodulator}
    (h : Stands mode tuned measured d) (ht : tuned < 2) {f : Int} (hin : InStep m f d) :
    tuned = measured := by
  obtain ⟨⟨demod, hlook, hmeas, -⟩, d', hd', hheard⟩ := hin
  rw [(h.squelchBreak true).1, Except.ok.injEq] at hd'
  subst hd'
  have hlt : tuned < d.demodMgr.demods.length := by
    rw [h.two]
    exact ht
  have hunmuted := (hheard tuned _ (by
    rw [getElem?_onModem, if_pos rfl, List.getElem?_eq_getElem hlt, Option.map_some])).mp rfl
  have hcontext : d.demodMgr.getActiveContextModem.1 = some measured := by
    simp [DemodulatorMgr.getActiveContextModem, h.context, h.active]
  rw [hlook] at hunmuted
  rw [hcontext] at hmeas
  exact (Option.some.inj hunmuted).symm.trans (Option.some.inj hmeas).symm

/-- While nothing is switched, the NFM modem is tuned, measured and heard. -/
theorem Stands.inStep {d : Demodulator} (h : Stands .NFM 0 0 d) (hmute : AMMuted d) {f : Int}
    (hf : (d.demodMgr.demods[0]?).map DemodulatorInstance.frequency = some f) :
    InStep .NFM f d := by
  have hlook : d.demods.lookup .NFM = some 0 := by
    rw [h.demods]
    rfl
  refine ⟨⟨0, hlook, ?_, hf⟩, _, (h.squelchBreak true).1, ?_⟩
  · simp [DemodulatorMgr.getActiveContextModem, h.context, h.active]
  · intro demod inst hi
    have hlt : demod < 2 := by
      rw [← (h.squelchBreak true).2.two]
      exact (List.getElem?_eq_some_iff.mp hi).1
    rw [hlook, Option.some.injEq]
    match demod, hlt with
    | 0, _ =>
      rw [getElem?_onModem, if_pos rfl] at hi
      obtain ⟨inst', -, rfl⟩ := Option.map_eq_some_iff.mp hi
      simp [DemodulatorInstance.setMuted]
    | 1, _ =>
      rw [getElem?_onModem, if_neg (by decide)] at hi
      simp [hmute inst hi]

/-- **The modem that is tuned is measured and heard** if and only if no call
has switched the modulation since `start`. -/
theorem inStep_iff_unswitched (cubic : CubicSDR) (cs : List Call) (hcs : Call.setModem .FM ∉ cs)
    (m : Modulation) (hm : m ≠ .FM) (f : Int) (hf : 12500 / 2 < f) :
    (∃ d, run (cs ++ [.setModem m, .setFrequency f]) (start cubic) = .ok d ∧ InStep m f d) ↔
      m = .NFM ∧ ∀ mode, Call.setModem mode ∈ cs → mode = .NFM := by
  have hcs₁ : Call.setModem .FM ∉ cs ++ [.setModem m] := by
    simp [hcs, hm.symm]
  have hun : Unswitched (cs ++ [.setModem m]) ↔ Unswitched cs ∧ m = .NFM := by
    rw [unswitched_snoc]
    simp
  obtain ⟨d₁, hrun₁, hafter₁⟩ := run_stands cubic _ hcs₁
  have hrun : run (cs ++ [.setModem m, .setFrequency f]) (start cubic) = d₁.setFrequency f := by
    rw [List.append_cons, run_append, hrun₁]
    simp only [run, call]
    cases d₁.setFrequency f <;> rfl
  rw [hrun]
  constructor
  · rintro ⟨d, hd, hin⟩
    obtain ⟨hu, -⟩ | ⟨-, hs⟩ := hafter₁
    · exact (hun.mp hu).symm
    · -- after a switch, opening the squelch unmutes the other modem
      rcases hs with hs | hs
      · obtain ⟨d', hd', hs', -⟩ := hs.setFrequency f
        obtain rfl : d' = d := Except.ok.inj (hd'.symm.trans hd)
        cases hs'.heard_tuned (by decide) hin
      · obtain ⟨d', hd', hs', -⟩ := hs.setFrequency f
        obtain rfl : d' = d := Except.ok.inj (hd'.symm.trans hd)
        cases hs'.heard_tuned (by decide) hin
  · rintro ⟨rfl, hu⟩
    obtain ⟨-, hs, hmute⟩ | ⟨hsw, -⟩ := hafter₁
    · obtain ⟨d, hd, hs', hmute', hfreq⟩ := hs.setFrequency f
      have hlt : 0 < d₁.demodMgr.demods.length := by
        rw [hs.two]
        decide
      have hnarrow := hs.narrow 0 _ (List.getElem?_eq_getElem hlt)
      refine ⟨d, hd, hs'.inStep (hmute' rfl hmute) ?_⟩
      rw [hfreq _ (List.getElem?_eq_getElem hlt), Option.map_some, Option.some.injEq]
      apply DemodulatorInstance.frequency_setFrequency
      rw [DemodulatorInstance.bandwidth_setFrequency, hnarrow]
      exact hf
    · exact absurd (hun.mpr ⟨hu, rfl⟩) hsw

/-- A tuner at its initial frequency. -/
def tuner : CubicSDR := { frequency := 100000000, sampleRate := 2048000, sdrThread := [] }

theorem inStep_iff_unswitched_nfm :
    ∃ d, run [.squelchBreak true, .setFrequency 162000000, .setModem .NFM, .setFrequency 162550000]
      (start tuner) = .ok d ∧ InStep .NFM 162550000 d :=
  (inStep_iff_unswitched tuner [.squelchBreak true, .setFrequency 162000000] (by decide) .NFM
    (by decide) 162550000 (by decide)).mpr ⟨rfl, by simp⟩

/-- The first AM entry after `start` tunes and opens the NFM modem. -/
theorem not_inStep_am :
    ¬∃ d, run [.setModem .AM, .setFrequency 118000000] (start tuner) = .ok d ∧
      InStep .AM 118000000 d := by
  rintro ⟨d, hd, -, d', hd', hheard⟩
  cases hd
  cases hd'
  have hlook := (hheard 0 _ rfl).mp rfl
  cases hlook

end PiScan.Sigproc.Demodulator

import PiScan.Sigproc.Modem

/-!
# Which modems are open

`squelchBreak` opens and mutes the current modem of the manager, and a
`setModem` that switches changes which modem that is.

* `SameAudio.setFrequency`, `SameAudio.setTunerFrequency`: tuning leaves the
  audio alone;
* `OnlyCurrent.mute`: where only the current modem may be open, muting it mutes
  all of them;
* `Closed.setModem`: a switch opens nothing.
-/

namespace PiScan.Sigproc

theorem DemodulatorMgr.demods_updateLastState (mgr : DemodulatorMgr) :
    mgr.updateLastState.demods = mgr.demods := by
  unfold updateLastState
  simp only
  split_ifs
  · rfl
  · rfl
  all_goals
    split
    · rfl
    · split_ifs <;> rfl

theorem DemodulatorMgr.demods_setActiveDemodulator (demod : Nat) (temporary : Bool)
    (mgr : DemodulatorMgr) : (mgr.setActiveDemodulator demod temporary).demods = mgr.demods := by
  unfold setActiveDemodulator
  cases temporary with
  | true => rfl
  | false =>
    cases mgr.activeContextModem with
    | none => exact demods_updateLastState _
    | some active =>
      exact (demods_updateLastState _).trans (demods_updateLastState _)

namespace Demodulator

variable {d d' : Demodulator}

/-- The modem at `demod` is not muted. -/
def Open (demod : Nat) (d : Demodulator) : Prop :=
  ∃ inst, d.demodMgr.demods[demod]? = some inst ∧ inst.muted = false

/-- All modems in `_demods` are muted. -/
def AllMuted (d : Demodulator) : Prop := ∀ entry ∈ d.demods, ¬d.Open entry.2

/-- Of the modems in `_demods` at most one is not muted. -/
def AtMostOneOpen (d : Demodulator) : Prop :=
  ∀ a ∈ d.demods, ∀ b ∈ d.demods, d.Open a.2 → d.Open b.2 → a.2 = b.2

/-- No modem is open. -/
def Closed (d : Demodulator) : Prop := ∀ demod, ¬d.Open demod

/-- No modem is open but the one that `squelchBreak` acts on. -/
def OnlyCurrent (d : Demodulator) : Prop :=
  ∀ demod, d.Open demod → d.demodMgr.currentModem = some demod

theorem Closed.allMuted (h : d.Closed) : d.AllMuted := fun entry _ => h entry.2

theorem Closed.onlyCurrent (h : d.Closed) : d.OnlyCurrent := by
  intro demod hopen
  exact absurd hopen (h demod)

theorem OnlyCurrent.atMostOneOpen (h : d.OnlyCurrent) : d.AtMostOneOpen := by
  intro a _ b _ ha hb
  exact Option.some.inj ((h a.2 ha).symm.trans (h b.2 hb))

theorem closed_start (cubic : CubicSDR) : (start cubic).Closed := by
  rintro demod ⟨inst, hinst, hopen⟩
  have hd : (start cubic).demodMgr.demods = [newDemod, newDemod] := rfl
  rw [hd] at hinst
  obtain rfl : inst = newDemod := by simpa using List.mem_of_getElem? hinst
  cases hopen

/-- The same modems are open, and `squelchBreak` and `setModem` stand where they were. -/
structure SameAudio (d d' : Demodulator) : Prop where
  opens : ∀ demod, d'.Open demod ↔ d.Open demod
  current : d'.demodMgr.currentModem = d.demodMgr.currentModem
  modem : d'.currentModem = d.currentModem

theorem SameAudio.refl (d : Demodulator) : SameAudio d d := ⟨fun _ => Iff.rfl, rfl, rfl⟩

theorem SameAudio.trans {a b c : Demodulator} (h : SameAudio a b) (h' : SameAudio b c) :
    SameAudio a c :=
  ⟨fun demod => (h'.opens demod).trans (h.opens demod), h'.current.trans h.current,
    h'.modem.trans h.modem⟩

theorem SameAudio.closed (h : SameAudio d d') (hd : d.Closed) : d'.Closed := by
  intro demod hopen
  exact hd demod ((h.opens demod).mp hopen)

theorem SameAudio.onlyCurrent (h : SameAudio d d') (hd : d.OnlyCurrent) : d'.OnlyCurrent := by
  intro demod hopen
  rw [h.current]
  exact hd demod ((h.opens demod).mp hopen)

/-! ## The calls -/

theorem onCurrentModem_ok {f : DemodulatorInstance → DemodulatorInstance}
    (h : d.onCurrentModem f = .ok d') :
    ∃ demod, d.demodMgr.currentModem = some demod ∧ d' = d.onModem demod f := by
  cases hcur : d.demodMgr.currentModem with
  | none =>
    simp only [onCurrentModem, DemodulatorMgr.getCurrentModem, hcur] at h
    cases h
  | some demod =>
    rw [onCurrentModem_eq hcur] at h
    exact ⟨demod, rfl, (Except.ok.inj h).symm⟩

/-- A change of a modem that leaves its mute alone. -/
theorem open_onModem {f : DemodulatorInstance → DemodulatorInstance}
    (hf : ∀ inst, (f inst).muted = inst.muted) (demod : Nat) (d : Demodulator) (j : Nat) :
    (d.onModem demod f).Open j ↔ d.Open j := by
  unfold Open
  rw [getElem?_onModem]
  by_cases h : demod = j
  · cases d.demodMgr.demods[j]? <;> simp [h, hf]
  · simp [h]

theorem SameAudio.onModem {f : DemodulatorInstance → DemodulatorInstance}
    (hf : ∀ inst, (f inst).muted = inst.muted) (demod : Nat) (d : Demodulator) :
    SameAudio d (d.onModem demod f) :=
  ⟨open_onModem hf demod d, rfl, rfl⟩

theorem SameAudio.onCurrentModem {f : DemodulatorInstance → DemodulatorInstance}
    (hf : ∀ inst, (f inst).muted = inst.muted) (h : d.onCurrentModem f = .ok d') :
    SameAudio d d' := by
  obtain ⟨demod, -, rfl⟩ := onCurrentModem_ok h
  exact .onModem hf demod d

theorem muted_setFrequency (freq : Int) (inst : DemodulatorInstance) :
    (inst.setFrequency freq).muted = inst.muted := rfl

theorem SameAudio.retune (freq : Int) (d : Demodulator) : SameAudio d (d.retune freq) := by
  unfold Demodulator.retune
  split
  · exact ⟨fun _ => Iff.rfl, rfl, rfl⟩
  · exact .refl d

theorem SameAudio.setFrequency {freq : Int} (h : d.setFrequency freq = .ok d') :
    SameAudio d d' := by
  unfold Demodulator.setFrequency at h
  split at h
  · cases h
  · rename_i d₁ h₁
    split at h
    · cases h
    · rename_i d₂ h₂
      obtain rfl := Except.ok.inj h
      have hfirst : SameAudio d d₁ := .onCurrentModem (muted_setFrequency freq) h₁
      have hsecond : SameAudio (d₁.retune freq) d₂ :=
        .onCurrentModem (muted_setFrequency freq) h₂
      have hlast := hfirst.trans ((SameAudio.retune freq d₁).trans hsecond)
      exact ⟨hlast.opens, hlast.current, hlast.modem⟩

theorem SameAudio.setTunerFrequency {freq : Int} (h : d.setTunerFrequency freq = .ok d') :
    SameAudio d d' := by
  have hcubic : SameAudio d { d with cubic := d.cubic.setFrequency freq } :=
    ⟨fun _ => Iff.rfl, rfl, rfl⟩
  exact hcubic.trans (.onCurrentModem (muted_setFrequency freq) h)

/-- Muting the current modem mutes every modem. -/
theorem OnlyCurrent.mute (hd : d.OnlyCurrent) (h : d.squelchBreak false = .ok d') : d'.Closed := by
  obtain ⟨demod, hcur, rfl⟩ := onCurrentModem_ok h
  rintro j ⟨inst, hinst, hopen⟩
  rw [getElem?_onModem] at hinst
  split at hinst
  · obtain ⟨inst', -, rfl⟩ := Option.map_eq_some_iff.mp hinst
    cases hopen
  · rename_i hne
    have hsame := hd j ⟨inst, hinst, hopen⟩
    rw [hcur] at hsame
    exact hne (Option.some.inj hsame)

/-- `squelchBreak` acts on the current modem only. -/
theorem OnlyCurrent.squelchBreak (hd : d.OnlyCurrent) {mute : Bool}
    (h : d.squelchBreak mute = .ok d') : d'.OnlyCurrent := by
  obtain ⟨demod, hcur, rfl⟩ := onCurrentModem_ok h
  rintro j ⟨inst, hinst, hopen⟩
  rw [getElem?_onModem] at hinst
  change d.demodMgr.currentModem = some j
  split at hinst
  · rename_i heq
    rw [hcur, heq]
  · exact hd j ⟨inst, hinst, hopen⟩

theorem currentModem_squelchBreak {mute : Bool} (h : d.squelchBreak mute = .ok d') :
    d'.currentModem = d.currentModem := by
  obtain ⟨demod, -, rfl⟩ := onCurrentModem_ok h
  rfl

/-- A switch opens nothing. -/
theorem open_setModem {mode : Modulation} (h : d.setModem mode = .ok d') (j : Nat) :
    d'.Open j ↔ d.Open j := by
  unfold setModem at h
  split at h
  · rw [Except.ok.inj h]
  · split at h
    · rename_i demod old _ _
      obtain rfl := Except.ok.inj h
      have hfirst := open_onModem (f := (·.setActive true)) (fun _ => rfl) demod d j
      have hlast := open_onModem (f := (·.setActive false)) (fun _ => rfl) old
        { d.onModem demod (·.setActive true) with
          demodMgr := (d.onModem demod (·.setActive true)).demodMgr.setActiveDemodulator demod
            false } j
      have hmid : Open j { d.onModem demod (·.setActive true) with
          demodMgr := (d.onModem demod (·.setActive true)).demodMgr.setActiveDemodulator demod
            false } ↔ (d.onModem demod (·.setActive true)).Open j := by
        unfold Open
        rw [DemodulatorMgr.demods_setActiveDemodulator]
      exact hlast.trans (hmid.trans hfirst)
    · cases h

theorem Closed.setModem (hd : d.Closed) {mode : Modulation} (h : d.setModem mode = .ok d') :
    d'.Closed := by
  intro demod hopen
  exact hd demod ((open_setModem h demod).mp hopen)

theorem currentModem_setModem {mode : Modulation} (h : d.setModem mode = .ok d') :
    d'.currentModem = mode := by
  unfold Demodulator.setModem at h
  split at h
  · rename_i heq
    rw [← Except.ok.inj h]
    exact heq
  · split at h
    · rw [← Except.ok.inj h]
    · cases h

/-- The modulation is the one asked for. -/
theorem setModem_same (hmode : d.currentModem = mode) (h : d.setModem mode = .ok d') : d' = d := by
  unfold setModem at h
  rw [if_pos hmode] at h
  exact (Except.ok.inj h).symm

end Demodulator

end PiScan.Sigproc

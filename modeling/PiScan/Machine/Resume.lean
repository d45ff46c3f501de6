import PiScan.Machine.Restart
import PiScan.Scan.Fairness

/-!
# Where the next start resumes

The thread saves after it has scanned, held or received, and the program is
started again over what was saved.

* `Resumes`: where the next start should be;
* `Restores`: what the data must be for that;
* `World.resumes_iff`: the next start resumes where the scanner stopped if and
  only if the manual mode is true of the entry, a manual frequency is an `int`, no
  hold was asked for while the thread scanned, and a dummy is not mistaken for
  another one.
-/

namespace PiScan.Machine

open Scan Sigproc Runs TwosComplement PropertyTree

/-! ## Keys and indices -/

theorem not_mem_toString (n : Int) : 'M' ∉ (toString n).toList := by
  have hdigits : ∀ m : Nat, 'M' ∉ Nat.toDigits 10 m := by
    intro m hm
    have hdigit := Nat.isDigit_of_mem_toDigits (by decide) (by decide) hm
    exact absurd hdigit (by decide)
  cases n with
  | ofNat m =>
    rw [toList_toString_ofNat]
    exact hdigits m
  | negSucc m =>
    rw [toList_toString_negSucc, List.mem_cons, not_or]
    exact ⟨by decide, hdigits (m + 1)⟩

/-- The key of a channel names its modulation; that of a dummy is a frequency. -/
theorem key_ne_dummy {e e' : Entry} (h : e.isDummy = false) (h' : e'.isDummy = true) :
    e.key ≠ e'.key := by
  have hreal : 'M' ∈ e.key.toList := by
    unfold Entry.key
    cases ht : e.type <;> simp [Entry.isDummy, ht] at h ⊢
  have hdummy : 'M' ∉ e'.key.toList := by
    have ht : e'.type = .dummy := by simpa [Entry.isDummy] using h'
    have hnot := not_mem_toString e'.frequency
    simpa [Entry.key, ht] using hnot
  intro heq
  rw [heq] at hreal
  exact hdummy hreal

/-- The index of an entry finds the entry. -/
theorem getEntryByIndex_holds {sl : SystemList} (ha : sl.Addressed) {i k : Nat} {s : AnalogSystem}
    {e : Entry} (h : sl.Holds i k s e) :
    sl.getEntryByIndex 64 [i, k] = .ok (.channel i k, sl) := by
  have hi : i < sl.systems.length := (List.getElem?_eq_some_iff.mp h.1).1
  have hk : k < s.entries.length := (List.getElem?_eq_some_iff.mp h.2).1
  have hnum := (ha i s h.1).numEntries
  have hin : ¬((i : Int) < 0 ∨ (k : Int) < 0 ∨ (sl.size : Int) ≤ i) := by
    simp only [SystemList.size]
    omega
  have hsize : ¬(s.size : Int) ≤ k := by
    simp only [AnalogSystem.size]
    omega
  unfold SystemList.getEntryByIndex
  simp only [if_neg hin, Int.toNat_natCast, h.1, if_neg hsize, if_pos hk]

/-- The first index of a list whose first system has no entries finds the next entry. -/
theorem getEntryByIndex_none {sl : SystemList} (ha : sl.Addressed) {s : AnalogSystem}
    (h₀ : sl.systems[0]? = some s) (hnil : s.entries = []) :
    sl.getEntryByIndex 64 [0, 0] = sl.getNextEntry 64 := by
  have hnum : s.size = 0 := by
    have hcount := (ha 0 s h₀).numEntries
    rwa [hnil] at hcount
  unfold SystemList.getEntryByIndex
  simp only [Int.toNat_zero, h₀, hnum]
  split
  · rfl
  · rfl

namespace ThreadData

variable {d : ThreadData}

theorem entry_owned {e : Entry} (h : d.currentEntry = some (.owned e)) : d.entry = .ok e := by
  rw [entry, h]
  rfl

theorem entry_channel {i k : Nat} {s : AnalogSystem} {e : Entry}
    (h : d.currentEntry = some (.channel i k)) (hholds : d.systems.Holds i k s e) :
    d.entry = .ok e := by
  rw [entry, h, ← SystemList.deref_channel hholds]

/-- The manual entry is no entry of the list. -/
theorem Inventory.owned_of_onManual (h : d.Inventory) (hon : d.OnManual) :
    ∃ freq modulation, d.currentEntry = some (.owned (makeManualEntry freq modulation)) := by
  obtain ⟨p, hp, hcur⟩ := hon
  obtain ⟨freq, modulation, rfl⟩ := h.manual p hp
  exact ⟨freq, modulation, hcur⟩

theorem Inventory.not_onManual_channel (h : d.Inventory) {i k : Nat}
    (hcur : d.currentEntry = some (.channel i k)) : ¬d.OnManual := by
  intro hon
  obtain ⟨freq, modulation, hcur'⟩ := h.owned_of_onManual hon
  cases hcur.symm.trans hcur'

/-- Every other entry is known to the list. -/
theorem Inventory.known (h : d.Inventory) {p : EntryPtr} (hcur : d.currentEntry = some p)
    (hno : ¬d.OnManual) : d.systems.Known p :=
  (h.current p hcur).resolve_left fun hman => hno ⟨p, hman, hcur⟩

theorem mode_off (h : d.manualMode = true ↔ d.OnManual) (hno : ¬d.OnManual) :
    d.manualMode = false := by
  rw [← Bool.not_eq_true]
  exact fun hm => hno (h.mp hm)

theorem freq_makeManualEntry (freq : Int) (modulation : String) :
    (makeManualEntry freq modulation).freq = wrap 64 freq := by
  unfold makeManualEntry
  split
  · rfl
  · split <;> rfl

theorem modulation_makeManualEntry (freq : Int) (modulation : String) :
    (makeManualEntry freq modulation).modulation = "NFM" ∨
      (makeManualEntry freq modulation).modulation = "AM" := by
  unfold makeManualEntry
  split
  · exact .inl rfl
  · split
    · exact .inr rfl
    · exact .inl rfl

/-- A manual entry that is made again from what it shows. -/
theorem modulation_makeManualEntry_again {modulation : String}
    (h : modulation = "NFM" ∨ modulation = "AM") (freq : Int) :
    (makeManualEntry freq modulation).modulation = modulation := by
  rcases h with rfl | rfl
  · rfl
  · rfl

end ThreadData

namespace World

variable {w w' : World} {last : States} {i k : Nat} {e : Entry}

/-! ## Where the scanner stopped, and where it is next -/

/-- The thread holds or receives the database entry at `i`, `k` for a client. -/
structure HeldEntry (last : States) (w : World) (i k : Nat) (e : Entry) : Prop where
  last : last ≠ .ST_SCAN
  flag : w.sm.externalHold = true
  current : w.sm.data.currentEntry = some (.channel i k)
  entry : w.sm.data.entry = .ok e

/-- The thread is about to hold, for a client, on the entry with these indices and this key. -/
structure HoldsOn (i k : Nat) (key : String) (w : World) : Prop where
  pc : w.pc = .hold true
  flag : w.sm.externalHold = true
  mode : w.sm.data.manualMode = false
  current : w.sm.data.currentEntry = some (.channel i k)
  entry : ∃ e, w.sm.data.entry = .ok e ∧ e.sysIndex = i ∧ e.entryIndex = k ∧ e.key = key

/-- The thread is about to hold on a manual entry. -/
structure HoldsManual (freq : Int) (modulation : String) (w : World) : Prop where
  pc : w.pc = .hold true
  flag : w.sm.externalHold = true
  mode : w.sm.data.manualMode = true
  manual : w.sm.data.OnManual
  entry : ∃ e, w.sm.data.entry = .ok e ∧ e.freq = freq ∧ e.modulation = modulation

/-- **The next start `w'` resumes** what `w` did in its last handler. -/
structure Resumes (last : States) (w w' : World) : Prop where
  held : ∀ i k e, w.HeldEntry last i k e → w'.HoldsOn i k e.key
  manual : ∀ e, w.sm.data.OnManual → w.sm.data.entry = .ok e → w'.HoldsManual e.freq e.modulation
  scan : (∀ i k e, ¬w.HeldEntry last i k e) → ¬w.sm.data.OnManual → w'.pc = .scan

/-- The first entry of the list, saved, loaded and sorted again, has the key `key`. -/
def FirstKey (cubic : CubicSDR) (sl : SystemList) (key : String) : Prop :=
  ∃ base p sl', Reloaded cubic sl.writeToFile base ∧ base.getNextEntry 64 = .ok (p, sl') ∧
    (base.deref p).key = key

/-- **What the next start needs.**  A hold that comes while the thread scans leaves a flag
that is saved as a hold; with it, a dummy is saved as the entry 0-0. -/
structure Restores (cubic : CubicSDR) (last : States) (w : World) : Prop where
  mode : w.sm.data.manualMode = true ↔ w.sm.data.OnManual
  frequency : w.sm.data.OnManual → ∀ e, w.sm.data.entry = .ok e → Fits 32 e.freq
  index : w.sm.externalHold = true → ∀ i k, w.sm.data.currentEntry = some (.channel i k) →
    last ≠ .ST_SCAN ∧ Fits 32 i ∧ Fits 32 k
  dummy : w.sm.externalHold = true → ∀ e, w.sm.data.currentEntry = some (.owned e) →
    e.isDummy = true → (∀ s, w.sm.data.systems.systems[0]? = some s → s.entries = []) →
    ¬FirstKey cubic w.sm.data.systems e.key

/-- The next start over what `ST_SaveAll` has left. -/
def nextStart (cubic : CubicSDR) (pTree : Tree) (w : World) : Option World :=
  restart cubic w.sm.data.file (.load (w.sm.data.state.save pTree) .new)

/-! ## One save and one start -/

/-- `w` is about to save `state`; its list is `base`, loaded and sorted again. -/
structure Saves (cubic : CubicSDR) (w : World) (state : ScannerState) (base : SystemList) :
    Prop where
  inventory : w.sm.data.Inventory
  nonempty : w.sm.data.systems.size ≠ 0
  state : w.sm.data.savedState w.sm.externalHold = .ok state
  reloaded : Reloaded cubic w.sm.data.systems.writeToFile base
  binned : SystemList.Binned 64 cubic.sampleRate base
  systems : base.systems = w.sm.data.systems.systems

section Saves

variable {cubic : CubicSDR} {state : ScannerState} {base : SystemList}

/-- The start over what was saved. -/
def again (cubic : CubicSDR) (w : World) (state : ScannerState) : Option World :=
  restart cubic w.sm.data.systems.writeToFile state.found

theorem Saves.size_ne (h : w.Saves cubic state base) : base.size ≠ 0 := by
  rw [SystemList.size, h.systems]
  exact h.nonempty

/-- What is found, by the mode and the flag. -/
theorem Saves.cases (h : w.Saves cubic state base) :
    (w.sm.data.manualMode = true ∧ ∃ e, w.sm.data.entry = .ok e ∧
      state.found.scanState = SCAN_STATE_MANUAL ∧
      state.found.manualFreq = (if Fits 32 e.freq then e.freq else 100000000) ∧
      state.found.manualModualtion = e.modulation) ∨
    (w.sm.data.manualMode = false ∧ w.sm.externalHold = true ∧ ∃ e, w.sm.data.entry = .ok e ∧
      state.found.scanState = SCAN_STATE_HOLD ∧
      state.found.holdIndex = [wrap 32 e.sysIndex, wrap 32 e.entryIndex] ∧
      state.found.holdKey = e.key) ∨
    (w.sm.data.manualMode = false ∧ w.sm.externalHold = false ∧
      state.found.scanState = SCAN_STATE_SCAN) := by
  rcases savedState_cases h.state with ⟨hm, e, he, rfl⟩ | ⟨hm, hf, e, he, rfl⟩ | ⟨hm, hf, rfl⟩
  · exact .inl ⟨hm, e, he, rfl, rfl, rfl⟩
  · exact .inr (.inl ⟨hm, hf, e, he, rfl, rfl, rfl⟩)
  · exact .inr (.inr ⟨hm, hf, rfl⟩)

/-- **The mode survives**, true or not. -/
theorem Saves.mode_again (h : w.Saves cubic state base) (hw : again cubic w state = some w') :
    w'.sm.data.manualMode = w.sm.data.manualMode := by
  rcases h.cases with ⟨hm, e, -, hs, -⟩ | ⟨hm, -, e, -, hs, -⟩ | ⟨hm, -, hs⟩
  · obtain ⟨w₁, hw₁, -, -, hd⟩ := restart_manual h.reloaded hs
    obtain rfl := Option.some.inj (hw.symm.trans hw₁)
    rw [hm, hd]
    rfl
  · rw [hm]
    exact restart_hold_mode h.reloaded h.size_ne hs hw
  · obtain ⟨w₁, hw₁, -, hmode⟩ := restart_scan h.reloaded h.size_ne hs
    obtain rfl := Option.some.inj (hw.symm.trans hw₁)
    rw [hm, hmode]

theorem Saves.again_scan (h : w.Saves cubic state base) (hm : w.sm.data.manualMode = false)
    (hf : w.sm.externalHold = false) : ∃ w', again cubic w state = some w' ∧ w'.pc = .scan := by
  rcases h.cases with ⟨hm', -⟩ | ⟨-, hf', -⟩ | ⟨-, -, hs⟩
  · exact absurd (hm.symm.trans hm') (by decide)
  · exact absurd (hf.symm.trans hf') (by decide)
  · obtain ⟨w', hw, hpc, -⟩ := restart_scan h.reloaded h.size_ne hs
    exact ⟨w', hw, hpc⟩

/-- What is found after a save in manual mode. -/
theorem Saves.found_manual (h : w.Saves cubic state base) (hm : w.sm.data.manualMode = true) :
    ∃ e, w.sm.data.entry = .ok e ∧ state.found.scanState = SCAN_STATE_MANUAL ∧
      state.found.manualFreq = (if Fits 32 e.freq then e.freq else 100000000) ∧
      state.found.manualModualtion = e.modulation := by
  rcases h.cases with ⟨-, hfound⟩ | ⟨hm', -⟩ | ⟨hm', -⟩
  · exact hfound
  · exact absurd (hm.symm.trans hm') (by decide)
  · exact absurd (hm.symm.trans hm') (by decide)

/-- What is found after a save with the flag. -/
theorem Saves.found_hold (h : w.Saves cubic state base) (hm : w.sm.data.manualMode = false)
    (hf : w.sm.externalHold = true) :
    ∃ e, w.sm.data.entry = .ok e ∧ state.found.scanState = SCAN_STATE_HOLD ∧
      state.found.holdIndex = [wrap 32 e.sysIndex, wrap 32 e.entryIndex] ∧
      state.found.holdKey = e.key := by
  rcases h.cases with ⟨hm', -⟩ | ⟨-, -, hsaved⟩ | ⟨-, hf', -⟩
  · exact absurd (hm.symm.trans hm') (by decide)
  · exact hsaved
  · exact absurd (hf.symm.trans hf') (by decide)

theorem Saves.again_manual (h : w.Saves cubic state base) (hm : w.sm.data.manualMode = true)
    (he : w.sm.data.entry = .ok e) :
    ∃ w', again cubic w state = some w' ∧ w'.pc = .hold true ∧ w'.sm.externalHold = true ∧
      ∃ d : ThreadData, w'.sm.data =
        d.manual (if Fits 32 e.freq then e.freq else 100000000) e.modulation := by
  obtain ⟨e', he', hs, hfreq, hmodulation⟩ := h.found_manual hm
  obtain rfl := Except.ok.inj (he.symm.trans he')
  obtain ⟨w', hw, hpc, hflag, hd⟩ := restart_manual h.reloaded hs
  rw [← hfreq, ← hmodulation]
  exact ⟨w', hw, hpc, hflag, _, hd⟩

/-- A hold on an entry of the list. -/
theorem Saves.again_entry (h : w.Saves cubic state base) (hm : w.sm.data.manualMode = false)
    (hf : w.sm.externalHold = true) {s : AnalogSystem}
    (hholds : w.sm.data.systems.Holds i k s e)
    (hcur : w.sm.data.currentEntry = some (.channel i k)) (hi : Fits 32 i) (hk : Fits 32 k) :
    ∃ w', again cubic w state = some w' ∧ w'.HoldsOn i k e.key := by
  obtain ⟨e', he, hs, hindex, hkey⟩ := h.found_hold hm hf
  have hentry := ThreadData.entry_channel hcur hholds
  obtain rfl := Except.ok.inj (hentry.symm.trans he)
  -- the entry knows its index, and so does the list that is loaded again
  have haddr := (h.inventory.stocked.loaded.addressed i s hholds.1).entries k e hholds.2
  have hagain : base.Holds i k s e := ⟨h.systems ▸ hholds.1, hholds.2⟩
  rw [haddr.1, haddr.2, wrap_of_fits (by decide) hi, wrap_of_fits (by decide) hk] at hindex
  have hp := hindex ▸ getEntryByIndex_holds h.binned.addressed hagain
  have hderef : base.deref (.channel i k) = e := SystemList.deref_channel hagain
  obtain ⟨w', hw, hpc, hflag, hd⟩ :=
    restart_hold h.reloaded hs (by rw [hindex]; simp) hp (by rw [hderef, hkey])
  have hentry' : w'.sm.data.entry = .ok e := by
    rw [hd]
    exact congrArg Except.ok hderef
  exact ⟨w', hw, hpc, hflag, by rw [hd]; rfl, by rw [hd], e, hentry', haddr.1, haddr.2, rfl⟩

/-- The first entry is the one that `getNextEntry` hands out. -/
theorem firstKey_iff {sl sl' : SystemList} {p : EntryPtr} {key : String}
    (h : Reloaded cubic sl.writeToFile base) (hnext : base.getNextEntry 64 = .ok (p, sl')) :
    FirstKey cubic sl key ↔ (base.deref p).key = key := by
  constructor
  · rintro ⟨base', p', sl'', ⟨fresh', hload', hsort'⟩, hnext', hkey⟩
    obtain ⟨fresh, hload, hsort⟩ := h
    obtain rfl := Except.ok.inj (hload.symm.trans hload')
    obtain rfl := Except.ok.inj (hsort.symm.trans hsort')
    obtain ⟨rfl, -⟩ := Prod.mk.inj (Except.ok.inj (hnext.symm.trans hnext'))
    exact hkey
  · intro hkey
    exact ⟨base, p, sl', h, hnext, hkey⟩

section Dummy

variable {center : Int} {s₀ : AnalogSystem}

/-- A dummy is saved as the entry 0-0, with its own key. -/
theorem Saves.found_dummy (h : w.Saves cubic state base) (hm : w.sm.data.manualMode = false)
    (hf : w.sm.externalHold = true)
    (hcur : w.sm.data.currentEntry = some (.owned (.dummyChannel 64 center))) :
    state.found.scanState = SCAN_STATE_HOLD ∧ state.found.holdIndex = [0, 0] ∧
      state.found.holdKey = (Entry.dummyChannel 64 center).key := by
  obtain ⟨e, he, hs, hindex, hkey⟩ := h.found_hold hm hf
  obtain rfl := Except.ok.inj ((ThreadData.entry_owned hcur).symm.trans he)
  refine ⟨hs, ?_, hkey⟩
  rw [hindex, show (Entry.dummyChannel 64 center).sysIndex = 0 from rfl,
    show (Entry.dummyChannel 64 center).entryIndex = 0 from rfl, Int.natCast_zero,
    wrap_of_fits (by decide) (by decide)]

/-- The entry 0-0 is a channel, whose key is not that of a dummy. -/
theorem Saves.again_dummy_channel (h : w.Saves cubic state base)
    (hm : w.sm.data.manualMode = false) (hf : w.sm.externalHold = true)
    (hcur : w.sm.data.currentEntry = some (.owned (.dummyChannel 64 center)))
    (h₀ : w.sm.data.systems.systems[0]? = some s₀) (hne : s₀.entries ≠ []) :
    ∃ w', again cubic w state = some w' ∧ w'.pc = .scan := by
  obtain ⟨hs, hindex, hkey⟩ := h.found_dummy hm hf hcur
  have h₀' : base.systems[0]? = some s₀ := h.systems ▸ h₀
  have hpos : 0 < s₀.entries.length := List.length_pos_of_ne_nil hne
  have hholds : base.Holds 0 0 s₀ s₀.entries[0] := ⟨h₀', List.getElem?_eq_getElem hpos⟩
  have hp : base.getEntryByIndex 64 state.found.holdIndex = .ok (.channel 0 0, base) := by
    rw [hindex]
    exact getEntryByIndex_holds h.binned.addressed hholds
  have hreal : s₀.entries[0].isDummy = false :=
    (h.binned.addressed 0 s₀ h₀').channels _ (List.getElem_mem hpos)
  have hdiff : (base.deref (.channel 0 0)).key ≠ state.found.holdKey := by
    rw [SystemList.deref_channel hholds, hkey]
    exact key_ne_dummy hreal rfl
  obtain ⟨w', hw, hpc, -⟩ := restart_hold_scan h.reloaded h.size_ne hs hp rfl hdiff
  exact ⟨w', hw, hpc⟩

/-- Without an entry 0-0, the first entry that the list hands out is compared. -/
theorem Saves.again_dummy_next (h : w.Saves cubic state base)
    (hm : w.sm.data.manualMode = false) (hf : w.sm.externalHold = true)
    (hcur : w.sm.data.currentEntry = some (.owned (.dummyChannel 64 center)))
    (h₀ : w.sm.data.systems.systems[0]? = some s₀) (hnil : s₀.entries = [])
    (hscan : ∃ q, w.sm.data.systems.isScannable q = true) :
    (¬FirstKey cubic w.sm.data.systems (Entry.dummyChannel 64 center).key →
      ∃ w', again cubic w state = some w' ∧ w'.pc = .scan) ∧
    (FirstKey cubic w.sm.data.systems (Entry.dummyChannel 64 center).key →
      ∀ w', again cubic w state = some w' → w'.pc ≠ .scan) := by
  obtain ⟨hs, hindex, hkey⟩ := h.found_dummy hm hf hcur
  have h₀' : base.systems[0]? = some s₀ := h.systems ▸ h₀
  have hscan' : ∃ q, base.isScannable q = true := by
    simpa only [SystemList.isScannable_congr h.systems] using hscan
  obtain ⟨p, V, sl', -, hnext, hscanning, -⟩ := SystemList.getNextEntry_ring h.binned hscan'
    (SystemList.scanning_start h.binned hscan')
  have hderef : sl'.deref p = base.deref p := SystemList.deref_congr hscanning.systems p
  have hp : base.getEntryByIndex 64 state.found.holdIndex = .ok (p, sl') := by
    rw [hindex, getEntryByIndex_none h.binned.addressed h₀' hnil, hnext]
  rw [firstKey_iff h.reloaded hnext, ← hderef, ← hkey]
  constructor
  · intro hne
    obtain ⟨w', hw, hpc, -⟩ :=
      restart_hold_scan h.reloaded h.size_ne hs hp hscanning.systems hne
    exact ⟨w', hw, hpc⟩
  · intro heq w' hw
    exact (restart_hold_ne h.reloaded hs hp heq hw).1

end Dummy

/-! ## When the next start resumes -/

/-- The positions of all systems and entries are `int`s. -/
def IntIndexed (sl : SystemList) : Prop :=
  ∀ i k s e, sl.Holds i k s e → Fits 32 i ∧ Fits 32 k

/-- On a manual entry with an `int` as frequency, in manual mode. -/
theorem Saves.resumes_manual (h : w.Saves cubic state base) (hm : w.sm.data.manualMode = true)
    (hon : w.sm.data.OnManual) (hfreq : ∀ e, w.sm.data.entry = .ok e → Fits 32 e.freq) :
    ∃ w', again cubic w state = some w' ∧ Resumes last w w' := by
  obtain ⟨freq, modulation, hcur⟩ := h.inventory.owned_of_onManual hon
  have he := ThreadData.entry_owned hcur
  have hfits := hfreq _ he
  obtain ⟨w', hw, hpc, hflag, d, hd⟩ := h.again_manual hm he
  rw [if_pos hfits] at hd
  refine ⟨w', hw, fun i k e' hheld => ?_, ?_, fun _ hno => absurd hon hno⟩
  · exact absurd hon (h.inventory.not_onManual_channel hheld.current)
  intro e _ he'
  obtain rfl := Except.ok.inj (he.symm.trans he')
  have hentry := ThreadData.entry_owned (d := w'.sm.data) (by rw [hd]; rfl)
  have hsame : wrap 64 (ThreadData.makeManualEntry freq modulation).freq =
      (ThreadData.makeManualEntry freq modulation).freq :=
    wrap_of_fits (by decide) (fits_mono (by decide) hfits)
  refine ⟨hpc, hflag, by rw [hd]; rfl, ⟨_, by rw [hd]; rfl, by rw [hd]; rfl⟩, _, hentry, ?_, ?_⟩
  · rw [ThreadData.freq_makeManualEntry, hsame]
  · exact ThreadData.modulation_makeManualEntry_again
      (ThreadData.modulation_makeManualEntry freq modulation) _

/-- Elsewhere, out of manual mode. -/
theorem Saves.resumes_other (h : w.Saves cubic state base) (hm : w.sm.data.manualMode = false)
    (hno : ¬w.sm.data.OnManual) (hr : w.Restores cubic last) :
    ∃ w', again cubic w state = some w' ∧ Resumes last w w' := by
  cases hf : w.sm.externalHold with
  | false =>
    obtain ⟨w', hw, hpc⟩ := h.again_scan hm hf
    exact ⟨w', hw, fun i k e hheld => absurd (hf.symm.trans hheld.flag) (by decide),
      fun e hon => absurd hon hno, fun _ _ => hpc⟩
  | true =>
    obtain ⟨e, he, -⟩ := h.found_hold hm hf
    obtain ⟨p, hp⟩ := Option.isSome_iff_exists.mp (ThreadData.isSome_of_entry he)
    cases h.inventory.known hp hno with
    | @channel i k s e' hholds =>
      obtain ⟨hlast, hi, hk⟩ := hr.index hf i k hp
      obtain ⟨w', hw, hheld'⟩ := h.again_entry hm hf hholds hp hi hk
      have he' := ThreadData.entry_channel hp hholds
      refine ⟨w', hw, ?_, fun e hon => absurd hon hno, fun hnone => ?_⟩
      · intro i' k' e'' hheld
        obtain ⟨rfl, rfl⟩ := EntryPtr.channel.inj (Option.some.inj (hp.symm.trans hheld.current))
        obtain rfl := Except.ok.inj (he'.symm.trans hheld.entry)
        exact hheld'
      · exact absurd ⟨hlast, hf, hp, he'⟩ (hnone i k e')
    | @dummy center s₀ hscan h₀ hfree =>
      obtain ⟨w', hw, hpc⟩ : ∃ w', again cubic w state = some w' ∧ w'.pc = .scan := by
        by_cases hnil : s₀.entries = []
        · refine (h.again_dummy_next hm hf hp h₀ hnil hscan).1 (hr.dummy hf _ hp rfl fun s hs => ?_)
          obtain rfl := Option.some.inj (h₀.symm.trans hs)
          exact hnil
        · exact h.again_dummy_channel hm hf hp h₀ hnil
      refine ⟨w', hw, ?_, fun e hon => absurd hon hno, fun _ _ => hpc⟩
      intro i k e hheld
      cases hp.symm.trans hheld.current

/-- **What is enough.** -/
theorem Saves.resumes (h : w.Saves cubic state base) (hr : w.Restores cubic last) :
    ∃ w', again cubic w state = some w' ∧ Resumes last w w' := by
  by_cases hon : w.sm.data.OnManual
  · exact h.resumes_manual (hr.mode.mpr hon) hon (hr.frequency hon)
  · exact h.resumes_other (ThreadData.mode_off hr.mode hon) hon hr

/-- A start that resumes has the mode of the entry. -/
theorem Saves.mode_of_resumes (h : w.Saves cubic state base) (hw : again cubic w state = some w')
    (hres : Resumes last w w') : w.sm.data.manualMode = true ↔ w.sm.data.OnManual := by
  constructor
  · intro hm
    by_contra hno
    obtain ⟨e, he, -⟩ := h.found_manual hm
    obtain ⟨w₁, hw₁, hpc, -, -⟩ := h.again_manual hm he
    obtain rfl := Option.some.inj (hw.symm.trans hw₁)
    by_cases hheld : ∃ i k e, w.HeldEntry last i k e
    · obtain ⟨i, k, e, hheld⟩ := hheld
      have hoff := (hres.held i k e hheld).mode
      rw [h.mode_again hw, hm] at hoff
      cases hoff
    · have hscan := hres.scan (fun i k e hi => hheld ⟨i, k, e, hi⟩) hno
      cases hpc.symm.trans hscan
  · intro hon
    obtain ⟨freq, modulation, hcur⟩ := h.inventory.owned_of_onManual hon
    have hmode := (hres.manual _ hon (ThreadData.entry_owned hcur)).mode
    rwa [h.mode_again hw] at hmode

/-- **What is needed.** -/
theorem Saves.restores (h : w.Saves cubic state base) (hint : IntIndexed w.sm.data.systems)
    (hw : again cubic w state = some w') (hres : Resumes last w w') :
    w.Restores cubic last := by
  have hmode := h.mode_of_resumes hw hres
  refine ⟨hmode, ?_, ?_, ?_⟩
  · intro hon e he
    by_contra hfits
    obtain ⟨w₁, hw₁, -, -, d, hd⟩ := h.again_manual (hmode.mpr hon) he
    obtain rfl := Option.some.inj (hw.symm.trans hw₁)
    obtain ⟨e', he', hfreq, -⟩ := (hres.manual e hon he).entry
    have hentry := ThreadData.entry_owned (d := w'.sm.data) (by rw [hd]; rfl)
    obtain rfl := Except.ok.inj (hentry.symm.trans he')
    rw [if_neg hfits, ThreadData.freq_makeManualEntry, wrap_of_fits (by decide) (by decide)]
      at hfreq
    exact hfits (hfreq ▸ by decide)
  · intro hf i k hcur
    have hno := h.inventory.not_onManual_channel hcur
    have hoff := ThreadData.mode_off hmode hno
    obtain ⟨s, e, hholds⟩ : ∃ s e, w.sm.data.systems.Holds i k s e := by
      cases h.inventory.known hcur hno with
      | channel hholds => exact ⟨_, _, hholds⟩
    obtain ⟨hi, hk⟩ := hint i k s e hholds
    refine ⟨fun hlast => ?_, hi, hk⟩
    obtain ⟨w₁, hw₁, hheld⟩ := h.again_entry hoff hf hholds hcur hi hk
    obtain rfl := Option.some.inj (hw.symm.trans hw₁)
    cases hheld.pc.symm.trans (hres.scan (fun i' k' e' hheld' => hheld'.last hlast) hno)
  · intro hf e hcur hdummy hnil hfirst
    have hno : ¬w.sm.data.OnManual := by
      intro hon
      obtain ⟨freq, modulation, hcur'⟩ := h.inventory.owned_of_onManual hon
      obtain rfl := EntryPtr.owned.inj (Option.some.inj (hcur.symm.trans hcur'))
      rw [ThreadData.isDummy_makeManualEntry] at hdummy
      cases hdummy
    have hoff := ThreadData.mode_off hmode hno
    have hscan : w'.pc = .scan := by
      refine hres.scan (fun i k e' hheld => ?_) hno
      cases hcur.symm.trans hheld.current
    cases h.inventory.known hcur hno with
    | dummy hscans h₀ hfree =>
      exact (h.again_dummy_next hoff hf hcur h₀ (hnil _ h₀) hscans).2 hfirst w' hw hscan

end Saves

/-! ## Every run -/

theorem due_of_step {a : States} (hs : Step w (.activate a) w') : w.Due a := by
  have hp := perform_of_step hs
  simp only [perform, Option.ite_none_right_eq_some] at hp
  exact hp.1

/-- The thread can save where it has scanned, held or received last. -/
theorem saves_run (cubic : CubicSDR) {file : SystemsFile} {demod : Demodulator} {ls : List Label}
    {w₁ : World} (h : Run Step (start file demod) ls w)
    (hlast : (activations ls).getLast? = some last)
    (hkind : last = .ST_SCAN ∨ last = .ST_HOLD ∨ last = .ST_RECEIVE)
    (hne : w.sm.data.systems.systems ≠ []) (hs : Step w (.activate .ST_SAVEALL) w₁)
    (pTree : Tree) :
    ∃ state base, w.Saves cubic state base ∧ w₁.nextStart cubic pTree = again cubic w state := by
  have hinv := (inventory_run h).data
  have hsize : w.sm.data.systems.size ≠ 0 := fun hzero => hne (List.length_eq_zero_iff.mp hzero)
  have hdue := due_of_step hs
  have hsome : w.sm.data.currentEntry.isSome = true :=
    taken_run h last hlast hkind hsize (by rw [hdue.1]; rintro ⟨⟩)
      (by rw [hdue.1]; rintro _ ⟨⟩) (by rw [hdue.1]; rintro _ ⟨⟩)
  obtain ⟨d, hd⟩ : ∃ d, w.sm.data.saveAll w.sm.externalHold = .ok d :=
    ThreadData.saveAll_ok (.inl hsome)
  have hengine : w.sm.stateEngine = .ok (.saveAll, { w.sm.take with data := d }) := by
    rw [hdue.stateEngine]
    change ScannerSM.ST_SaveAll w.sm.take = _
    rw [ScannerSM.ST_SaveAll]
    simp only [bind_eq_ok, pure_eq_ok]
    exact ⟨d, hd, rfl⟩
  have hw₁ : w₁ = w.go .saveAll { w.sm.take with data := d } :=
    Option.some.inj (hs.symm.trans (step_activate hdue hengine))
  obtain ⟨state, hstate, rfl⟩ := ThreadData.saveAll_spec hd
  obtain ⟨fresh, base, hload, hsort, hbinned, hsystems⟩ := hinv.stocked.restock hne cubic.sampleRate
  refine ⟨state, base, ⟨hinv, hsize, hstate, ⟨fresh, hload, hsort⟩, hbinned, hsystems⟩, ?_⟩
  rw [hw₁, nextStart, go]
  simp only
  rw [load_savedState hstate]
  rfl

/-- **The next start resumes where the scanner stopped**, in every run that saves after
`ST_Scan`, `ST_Hold` or `ST_Receive`, if and only if what it saves is true and an `int`. -/
theorem resumes_iff (cubic : CubicSDR) {file : SystemsFile} {demod : Demodulator}
    {ls : List Label} {w₁ : World} (h : Run Step (start file demod) ls w)
    (hlast : (activations ls).getLast? = some last)
    (hkind : last = .ST_SCAN ∨ last = .ST_HOLD ∨ last = .ST_RECEIVE)
    (hne : w.sm.data.systems.systems ≠ []) (hs : Step w (.activate .ST_SAVEALL) w₁)
    (pTree : Tree) :
    (w.Restores cubic last → ∃ w', w₁.nextStart cubic pTree = some w' ∧ Resumes last w w') ∧
      (IntIndexed w.sm.data.systems →
        (∃ w', w₁.nextStart cubic pTree = some w' ∧ Resumes last w w') →
        w.Restores cubic last) := by
  obtain ⟨state, base, hsaves, hagain⟩ := saves_run cubic h hlast hkind hne hs pTree
  rw [hagain]
  constructor
  · exact hsaves.resumes
  · rintro hint ⟨w', hw, hres⟩
    exact hsaves.restores hint hw hres

/-- The calls of a stop. -/
def stopCalled : List Label := [.begin 1 .stopScanner, .lookup 1, .commit 1]

/-- Client 1 holds the only entry of the database, and stops. -/
def indexHeld : List Label :=
  scanStarted ++ [.begin 1 (.holdScan [0, 0]), .storeFlag 1, .storeIndex 1, .lookup 1, .commit 1,
    .activate .ST_HOLD, .resume (silence 10000), .resume (silence 10000),
    .resume (silence 10000)] ++ stopCalled

theorem resumes_indexHeld :
    ∃ w', (((start oneChannelFile tunedDemod).after indexHeld).after
        [.activate .ST_SAVEALL]).nextStart tunedDemod.cubic .empty = some w' ∧
      Resumes .ST_HOLD ((start oneChannelFile tunedDemod).after indexHeld) w' := by
  have hcur : ((start oneChannelFile tunedDemod).after indexHeld).sm.data.currentEntry =
      some (.channel 0 0) := by decide +kernel
  have hmode : ((start oneChannelFile tunedDemod).after indexHeld).sm.data.manualMode = false := by
    decide +kernel
  have hno : ¬((start oneChannelFile tunedDemod).after indexHeld).sm.data.OnManual := by
    decide +kernel
  refine (resumes_iff tunedDemod.cubic (run_after (by decide +kernel)) (by decide)
    (.inr (.inl rfl)) (by decide +kernel) (step_after (by decide +kernel)) .empty).1
    ⟨?_, ?_, ?_, ?_⟩
  · rw [hmode]
    exact ⟨fun h => absurd h (by decide), fun hon => absurd hon hno⟩
  · exact fun hon => absurd hon hno
  · intro _ i k hik
    obtain ⟨rfl, rfl⟩ := EntryPtr.channel.inj (Option.some.inj (hcur.symm.trans hik))
    exact ⟨by decide, by decide, by decide⟩
  · intro _ e he
    cases hcur.symm.trans he

/-- Client 0 has entered 5760 MHz by hand, and client 1 stops. -/
def manualStopped : List Label :=
  [.activate .ST_LOAD, .begin 0 (.manualEntry 5760000000 "NFM"), .lookup 0, .commit 0,
    .activate .ST_MANUAL, .resume (silence 10000), .activate .ST_HOLD, .resume (silence 10000),
    .resume (silence 10000), .resume (silence 10000)] ++ stopCalled

/-- **A manual entry that is lost**: 5760 MHz come back as 100 MHz. -/
theorem not_resumes_manual :
    ∃ w w₁ w' : World, Run Step (start oneChannelFile tunedDemod) manualStopped w ∧
      (activations manualStopped).getLast? = some .ST_HOLD ∧
      w.sm.data.systems.systems ≠ [] ∧ Step w (.activate .ST_SAVEALL) w₁ ∧
      w₁.nextStart tunedDemod.cubic .empty = some w' ∧ w.sm.data.OnManual ∧
      (∃ e, w.sm.data.entry = .ok e ∧ e.freq = 5760000000 ∧ e.modulation = "NFM") ∧
      (∃ e, w'.sm.data.entry = .ok e ∧ e.freq = 100000000) ∧ ¬Resumes .ST_HOLD w w' := by
  have hcur : ((start oneChannelFile tunedDemod).after manualStopped).sm.data.currentEntry =
      some (.owned (ThreadData.makeManualEntry 5760000000 "NFM")) := by decide +kernel
  have hmanual : ((start oneChannelFile tunedDemod).after manualStopped).sm.data.manualEntry =
      some (.owned (ThreadData.makeManualEntry 5760000000 "NFM")) := by decide +kernel
  have hentry := ThreadData.entry_owned hcur
  have hnext : ((((start oneChannelFile tunedDemod).after manualStopped).after
      [.activate .ST_SAVEALL]).nextStart tunedDemod.cubic .empty).map
        (fun w' => w'.sm.data.currentEntry) =
      some (some (.owned (ThreadData.makeManualEntry 100000000 "NFM"))) := by decide +kernel
  obtain ⟨w', hw', hcur'⟩ := Option.map_eq_some_iff.mp hnext
  have hentry' := ThreadData.entry_owned hcur'
  refine ⟨_, _, w', run_after (by decide +kernel), by decide, by decide +kernel,
    step_after (by decide +kernel), hw', ⟨_, hmanual, hcur⟩, ⟨_, hentry, by decide, by decide⟩,
    ⟨_, hentry', by decide⟩, fun hres => ?_⟩
  obtain ⟨e, he, hfreq, -⟩ := (hres.manual _ ⟨_, hmanual, hcur⟩ hentry).entry
  obtain rfl := Except.ok.inj (hentry'.symm.trans he)
  exact absurd hfreq (by decide)

end World

end PiScan.Machine

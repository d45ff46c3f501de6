import PiScan.Scan.Database

/-!
# A database that was loaded

What `populateFromFile` makes is read with `get<int>`, so every frequency and
delay fits an `int`, and a lockout is one of two values.  Such a list is written
and read back without loss (`reload_loaded`): a database survives any number of
further saves once it has been loaded.
-/

namespace PiScan.Scan

open TwosComplement PropertyTree

theorem get_readInt_fits (w : Nat) (path : List String) (t : Tree) :
    Fits w (t.get (readInt w) path 0) := by
  have hzero : Fits w 0 := by
    have hpos : (0 : Int) < 2 ^ (w - 1) := pow_pos (by decide) _
    constructor
    · omega
    · exact hpos
  exact fits_get_readInt hzero path t

/-- An entry as the loaders make it. -/
structure Entry.Loaded (e : Entry) : Prop where
  channel : e.isDummy = false
  nonzero : e.frequency ≠ 0
  freqFits : Fits 32 e.frequency
  delayFits : Fits 32 e.scanDelayMS
  lockout : e.lockout = lockoutOf e.isLockedOut

theorem Entry.Loaded.storable {e : Entry} (h : e.Loaded) : e.Storable :=
  ⟨h.channel, h.nonzero, fits_mono (by decide) h.freqFits, h.delayFits⟩

theorem loaded_channel (type : EntryType) (ht : type ≠ .dummy) {freq del : Int} (tag : String)
    (lo : Bool) (hne : freq ≠ 0) (hfreq : Fits 32 freq) (hdel : Fits 32 del) :
    (Entry.channel 64 type freq tag lo del).Loaded := by
  have hwrap : wrap 64 freq = freq := wrap_of_fits (by decide) (fits_mono (by decide) hfreq)
  refine ⟨by simpa [Entry.channel, Entry.isDummy] using ht, ?_, ?_, hdel, ?_⟩
  · simpa [Entry.channel, hwrap] using hne
  · simpa [Entry.channel, hwrap] using hfreq
  · rw [Entry.isLockedOut_channel]
    rfl

theorem loaded_makeChannelEntry {makeChannel : Int → String → Bool → Int → Entry} {pt : Tree}
    {e : Entry} (hmake : ∀ {freq del} tag lo, freq ≠ 0 → Fits 32 freq → Fits 32 del →
      (makeChannel freq tag lo del).Loaded)
    (h : makeChannelEntry makeChannel pt = some e) : e.Loaded := by
  simp only [makeChannelEntry] at h
  split at h
  · cases h
  · rename_i hne
    rw [← Option.some.inj h]
    exact hmake _ _ hne (get_readInt_fits 32 _ _) (get_readInt_fits 32 _ _)

/-- **Every loaded entry fits.** -/
theorem loaded_loadEntry {pt : Tree} {e : Entry} (h : loadEntry 64 pt = some e) : e.Loaded := by
  unfold loadEntry makeEntry at h
  split at h
  · cases h
  · rename_i load hload
    split_ifs at hload <;> cases hload
    · exact loaded_makeChannelEntry (fun tag lo => loaded_channel .fm nofun tag lo) h
    · exact loaded_makeChannelEntry (fun tag lo => loaded_channel .am nofun tag lo) h
    · exact loaded_makeChannelEntry (fun tag lo => loaded_channel (.pl _) nofun tag lo) h
    · exact loaded_makeChannelEntry (fun tag lo => loaded_channel (.dc _) nofun tag lo) h

namespace SystemList

/-- A list of systems as `populateFromFile` makes it. -/
structure Loaded (sl : SystemList) : Prop where
  addressed : sl.Addressed
  entries : ∀ s ∈ sl.systems, ∀ e ∈ s.entries, e.Loaded

theorem Loaded.congr {sl sl' : SystemList} (h : sl.Loaded) (hs : sl'.systems = sl.systems) :
    sl'.Loaded :=
  ⟨fun i s hi => h.addressed i s (hs ▸ hi), fun s hm => h.entries s (hs ▸ hm)⟩

end SystemList

theorem AnalogSystem.loaded_ofTree {i : Nat} {pt : Tree} {s : AnalogSystem}
    (h : AnalogSystem.ofTree 64 pt i = .ok s) : ∀ e ∈ s.entries, e.Loaded := by
  apply AnalogSystem.of_ofTree (P := fun s => ∀ e ∈ s.entries, e.Loaded) ?_ ?_ h
  · intro tag lockout e he
    cases he
  · intro s pt entry hload hs e he
    have hl := loaded_loadEntry hload
    simp only [addEntry, List.mem_append, List.mem_singleton] at he
    rcases he with he | rfl
    · exact hs e he
    · exact ⟨hl.channel, hl.nonzero, hl.freqFits, hl.delayFits, hl.lockout⟩

/-- **A loaded list**, whatever the file holds. -/
theorem SystemList.loaded_populateFromFile {file : SystemsFile} {sl : SystemList}
    (h : SystemList.empty.populateFromFile 64 file = .ok sl) : sl.Loaded := by
  refine ⟨(populateFromFile_fresh fresh_empty h).addressed, ?_⟩
  apply of_populateFromFile (P := fun sl => ∀ s ∈ sl.systems, ∀ e ∈ s.entries, e.Loaded) ?_ ?_ h
  · intro sl pt system hload hsl s hs
    simp only [addSystem, List.mem_append, List.mem_singleton] at hs
    rcases hs with hs | rfl
    · exact hsl s hs
    · exact AnalogSystem.loaded_ofTree hload
  · intro s hs
    cases hs

/-! ## Writing a loaded list and reading it back -/

/-- What the file keeps of an entry, its lockout and its position make the entry. -/
theorem Entry.eq_of_content {e e' : Entry} (h : e.content = e'.content)
    (hl : e.lockout = lockoutOf e.isLockedOut) (hl' : e'.lockout = lockoutOf e'.isLockedOut)
    (hsys : e.sysIndex = e'.sysIndex) (hentry : e.entryIndex = e'.entryIndex) : e = e' := by
  simp only [Entry.content, Entry.mk.injEq] at h
  obtain ⟨htype, hfreq, htag, hlock, hdelay, -, -⟩ := h
  have hlockout : e.lockout = e'.lockout := hl.trans (hlock.trans hl'.symm)
  cases e
  cases e'
  simp only [Entry.mk.injEq]
  exact ⟨htype, hfreq, htag, hlockout, hdelay, hsys, hentry⟩

theorem AnalogSystem.eq_of_content {i : Nat} {s s' : AnalogSystem} (h : s.content = s'.content)
    (ha : s.Addressed i) (ha' : s'.Addressed i) (hl : ∀ e ∈ s.entries, e.Loaded)
    (hl' : ∀ e ∈ s'.entries, e.Loaded) : s = s' := by
  simp only [AnalogSystem.content, Prod.mk.injEq] at h
  obtain ⟨htag, hlock, hmap⟩ := h
  have hentries : s.entries = s'.entries := by
    refine List.ext_getElem? fun k => ?_
    have hk := congrArg (fun es => es[k]?) hmap
    simp only [List.getElem?_map] at hk
    cases he : s.entries[k]? with
    | none =>
      cases he' : s'.entries[k]? with
      | none => rfl
      | some e' => simp [he, he'] at hk
    | some e =>
      cases he' : s'.entries[k]? with
      | none => simp [he, he'] at hk
      | some e' =>
        simp only [he, he', Option.map_some, Option.some.injEq] at hk
        have hp := ha.entries k e he
        have hp' := ha'.entries k e' he'
        rw [Entry.eq_of_content hk (hl e (List.mem_of_getElem? he)).lockout
          (hl' e' (List.mem_of_getElem? he')).lockout (hp.1.trans hp'.1.symm)
          (hp.2.trans hp'.2.symm)]
  have hnum := ha.numEntries.trans ((congrArg List.length hentries).trans ha'.numEntries.symm)
  have hsys := ha.sysIndex.trans ha'.sysIndex.symm
  cases s
  cases s'
  simp only [AnalogSystem.mk.injEq]
  exact ⟨htag, hlock, hsys, hnum, hentries⟩

/-- **A loaded list is read back as it was**, unsorted and with the cursor at its
start. -/
theorem SystemList.reload_loaded {sl : SystemList} (h : sl.Loaded) :
    SystemList.empty.populateFromFile 64 sl.writeToFile =
      .ok { SystemList.empty with systems := sl.systems } := by
  obtain ⟨sl', hload, hfresh, hcontent⟩ :=
    populate_write sl fun s hs e he => (h.entries s hs e he).storable
  have hl' := loaded_populateFromFile hload
  have hsame : sl'.systems = sl.systems := by
    refine List.ext_getElem? fun i => ?_
    have hi := congrArg (fun ss => ss[i]?) hcontent
    simp only [List.getElem?_map] at hi
    cases hs : sl.systems[i]? with
    | none =>
      cases hs' : sl'.systems[i]? with
      | none => rfl
      | some s' => simp [hs, hs'] at hi
    | some s =>
      cases hs' : sl'.systems[i]? with
      | none => simp [hs, hs'] at hi
      | some s' =>
        have hmem := List.mem_of_getElem? hs
        simp only [hs, hs', Option.map_some, Option.some.injEq] at hi
        have hall : (s.entries.filter fun e => decide (Fits 32 e.frequency)) = s.entries :=
          List.filter_eq_self.mpr fun e he => decide_eq_true (h.entries s hmem e he).freqFits
        have hc : s'.content = s.content := by
          rw [hi, AnalogSystem.reloaded, hall, AnalogSystem.content]
        rw [AnalogSystem.eq_of_content hc (hl'.addressed i s' hs') (h.addressed i s hs)
          (hl'.entries s' (List.mem_of_getElem? hs')) (h.entries s hmem)]
  rw [hload]
  obtain ⟨systems, bins, binNum, entryNum, retune⟩ := sl'
  obtain ⟨-, hbins, hbin, hentry, hret⟩ := hfresh
  simp only at hsame hbins hbin hentry hret
  simp [hsame, hbins, hbin, hentry, hret, SystemList.empty]

end PiScan.Scan

import PiScan.Lib.SpelledNumber
import PiScan.Scan.Database

/-!
# Loading any systems file

`populateFromFile` on a file of any content.  What the file describes is stated
apart from the loaders: `describedSystems` are its records of a supported type
that have channels, each with its channels of a supported type and a nonzero
frequency, whatever number that is and however it is written.

* `loaded_address`: loaded entries know their own address, and `getEntryByIndex`
  finds them there;
* `described_populateFromFile`: of the channels that are described, those are loaded
  whose frequency is written as an integer and fits an `int`;
* `tolerates_iff`: the files that load without an exception and in full.
-/

namespace PiScan.Scan

open TwosComplement PropertyTree Decimal database

/-! ## Addresses -/

/-- A valid address is looked up without touching the scan cursor. -/
theorem SystemList.getEntryByIndex_addressed {w : Nat} {sl : SystemList} {i k : Nat}
    {s : AnalogSystem} {e : Entry} (hi : sl.systems[i]? = some s)
    (hsize : s.size = s.entries.length) (hk : s.entries[k]? = some e) :
    sl.getEntryByIndex w [(i : Int), (k : Int)] = .ok (.channel i k, sl) ∧
      sl.deref (.channel i k) = e := by
  obtain ⟨hilt, -⟩ := List.getElem?_eq_some_iff.mp hi
  obtain ⟨hklt, -⟩ := List.getElem?_eq_some_iff.mp hk
  have hin : ¬((i : Int) < 0 ∨ (k : Int) < 0 ∨ (sl.size : Int) ≤ i) := by
    simp only [SystemList.size]
    omega
  have hkin : ¬(s.size : Int) ≤ k := by
    rw [hsize]
    omega
  constructor
  · rw [SystemList.getEntryByIndex, if_neg hin, Int.toNat_natCast, hi]
    simp only [Int.toNat_natCast]
    rw [if_neg hkin, if_pos hklt]
  · simp [SystemList.deref, hi, hk]

/-- **Loaded entries know their own address**, whatever the file holds. -/
theorem loaded_address {w : Nat} {file : SystemsFile} {sl : SystemList}
    (h : SystemList.empty.populateFromFile w file = .ok sl) :
    ∀ (i : Nat) (s : AnalogSystem), sl.systems[i]? = some s →
      s.sysIndex = i ∧ s.size = s.entries.length ∧
        ∀ (k : Nat) (e : Entry), s.entries[k]? = some e →
          e.sysIndex = i ∧ e.entryIndex = k ∧
            sl.getEntryByIndex w [(i : Int), (k : Int)] = .ok (.channel i k, sl) ∧
            sl.deref (.channel i k) = e := by
  intro i s hi
  have ha := (populateFromFile_fresh SystemList.fresh_empty h).addressed i s hi
  refine ⟨ha.sysIndex, ha.numEntries, ?_⟩
  intro k e hk
  obtain ⟨hsys, hentry⟩ := ha.entries k e hk
  exact ⟨hsys, hentry, SystemList.getEntryByIndex_addressed hi ha.numEntries hk⟩

/-- A channel record with the fields that a loader needs. -/
def channelRecord (type freq : String) : Tree :=
  Tree.empty |>.put [entry.channel.type_key] type |>.put [entry.freq_key] freq

def analogRecord : Tree := Tree.empty.put [systems.type_key] systems.type_analog

/-- A trunked system, a system without channels, and a system with a digital
channel, a channel without a frequency and two good ones. -/
def mixedFile : SystemsFile :=
  .json (Tree.empty.pushBack systems_key (Tree.array [
    Tree.empty.put [systems.type_key] "trunked",
    analogRecord,
    analogRecord.pushBack systems.channels_key (Tree.array [
      channelRecord "p25" "851012500",
      channelRecord entry.channel.type_fm "0",
      channelRecord entry.channel.type_fm "162550000",
      channelRecord entry.channel.type_am "118300000"])]))

def mixedList : SystemList :=
  SystemList.empty.addSystem ((((AnalogSystem.new "" false).setSysIndex 0).addEntry
    (Entry.fmChannel 64 162550000 "" false 0)).addEntry (Entry.amChannel 64 118300000 "" false 0))

theorem populateFromFile_mixed :
    SystemList.empty.populateFromFile 64 mixedFile = .ok mixedList := by
  rfl

theorem loaded_address_mixed :
    ∃ s, mixedList.systems[0]? = some s ∧ s.size = 2 ∧
      mixedList.getEntryByIndex 64 [0, 1] = .ok (.channel 0 1, mixedList) ∧
      (mixedList.deref (.channel 0 1)).entryIndex = 1 := by
  obtain ⟨-, hsize, hentries⟩ := loaded_address populateFromFile_mixed 0 _ rfl
  obtain ⟨-, hentry, hget, hderef⟩ := hentries 1 _ rfl
  exact ⟨_, rfl, hsize, hget, hderef ▸ hentry⟩

/-! ## What a file describes -/

/-- The class that a `chantype` names. -/
def recordType (pt : Tree) : Option EntryType :=
  let type := pt.get some [entry.channel.type_key] ""
  if type = entry.channel.type_fm then some .fm
  else if type = entry.channel.type_am then some .am
  else if type = entry.channel.type_pl then some (.pl (pt.get some [entry.tone_key] ""))
  else if type = entry.channel.type_dc then some (.dc (pt.get some [entry.code_key] ""))
  else none

/-- What a record says of a channel, its fields as `get` reads them, but of the frequency
the number itself, however it is written. -/
structure DescribedChannel where
  type : EntryType
  frequency : ℚ
  tag : String
  lockout : Bool
  scanDelayMS : Int
  deriving DecidableEq

/-- The number that a record states as its frequency; 0 where it states none. -/
def statedFreq (pt : Tree) : ℚ := pt.get spelledNumber [entry.freq_key] 0

/-- The channel that a record describes. -/
def describedEntry (pt : Tree) : Option DescribedChannel :=
  (recordType pt).bind fun type =>
    if statedFreq pt = 0 then none
    else some { type, frequency := statedFreq pt
                tag := pt.get some [entry.tag_key] ""
                lockout := pt.get readBool [entry.lockout_key] false
                scanDelayMS := pt.get (readInt 32) [entry.delay_key] 0 }

/-- The channel records of a system record; none without its supported type or without
the child that holds them. -/
def systemChannels (pt : Tree) : Option (List Tree) :=
  if pt.get some [systems.type_key] "unspecified" = systems.type_analog then
    (pt.getChild? [systems.channels_key]).map fun channels => channels.children.map Prod.snd
  else none

/-- A system record, with its channel records taken as `channel` takes them. -/
def systemRecord (channel : Tree → Option DescribedChannel) (pt : Tree) :
    Option (String × Bool × List DescribedChannel) :=
  (systemChannels pt).map fun channels =>
    (pt.get some [systems.tag_key] "", pt.get readBool [systems.lockout_key] false,
      channels.filterMap channel)

/-- The systems that the members of a node describe, in order. -/
def describedSystems (list : Tree) : List (String × Bool × List DescribedChannel) :=
  list.children.filterMap fun v => systemRecord describedEntry v.2

/-- The channel records of all these systems. -/
def channelRecords (list : Tree) : List Tree :=
  list.children.flatMap fun v => (systemChannels v.2).getD []

/-- `read_json` makes the elements of an array children without a name. -/
def IsArray (t : Tree) : Prop := ∀ v ∈ t.children, v.1 = ""

/-- The systems that a file describes: those of its array `systems`. -/
def SystemsFile.Describes (file : SystemsFile)
    (found : List (String × Bool × List DescribedChannel)) : Prop :=
  (∃ tree list, file = .json tree ∧ tree.getChild? [systems_key] = some list ∧ IsArray list ∧
      found = describedSystems list) ∨
    (¬(∃ tree list, file = .json tree ∧ tree.getChild? [systems_key] = some list ∧ IsArray list) ∧
      found = [])

/-- A loaded entry, as a record would describe it. -/
def Entry.described (e : Entry) : DescribedChannel :=
  { type := e.type, frequency := e.frequency, tag := e.tag, lockout := e.isLockedOut
    scanDelayMS := e.scanDelayMS }

/-- A loaded system, as a record would describe it. -/
def AnalogSystem.described (s : AnalogSystem) : String × Bool × List DescribedChannel :=
  (s.tag, s.lockout, s.entries.map Entry.described)

/-- The call returns, with the systems that the file describes. -/
def Tolerates (w : Nat) (file : SystemsFile) : Prop :=
  ∃ sl found, SystemList.empty.populateFromFile w file = .ok sl ∧ file.Describes found ∧
    sl.systems.map AnalogSystem.described = found

/-! ## What is loaded of it -/

/-- The frequency is written as an integer, without a point or an exponent, and it fits
an `int`. -/
def IntFreq (pt : Tree) : Prop :=
  Unmarked (pt.get some [entry.freq_key] "").toList ∧
    (statedFreq pt).den = 1 ∧ Fits 32 (statedFreq pt).num

instance (pt : Tree) : Decidable (IntFreq pt) := inferInstanceAs (Decidable (_ ∧ _))

theorem IntFreq.cast {pt : Tree} (h : IntFreq pt) : ((statedFreq pt).num : ℚ) = statedFreq pt :=
  Rat.coe_int_num_of_den_eq_one h.2.1

/-- `get(freq_key, 0)` reads an `int`. -/
theorem get_freq (pt : Tree) :
    pt.get (readInt 32) [entry.freq_key] 0 = if IntFreq pt then (statedFreq pt).num else 0 :=
  get_readInt_zero 32 [entry.freq_key] pt

/-- The channel of a record, if its loader reads the frequency. -/
def readEntry (pt : Tree) : Option DescribedChannel :=
  if IntFreq pt then describedEntry pt else none

theorem described_channel {w : Nat} {freq : Int} (hw : 32 ≤ w) (hf : Fits 32 freq)
    (type : EntryType) (tag : String) (lo : Bool) (del : Int) :
    (Entry.channel w type freq tag lo del).described =
      { type, frequency := freq, tag, lockout := lo, scanDelayMS := del } := by
  have hwrap : wrap w freq = freq := wrap_of_fits (by omega) (fits_mono hw hf)
  rw [Entry.described, Entry.isLockedOut_channel, Entry.channel, hwrap]

theorem described_makeChannelEntry {w : Nat} (hw : 32 ≤ w)
    {makeChannel : Int → String → Bool → Int → Entry} {type : EntryType} {pt : Tree}
    (hmake : ∀ freq tag lo del, makeChannel freq tag lo del =
      Entry.channel w type freq tag lo del) (htype : recordType pt = some type) :
    (makeChannelEntry makeChannel pt).map Entry.described = readEntry pt := by
  simp only [makeChannelEntry, readEntry, describedEntry, htype, Option.bind_some, get_freq, hmake]
  by_cases hint : IntFreq pt
  · have hcast := hint.cast
    by_cases hzero : (statedFreq pt).num = 0
    · have hstated : statedFreq pt = 0 := Rat.num_eq_zero.mp hzero
      simp [hint, hstated]
    · have hstated : ¬statedFreq pt = 0 := fun h => hzero (Rat.num_eq_zero.mpr h)
      simp [hint, hzero, hstated, described_channel hw hint.2.2, hcast]
  · simp [hint]

/-- **One channel record** is loaded if it describes a channel and its frequency is
written as an `int`. -/
theorem described_loadEntry {w : Nat} (hw : 32 ≤ w) (pt : Tree) :
    (loadEntry w pt).map Entry.described = readEntry pt := by
  unfold loadEntry makeEntry
  split
  · rename_i hnone
    split_ifs at hnone with hfm ham hpl hdc
    have htype : recordType pt = none := by
      simp only [recordType, if_neg hfm, if_neg ham, if_neg hpl, if_neg hdc]
    simp [readEntry, describedEntry, htype]
  · rename_i load hload
    split_ifs at hload with hfm ham hpl hdc <;> cases hload
    · exact described_makeChannelEntry hw (fun _ _ _ _ => rfl)
        (by simp only [recordType, if_pos hfm])
    · exact described_makeChannelEntry hw (fun _ _ _ _ => rfl)
        (by simp only [recordType, if_neg hfm, if_pos ham])
    · exact described_makeChannelEntry hw (fun _ _ _ _ => rfl)
        (by simp only [recordType, if_neg hfm, if_neg ham, if_pos hpl])
    · exact described_makeChannelEntry hw (fun _ _ _ _ => rfl)
        (by simp only [recordType, if_neg hfm, if_neg ham, if_neg hpl, if_pos hdc])

theorem described_addEntry (s : AnalogSystem) (e : Entry) :
    (s.addEntry e).described =
      (s.tag, s.lockout, s.entries.map Entry.described ++ [e.described]) := by
  simp [AnalogSystem.described, AnalogSystem.addEntry, Entry.described, Entry.isLockedOut]

/-- **The loop over the channel records.** -/
theorem described_foldl_loadChannel {w : Nat} (hw : 32 ≤ w) (vs : List (String × Tree))
    (s : AnalogSystem) :
    (vs.foldl (AnalogSystem.loadChannel w) s).described =
      (s.tag, s.lockout, s.entries.map Entry.described ++ vs.filterMap fun v => readEntry v.2) := by
  induction vs generalizing s with
  | nil => simp [AnalogSystem.described]
  | cons v vs ih =>
    rw [List.foldl_cons, ih, List.filterMap_cons, ← described_loadEntry hw]
    unfold AnalogSystem.loadChannel
    cases loadEntry w v.2 with
    | none => rfl
    | some entry =>
      have hadd := described_addEntry s entry
      simp only [AnalogSystem.described, Prod.mk.injEq] at hadd
      obtain ⟨htag, hlock, hentries⟩ := hadd
      simp only [htag, hlock, hentries, Option.map_some, List.append_assoc, List.singleton_append]

/-- **The loop over the system records.** -/
theorem described_foldl_loadSystem {w : Nat} (hw : 32 ≤ w) (vs : List (String × Tree))
    (sl : SystemList) :
    (vs.foldl (SystemList.loadSystem w) sl).systems.map AnalogSystem.described =
      sl.systems.map AnalogSystem.described ++
        vs.filterMap fun v => systemRecord readEntry v.2 := by
  induction vs generalizing sl with
  | nil => simp
  | cons v vs ih =>
    rw [List.foldl_cons, ih, List.filterMap_cons]
    unfold SystemList.loadSystem systemRecord systemChannels AnalogSystem.ofTree
    by_cases htype : v.2.get some [systems.type_key] "unspecified" = systems.type_analog
    · rw [if_pos htype, if_pos htype]
      cases hchild : v.2.getChild? [systems.channels_key] with
      | none => simp
      | some channels =>
        simp only [Option.map_some, SystemList.addSystem, List.map_append, List.map_cons,
          List.map_nil, List.append_assoc, List.cons_append, List.nil_append,
          described_foldl_loadChannel hw, List.filterMap_map]
        rfl
    · rw [if_neg htype, if_neg htype]
      rfl

/-- **What a JSON file loads as**: the systems that its member `systems` describes, without
the channels whose frequency is not written as an `int`. -/
theorem described_populateFromFile {w : Nat} (hw : 32 ≤ w) {tree list : Tree}
    (hlist : tree.getChild? [systems_key] = some list) :
    ∃ sl, SystemList.empty.populateFromFile w (.json tree) = .ok sl ∧
      sl.systems.map AnalogSystem.described =
        list.children.filterMap fun v => systemRecord readEntry v.2 := by
  refine ⟨list.children.foldl (SystemList.loadSystem w) SystemList.empty, ?_, ?_⟩
  · simp only [SystemList.populateFromFile, hlist]
  · rw [described_foldl_loadSystem hw]
    rfl

/-- Nothing is left out if and only if whatever gives something is kept. -/
theorem filterMap_filter_eq_iff {A B : Type*} (f : A → Option B) (p : A → Bool) (vs : List A) :
    (vs.filter p).filterMap f = vs.filterMap f ↔ ∀ v ∈ vs, (f v).isSome → p v := by
  induction vs with
  | nil => simp
  | cons v vs ih =>
    rw [List.forall_mem_cons, ← ih]
    cases hp : p v with
    | true => cases hf : f v <;> simp [hp, hf]
    | false =>
      cases hf : f v with
      | none => simp [hp, hf]
      | some b =>
        have hle := ((List.filter_sublist (p := p) (l := vs)).filterMap f).length_le
        simp only [List.filter_cons, hp, List.filterMap_cons, hf]
        constructor
        · intro heq
          have hlen := congrArg List.length heq
          simp only [Bool.false_eq_true, if_false, List.length_cons] at hlen
          omega
        · rintro ⟨hkept, -⟩
          cases hkept rfl

theorem filterMap_eq_iff {A B : Type*} {f g : A → Option B} {vs : List A}
    (h : ∀ v ∈ vs, (f v).isSome = (g v).isSome) :
    vs.filterMap f = vs.filterMap g ↔ ∀ v ∈ vs, f v = g v := by
  induction vs with
  | nil => simp
  | cons v vs ih =>
    obtain ⟨hv, hvs⟩ := List.forall_mem_cons.mp h
    rw [List.forall_mem_cons, ← ih hvs]
    cases hf : f v with
    | none =>
      have hg : g v = none := by simpa [hf] using hv
      simp [hf, hg]
    | some b =>
      obtain ⟨b', hg⟩ := Option.isSome_iff_exists.mp (hv.symm.trans (by rw [hf]; rfl))
      simp [hf, hg]

/-- Which systems there are does not depend on how their channels are taken. -/
theorem isSome_systemRecord (channel : Tree → Option DescribedChannel) (pt : Tree) :
    (systemRecord channel pt).isSome = (systemChannels pt).isSome :=
  Option.isSome_map

theorem filterMap_readEntry_eq_iff (pts : List Tree) :
    pts.filterMap readEntry = pts.filterMap describedEntry ↔
      ∀ pt ∈ pts, (describedEntry pt).isSome → IntFreq pt := by
  have hread : pts.filterMap readEntry =
      (pts.filter fun pt => decide (IntFreq pt)).filterMap describedEntry := by
    rw [List.filterMap_filter]
    simp only [decide_eq_true_eq]
    rfl
  rw [hread, filterMap_filter_eq_iff]
  simp only [decide_eq_true_eq]

theorem systemRecord_readEntry_eq_iff (pt : Tree) :
    systemRecord readEntry pt = systemRecord describedEntry pt ↔
      ∀ c ∈ (systemChannels pt).getD [], (describedEntry c).isSome → IntFreq c := by
  unfold systemRecord
  cases systemChannels pt with
  | none => simp
  | some channels =>
    rw [← filterMap_readEntry_eq_iff]
    simp

/-- The two loops read every channel if and only if every frequency is written as an `int`. -/
theorem loaded_eq_described_iff (list : Tree) :
    (list.children.filterMap fun v => systemRecord readEntry v.2) = describedSystems list ↔
      ∀ pt ∈ channelRecords list, (describedEntry pt).isSome → IntFreq pt := by
  rw [describedSystems, filterMap_eq_iff]
  · simp only [systemRecord_readEntry_eq_iff, channelRecords, List.mem_flatMap]
    constructor
    · rintro h pt ⟨v, hv, hpt⟩
      exact h v hv pt hpt
    · intro h v hv pt hpt
      exact h pt ⟨v, hv, hpt⟩
  · intro v _
    rw [isSome_systemRecord, isSome_systemRecord]

/-- Both find the same systems. -/
theorem loaded_eq_nil_iff (list : Tree) :
    (list.children.filterMap fun v => systemRecord readEntry v.2) = [] ↔
      describedSystems list = [] := by
  rw [describedSystems, List.filterMap_eq_nil_iff, List.filterMap_eq_nil_iff]
  simp only [← Option.not_isSome_iff_eq_none, isSome_systemRecord]

/-- What JSON with a member `systems` describes. -/
theorem SystemsFile.describes_json_iff {tree list : Tree}
    (hlist : tree.getChild? [systems_key] = some list)
    (found : List (String × Bool × List DescribedChannel)) :
    (SystemsFile.json tree).Describes found ↔
      (IsArray list ∧ found = describedSystems list) ∨ (¬IsArray list ∧ found = []) := by
  have hjson : ∀ {tree' list' : Tree}, SystemsFile.json tree = .json tree' →
      tree'.getChild? [systems_key] = some list' → list' = list := by
    intro tree' list' hfile hlist'
    cases hfile
    exact (Option.some.inj (hlist.symm.trans hlist')).symm
  constructor
  · rintro (⟨tree', list', hfile, hlist', harray, hfound⟩ | ⟨hnone, hfound⟩)
    · obtain rfl := hjson hfile hlist'
      exact Or.inl ⟨harray, hfound⟩
    · exact Or.inr ⟨fun harray => hnone ⟨tree, list, rfl, hlist, harray⟩, hfound⟩
  · rintro (⟨harray, hfound⟩ | ⟨hobject, hfound⟩)
    · exact Or.inl ⟨tree, list, rfl, hlist, harray, hfound⟩
    · refine Or.inr ⟨?_, hfound⟩
      rintro ⟨tree', list', hfile, hlist', harray⟩
      obtain rfl := hjson hfile hlist'
      exact hobject harray

/-- JSON with a member `systems`: it loads, in full or not. -/
theorem tolerates_json_iff {w : Nat} (hw : 32 ≤ w) {tree list : Tree}
    (hlist : tree.getChild? [systems_key] = some list) :
    Tolerates w (.json tree) ↔
      (IsArray list →
        ∀ pt ∈ channelRecords list, (describedEntry pt).isSome → IntFreq pt) ∧
      (¬IsArray list → describedSystems list = []) := by
  obtain ⟨sl, hload, hloaded⟩ := described_populateFromFile hw hlist
  simp only [Tolerates, SystemsFile.describes_json_iff hlist]
  constructor
  · rintro ⟨sl', found, hload', hfound, hsame⟩
    obtain rfl := Except.ok.inj (hload.symm.trans hload')
    refine ⟨fun harray => ?_, fun hobject => ?_⟩
    · obtain ⟨-, rfl⟩ := hfound.resolve_right fun h => h.1 harray
      exact (loaded_eq_described_iff list).mp (hloaded.symm.trans hsame)
    · obtain ⟨-, rfl⟩ := hfound.resolve_left fun h => hobject h.1
      exact (loaded_eq_nil_iff list).mp (hloaded.symm.trans hsame)
  · rintro ⟨hints, hnone⟩
    by_cases harray : IsArray list
    · refine ⟨sl, _, hload, Or.inl ⟨harray, rfl⟩, ?_⟩
      rw [hloaded]
      exact (loaded_eq_described_iff list).mpr (hints harray)
    · refine ⟨sl, _, hload, Or.inr ⟨harray, rfl⟩, ?_⟩
      rw [hloaded]
      exact (loaded_eq_nil_iff list).mpr (hnone harray)

/-- **The files that are tolerated**: no file, or JSON with a member `systems`.
If that is an array then the frequency of every described channel is written as an `int`,
and if it is an object then nothing in it describes a system. -/
theorem tolerates_iff {w : Nat} (hw : 32 ≤ w) (file : SystemsFile) :
    Tolerates w file ↔
      file = .absent ∨
        ∃ tree list, file = .json tree ∧ tree.getChild? [systems_key] = some list ∧
          (IsArray list →
            ∀ pt ∈ channelRecords list, (describedEntry pt).isSome → IntFreq pt) ∧
          (¬IsArray list → describedSystems list = []) := by
  cases file with
  | absent =>
    refine iff_of_true ⟨SystemList.empty, [], rfl, Or.inr ⟨?_, rfl⟩, rfl⟩ (Or.inl rfl)
    rintro ⟨tree, list, hfile, -⟩
    cases hfile
  | unparsable =>
    refine iff_of_false ?_ ?_
    · rintro ⟨sl, found, hload, -⟩
      cases hload
    · rintro (hfile | ⟨tree, list, hfile, -⟩) <;> cases hfile
  | json tree =>
    cases hchild : tree.getChild? [systems_key] with
    | none =>
      refine iff_of_false ?_ ?_
      · rintro ⟨sl, found, hload, -⟩
        simp only [SystemList.populateFromFile, hchild] at hload
        cases hload
      · rintro (hfile | ⟨tree', list, hfile, hlist, -⟩)
        · cases hfile
        · cases hfile
          rw [hchild] at hlist
          cases hlist
    | some list =>
      rw [tolerates_json_iff hw hchild]
      constructor
      · intro htolerates
        exact Or.inr ⟨tree, list, rfl, hchild, htolerates⟩
      · rintro (hfile | ⟨tree', list', hfile, hlist', htolerates⟩)
        · cases hfile
        · cases hfile
          rw [hchild] at hlist'
          obtain rfl := Option.some.inj hlist'
          exact htolerates

/-- A channel at 1e8 Hz is described and not loaded. -/
example : (describedEntry (channelRecord entry.channel.type_fm "1e8")).isSome ∧
    loadEntry 64 (channelRecord entry.channel.type_fm "1e8") = none := by
  decide +kernel

/-- The mixed file loads in full. -/
theorem tolerates_mixed : Tolerates 64 mixedFile := by
  refine (tolerates_iff (by decide) mixedFile).mpr (Or.inr ⟨_, _, rfl, rfl, ?_, ?_⟩)
  · intro _
    decide +kernel
  · intro hobject
    refine absurd ?_ hobject
    unfold IsArray
    decide

/-- The error of a file that is no JSON is caught, and the tree is read all the
same. -/
theorem not_tolerates_unparsable : ¬Tolerates 64 .unparsable := by
  rintro ⟨sl, found, hload, -⟩
  cases hload

end PiScan.Scan

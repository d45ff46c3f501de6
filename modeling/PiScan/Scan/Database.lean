import PiScan.Lib.PropertyTree
import PiScan.Scan.SystemList

/-!
# The systems file

`writeToFile` and `populateFromFile` of `scan/SystemList.cpp`, with the loaders
of `scan/RadioSystem.cpp`.  The file is the property tree that `read_json`
delivers for it.

* `populateFromFile_fresh`: whatever the file holds, the loaded systems and
  entries know their own positions;
* `populate_write`: of the entries that were written, the loader takes those
  whose frequency fits an `int`, because `get(freq_key, 0)` reads an `int`;
* `reload_iff`: the database survives a save and a reload if and only if every
  frequency fits an `int`.
-/

namespace PiScan.Scan

open TwosComplement PropertyTree

namespace database

def systems_key : String := "systems"

namespace systems

def type_key : String := "systype"
def type_analog : String := "analog"
def channels_key : String := "channels"
def tag_key : String := "tag"
def lockout_key : String := "lockout"

end systems

namespace entry

namespace channel

def type_key : String := "chantype"
def type_fm : String := "fmc"
def type_am : String := "amc"
def type_pl : String := "plc"
def type_dc : String := "dcc"

end channel

def tag_key : String := "tag"
def lockout_key : String := "lockout"
def delay_key : String := "delay"
def freq_key : String := "freq"
def tone_key : String := "tone"
def code_key : String := "code"

end entry

end database

/-! ## Writing -/

section Write

open database.entry

/-- The tree after the constructors of `Entry` and `Channel`. -/
def Entry.channelTree (e : Entry) : Tree :=
  Tree.empty
    |>.put [tag_key] e.tag
    |>.put [lockout_key] (boolText e.isLockedOut)
    |>.put [delay_key] (toString e.scanDelayMS)
    |>.put [freq_key] (toString e.frequency)

/-- `Entry::getPropertyTree`. -/
def Entry.getPropertyTree (e : Entry) : Tree :=
  match e.type with
  | .fm => e.channelTree.put [channel.type_key] channel.type_fm
  | .am => e.channelTree.put [channel.type_key] channel.type_am
  | .pl s_tone => e.channelTree
    |>.put [channel.type_key] channel.type_fm
    |>.put [channel.type_key] channel.type_pl
    |>.put [tone_key] s_tone
  | .dc s_code => e.channelTree
    |>.put [channel.type_key] channel.type_fm
    |>.put [channel.type_key] channel.type_dc
    |>.put [code_key] s_code
  | .dummy => e.channelTree

end Write

section WriteSystems

open database

/-- `AnalogSystem::getPropertyTree`. -/
def AnalogSystem.getPropertyTree (s : AnalogSystem) : Tree :=
  Tree.empty
    |>.put [systems.type_key] systems.type_analog
    |>.put [systems.tag_key] s.tag
    |>.put [systems.lockout_key] (boolText s.lockedOut)
    |>.pushBack systems.channels_key (Tree.array (s.entries.map Entry.getPropertyTree))

/-- What `populateFromFile` finds in place of the file. -/
inductive SystemsFile
  | absent
  | unparsable
  | json (tree : Tree)

/-- `SystemList::writeToFile`. -/
def SystemList.writeToFile (sl : SystemList) : SystemsFile :=
  .json (Tree.empty.pushBack systems_key (Tree.array (sl.systems.map AnalogSystem.getPropertyTree)))

end WriteSystems

/-! ## Loading -/

section Load

open database

/-- The part that the `make*Channel` functions share; `makeChannel` is the
constructor call at their end. -/
def makeChannelEntry (makeChannel : Int → String → Bool → Int → Entry) (pt : Tree) :
    Option Entry :=
  let tag := pt.get some [entry.tag_key] ""
  let freq := pt.get (readInt 32) [entry.freq_key] 0
  let lockout := pt.get readBool [entry.lockout_key] false
  let delay := pt.get (readInt 32) [entry.delay_key] 0
  if freq = 0 then none else some (makeChannel freq tag lockout delay)

/-- `RadioSystem::makeFMChannel`. -/
def makeFMChannel (w : Nat) (pt : Tree) : Option Entry :=
  makeChannelEntry (Entry.fmChannel w) pt

/-- `RadioSystem::makeAMChannel`. -/
def makeAMChannel (w : Nat) (pt : Tree) : Option Entry :=
  makeChannelEntry (Entry.amChannel w) pt

/-- `RadioSystem::makePLChannel`. -/
def makePLChannel (w : Nat) (pt : Tree) : Option Entry :=
  let tone := pt.get some [entry.tone_key] ""
  makeChannelEntry (fun freq tag lockout delay => Entry.plChannel w freq tone tag lockout delay) pt

/-- `RadioSystem::makeDCChannel`. -/
def makeDCChannel (w : Nat) (pt : Tree) : Option Entry :=
  let code := pt.get some [entry.code_key] ""
  makeChannelEntry (fun freq tag lockout delay => Entry.dcChannel w freq code tag lockout delay) pt

/-- `RadioSystem::makeEntry`; a type that is not in the map has no loader. -/
def makeEntry (w : Nat) (type : String) : Option (Tree → Option Entry) :=
  if type = entry.channel.type_fm then some (makeFMChannel w)
  else if type = entry.channel.type_am then some (makeAMChannel w)
  else if type = entry.channel.type_pl then some (makePLChannel w)
  else if type = entry.channel.type_dc then some (makeDCChannel w)
  else none

/-- One channel record: no entry where the type has no loader or the loader
returns a null pointer. -/
def loadEntry (w : Nat) (entryPT : Tree) : Option Entry :=
  match makeEntry w (entryPT.get some [entry.channel.type_key] "") with
  | none => none
  | some load => load entryPT

/-- One round of the loop of the constructor `AnalogSystem(pt, index)`. -/
def AnalogSystem.loadChannel (w : Nat) (s : AnalogSystem) (v : String × Tree) : AnalogSystem :=
  match loadEntry w v.2 with
  | none => s
  | some entry => s.addEntry entry

/-- The constructor `AnalogSystem(pt, index)`. -/
def AnalogSystem.ofTree (w : Nat) (pt : Tree) (index : Nat) : Except Fault AnalogSystem :=
  let s := (AnalogSystem.new (pt.get some [entry.tag_key] "")
    (pt.get readBool [entry.lockout_key] false)).setSysIndex index
  match pt.getChild? [systems.channels_key] with
  | none => .error .badPath
  | some channels => .ok (channels.children.foldl (loadChannel w) s)

/-- One round of the loop of `populateFromFile`; an exception skips the record. -/
def SystemList.loadSystem (w : Nat) (sl : SystemList) (v : String × Tree) : SystemList :=
  if v.2.get some [systems.type_key] "unspecified" = systems.type_analog then
    match AnalogSystem.ofTree w v.2 sl.size with
    | .error _ => sl
    | .ok system => sl.addSystem system
  else sl

/-- `SystemList::populateFromFile`.  A parse error leaves the tree empty. -/
def SystemList.populateFromFile (w : Nat) (file : SystemsFile) (sl : SystemList) :
    Except Fault SystemList :=
  match file with
  | .absent => .ok sl
  | .unparsable => .error .badPath
  | .json tree =>
    match tree.getChild? [systems_key] with
    | none => .error .badPath
    | some list => .ok (list.children.foldl (loadSystem w) sl)

end Load

/-! ## Addresses -/

theorem isDummy_makeChannelEntry {makeChannel : Int → String → Bool → Int → Entry} {pt : Tree}
    {e : Entry} (hm : ∀ f t l d, (makeChannel f t l d).isDummy = false)
    (h : makeChannelEntry makeChannel pt = some e) : e.isDummy = false := by
  simp only [makeChannelEntry] at h
  split at h
  · cases h
  · rw [← Option.some.inj h]
    exact hm ..

/-- The loaders make channels. -/
theorem isDummy_loadEntry {w : Nat} {pt : Tree} {e : Entry} (h : loadEntry w pt = some e) :
    e.isDummy = false := by
  unfold loadEntry makeEntry at h
  split at h
  · cases h
  · rename_i load hload
    split_ifs at hload <;> cases hload
    · exact isDummy_makeChannelEntry (fun _ _ _ _ => rfl) h
    · exact isDummy_makeChannelEntry (fun _ _ _ _ => rfl) h
    · exact isDummy_makeChannelEntry (fun _ _ _ _ => rfl) h
    · exact isDummy_makeChannelEntry (fun _ _ _ _ => rfl) h

/-! What holds of a loaded system, or list, by what one round of the loop keeps. -/

section Loaders

variable {w : Nat}

theorem AnalogSystem.foldl_loadChannel {P : AnalogSystem → Prop}
    (hadd : ∀ s pt e, loadEntry w pt = some e → P s → P (s.addEntry e)) {s : AnalogSystem}
    (h : P s) (vs : List (String × Tree)) : P (vs.foldl (loadChannel w) s) := by
  induction vs generalizing s with
  | nil => exact h
  | cons v vs ih =>
    refine ih ?_
    unfold loadChannel
    split
    · exact h
    · next e he => exact hadd s v.2 e he h

theorem AnalogSystem.of_ofTree {P : AnalogSystem → Prop} {i : Nat} {pt : Tree} {s : AnalogSystem}
    (hnew : ∀ tag lockout, P ((AnalogSystem.new tag lockout).setSysIndex i))
    (hadd : ∀ s pt e, loadEntry w pt = some e → P s → P (s.addEntry e))
    (h : AnalogSystem.ofTree w pt i = .ok s) : P s := by
  unfold AnalogSystem.ofTree at h
  split at h
  · cases h
  · rw [← Except.ok.inj h]
    exact AnalogSystem.foldl_loadChannel hadd (hnew _ _) _

theorem SystemList.foldl_loadSystem {P : SystemList → Prop}
    (hadd : ∀ sl pt s, AnalogSystem.ofTree w pt sl.size = .ok s → P sl → P (sl.addSystem s))
    {sl : SystemList} (h : P sl) (vs : List (String × Tree)) : P (vs.foldl (loadSystem w) sl) := by
  induction vs generalizing sl with
  | nil => exact h
  | cons v vs ih =>
    refine ih ?_
    unfold loadSystem
    split
    · split
      · exact h
      · next s hs => exact hadd sl v.2 s hs h
    · exact h

theorem SystemList.of_populateFromFile {P : SystemList → Prop} {file : SystemsFile}
    {sl sl' : SystemList}
    (hadd : ∀ sl pt s, AnalogSystem.ofTree w pt sl.size = .ok s → P sl → P (sl.addSystem s))
    (hsl : P sl) (h : sl.populateFromFile w file = .ok sl') : P sl' := by
  unfold SystemList.populateFromFile at h
  split at h
  · rw [← Except.ok.inj h]
    exact hsl
  · cases h
  · split at h
    · cases h
    · rw [← Except.ok.inj h]
      exact SystemList.foldl_loadSystem hadd hsl _

end Loaders

theorem AnalogSystem.addressed_ofTree {w i : Nat} {pt : Tree} {s : AnalogSystem}
    (h : AnalogSystem.ofTree w pt i = .ok s) : s.Addressed i := by
  apply AnalogSystem.of_ofTree ?_ ?_ h
  · intro tag lockout
    exact AnalogSystem.addressed_new tag lockout i
  · intro s pt e he hs
    exact hs.addEntry (isDummy_loadEntry he)

/-- **Loaded lists are well addressed**, whatever the file holds. -/
theorem populateFromFile_fresh {w : Nat} {file : SystemsFile} {sl sl' : SystemList}
    (hf : sl.Fresh) (h : sl.populateFromFile w file = .ok sl') : sl'.Fresh := by
  apply SystemList.of_populateFromFile ?_ hf h
  intro sl pt s hs hsl
  exact hsl.addSystem (AnalogSystem.addressed_ofTree hs)

/-! ## Reading what was written -/

/-- What the file keeps of an entry: all but its position, and of its lockout
only whether there is one. -/
def Entry.content (e : Entry) : Entry :=
  { e with lockout := lockoutOf e.isLockedOut, sysIndex := 0, entryIndex := 0 }

/-- What the file keeps of a system. -/
def AnalogSystem.content (s : AnalogSystem) : String × Bool × List Entry :=
  (s.tag, s.lockout, s.entries.map Entry.content)

/-- A channel with the values that its constructor can have got. -/
structure Entry.Storable (e : Entry) : Prop where
  channel : e.isDummy = false
  nonzero : e.frequency ≠ 0
  freqFits : Fits 64 e.frequency
  delayFits : Fits 32 e.scanDelayMS

section Fields

open database.entry

/-- The type, the tone and the code stand beside the fields of `Channel`. -/
theorem get_getPropertyTree {α : Type*} (read : String → Option α) (fallback : α) (e : Entry)
    {key : String} (htype : key ≠ channel.type_key) (htone : key ≠ tone_key)
    (hcode : key ≠ code_key) :
    e.getPropertyTree.get read [key] fallback = e.channelTree.get read [key] fallback := by
  unfold Entry.getPropertyTree
  split <;> simp only [Tree.get_put_ne, ne_eq, htype, htone, hcode, not_false_eq_true]

theorem makeChannelEntry_getPropertyTree
    {makeChannel : Int → String → Bool → Int → Entry} {e : Entry} (h : e.Storable)
    (hmake : makeChannel e.frequency e.tag e.isLockedOut e.scanDelayMS = e.content) :
    makeChannelEntry makeChannel e.getPropertyTree =
      if Fits 32 e.frequency then some e.content else none := by
  have htag : e.getPropertyTree.get some [tag_key] "" = e.tag := by
    rw [get_getPropertyTree some "" e (by decide) (by decide) (by decide)]
    simp (disch := decide) [Entry.channelTree, Tree.get_put_self, Tree.get_put_ne]
  have hlockout : e.getPropertyTree.get readBool [lockout_key] false = e.isLockedOut := by
    rw [get_getPropertyTree readBool false e (by decide) (by decide) (by decide)]
    simp (disch := decide) [Entry.channelTree, Tree.get_put_self, Tree.get_put_ne,
      readBool_boolText]
  have hdelay : e.getPropertyTree.get (readInt 32) [delay_key] 0 = e.scanDelayMS := by
    rw [get_getPropertyTree (readInt 32) 0 e (by decide) (by decide) (by decide),
      Entry.channelTree, Tree.get_put_ne _ _ (by decide), Tree.get_put_self, readInt_toString,
      if_pos h.delayFits, Option.getD_some]
  have hfreq : e.getPropertyTree.get (readInt 32) [freq_key] 0 =
      if Fits 32 e.frequency then e.frequency else 0 := by
    rw [get_getPropertyTree (readInt 32) 0 e (by decide) (by decide) (by decide),
      Entry.channelTree, Tree.get_put_self, readInt_toString]
    split <;> rfl
  simp only [makeChannelEntry, htag, hlockout, hdelay, hfreq]
  by_cases hfits : Fits 32 e.frequency
  · simp [hfits, h.nonzero, hmake]
  · simp [hfits]

/-- **One entry** is read back exactly if its frequency fits an `int`. -/
theorem loadEntry_getPropertyTree {e : Entry} (h : e.Storable) :
    loadEntry 64 e.getPropertyTree =
      if Fits 32 e.frequency then some e.content else none := by
  have hfreq := wrap_of_fits (by decide) h.freqFits
  unfold loadEntry
  cases htype : e.type with
  | fm =>
    have hkey : e.getPropertyTree.get some [channel.type_key] "" = channel.type_fm := by
      simp [Entry.getPropertyTree, htype, Tree.get_put_self]
    rw [hkey]
    refine makeChannelEntry_getPropertyTree h ?_
    simp [Entry.fmChannel, Entry.channel, Entry.content, hfreq, htype]
  | am =>
    have hkey : e.getPropertyTree.get some [channel.type_key] "" = channel.type_am := by
      simp [Entry.getPropertyTree, htype, Tree.get_put_self]
    rw [hkey]
    refine makeChannelEntry_getPropertyTree h ?_
    simp [Entry.amChannel, Entry.channel, Entry.content, hfreq, htype]
  | pl s_tone =>
    have hkey : e.getPropertyTree.get some [channel.type_key] "" = channel.type_pl := by
      simp (disch := decide) [Entry.getPropertyTree, htype, Tree.get_put_self, Tree.get_put_ne]
    have htone : e.getPropertyTree.get some [tone_key] "" = s_tone := by
      simp [Entry.getPropertyTree, htype, Tree.get_put_self]
    rw [hkey]
    refine makeChannelEntry_getPropertyTree h ?_
    simp [Entry.channel, Entry.content, hfreq, htype, htone]
  | dc s_code =>
    have hkey : e.getPropertyTree.get some [channel.type_key] "" = channel.type_dc := by
      simp (disch := decide) [Entry.getPropertyTree, htype, Tree.get_put_self, Tree.get_put_ne]
    have hcode : e.getPropertyTree.get some [code_key] "" = s_code := by
      simp [Entry.getPropertyTree, htype, Tree.get_put_self]
    rw [hkey]
    refine makeChannelEntry_getPropertyTree h ?_
    simp [Entry.channel, Entry.content, hfreq, htype, hcode]
  | dummy =>
    have hd := h.channel
    simp [Entry.isDummy, htype] at hd

end Fields

/-- **The channels of one system.** -/
theorem content_loadChannels (es : List Entry) (hes : ∀ e ∈ es, e.Storable) (s : AnalogSystem) :
    ((es.map fun e => ("", e.getPropertyTree)).foldl (AnalogSystem.loadChannel 64) s).content =
      (s.tag, s.lockout, s.entries.map Entry.content ++
        (es.filter fun e => Fits 32 e.frequency).map Entry.content) := by
  induction es generalizing s with
  | nil => simp [AnalogSystem.content]
  | cons e es ih =>
    have hrest := fun e' he' => hes e' (List.mem_cons_of_mem e he')
    rw [List.map_cons, List.foldl_cons, ih hrest]
    simp only [AnalogSystem.loadChannel, loadEntry_getPropertyTree (hes e (List.mem_cons_self ..))]
    by_cases hfits : Fits 32 e.frequency
    · have hcontent : ({ e.content with entryIndex := s.numEntries, sysIndex := s.sysIndex } :
          Entry).content = e.content := by
        simp [Entry.content, Entry.isLockedOut, Entry.lockoutOf]
      simp [hfits, AnalogSystem.addEntry, hcontent]
    · simp [hfits]

/-- What a reload keeps of a system. -/
def AnalogSystem.reloaded (s : AnalogSystem) : String × Bool × List Entry :=
  (s.tag, s.lockout, (s.entries.filter fun e => Fits 32 e.frequency).map Entry.content)

section Systems

open database

/-- **One system.** -/
theorem ofTree_getPropertyTree {s : AnalogSystem} (hs : ∀ e ∈ s.entries, e.Storable) (i : Nat) :
    ∃ s', AnalogSystem.ofTree 64 s.getPropertyTree i = .ok s' ∧ s'.content = s.reloaded := by
  have htag : s.getPropertyTree.get some [entry.tag_key] "" = s.tag := by
    rfl
  have hlockout : s.getPropertyTree.get readBool [entry.lockout_key] false = s.lockout := by
    change (readBool (boolText s.lockout)).getD false = s.lockout
    rw [readBool_boolText, Option.getD_some]
  have hchannels : s.getPropertyTree.getChild? [systems.channels_key] =
      some (Tree.array (s.entries.map Entry.getPropertyTree)) := rfl
  refine ⟨_, by rw [AnalogSystem.ofTree, hchannels], ?_⟩
  rw [Tree.children_array, List.map_map, htag, hlockout]
  have h := content_loadChannels s.entries hs ((AnalogSystem.new s.tag s.lockout).setSysIndex i)
  simpa [AnalogSystem.reloaded, AnalogSystem.new, AnalogSystem.setSysIndex, Function.comp_def]
    using h

/-- **The loop over the systems.** -/
theorem content_loadSystems (ss : List AnalogSystem)
    (hss : ∀ s ∈ ss, ∀ e ∈ s.entries, e.Storable) (sl : SystemList) :
    ((ss.map fun s => ("", s.getPropertyTree)).foldl (SystemList.loadSystem 64) sl).systems.map
        AnalogSystem.content =
      sl.systems.map AnalogSystem.content ++ ss.map AnalogSystem.reloaded := by
  induction ss generalizing sl with
  | nil => simp
  | cons s ss ih =>
    have hrest := fun s' hs' => hss s' (List.mem_cons_of_mem s hs')
    obtain ⟨s', hs', hcontent⟩ := ofTree_getPropertyTree (hss s (List.mem_cons_self ..)) sl.size
    have htype : s.getPropertyTree.get some [systems.type_key] "unspecified" =
        systems.type_analog := rfl
    rw [List.map_cons, List.foldl_cons, ih hrest, SystemList.loadSystem, if_pos htype, hs']
    simp [SystemList.addSystem, hcontent]

end Systems

/-- **A save and a reload** keeps the systems, and of their entries those whose
frequency fits an `int`. -/
theorem populate_write (sl : SystemList) (hs : ∀ s ∈ sl.systems, ∀ e ∈ s.entries, e.Storable) :
    ∃ sl', SystemList.empty.populateFromFile 64 sl.writeToFile = .ok sl' ∧ sl'.Fresh ∧
      sl'.systems.map AnalogSystem.content = sl.systems.map AnalogSystem.reloaded := by
  have hchild : (Tree.empty.pushBack database.systems_key
      (Tree.array (sl.systems.map AnalogSystem.getPropertyTree))).getChild?
        [database.systems_key] =
      some (Tree.array (sl.systems.map AnalogSystem.getPropertyTree)) := rfl
  have hload : SystemList.empty.populateFromFile 64 sl.writeToFile =
      .ok ((sl.systems.map fun s => ("", s.getPropertyTree)).foldl (SystemList.loadSystem 64)
        SystemList.empty) := by
    simp only [SystemList.populateFromFile, SystemList.writeToFile, hchild, Tree.children_array,
      List.map_map, Function.comp_def]
  refine ⟨_, hload, populateFromFile_fresh SystemList.fresh_empty hload, ?_⟩
  rw [content_loadSystems sl.systems hs]
  rfl

/-- **The database survives a save and a reload** if and only if every frequency
fits an `int`. -/
theorem reload_iff (sl : SystemList) (hs : ∀ s ∈ sl.systems, ∀ e ∈ s.entries, e.Storable) :
    (∃ sl', SystemList.empty.populateFromFile 64 sl.writeToFile = .ok sl' ∧
        sl'.systems.map AnalogSystem.content = sl.systems.map AnalogSystem.content) ↔
      ∀ s ∈ sl.systems, ∀ e ∈ s.entries, Fits 32 e.frequency := by
  obtain ⟨sl', hload, -, hcontent⟩ := populate_write sl hs
  constructor
  · rintro ⟨sl'', hload', hcontent'⟩ s hmem e he
    obtain rfl := Except.ok.inj (hload.symm.trans hload')
    have hsame : AnalogSystem.reloaded s = s.content :=
      List.map_inj_left.mp (hcontent.symm.trans hcontent') s hmem
    -- as many entries are kept as there are
    have hlen := congrArg (fun c => c.2.2.length) hsame
    simp only [AnalogSystem.reloaded, AnalogSystem.content, List.length_map] at hlen
    simpa using List.length_filter_eq_length_iff.mp hlen e he
  · intro hfits
    refine ⟨sl', hload, ?_⟩
    rw [hcontent]
    refine List.map_congr_left fun s hmem => ?_
    have hall : (s.entries.filter fun e => decide (Fits 32 e.frequency)) = s.entries :=
      List.filter_eq_self.mpr fun e he => decide_eq_true (hfits s hmem e he)
    rw [AnalogSystem.reloaded, hall, AnalogSystem.content]

/-- One system with one FM channel. -/
def oneChannel (freq : Int) : SystemList :=
  SystemList.empty.addSystem (((AnalogSystem.new "link" false).setSysIndex 0).addEntry
    (Entry.fmChannel 64 freq "uplink" false 2000))

theorem storable_oneChannel {freq : Int} (hne : wrap 64 freq ≠ 0) :
    ∀ s ∈ (oneChannel freq).systems, ∀ e ∈ s.entries, e.Storable := by
  intro s hs e he
  obtain rfl := List.mem_singleton.mp hs
  obtain rfl := List.mem_singleton.mp he
  have hdelay : Fits 32 2000 := by decide
  exact ⟨rfl, hne, wrap_fits (by decide) freq, hdelay⟩

theorem reload_uhf :
    ∃ sl', SystemList.empty.populateFromFile 64 (oneChannel 446006250).writeToFile = .ok sl' ∧
      sl'.systems.map AnalogSystem.content =
        (oneChannel 446006250).systems.map AnalogSystem.content :=
  (reload_iff (oneChannel 446006250) (storable_oneChannel (by decide))).mpr (by decide)

/-- A channel above 2147483647 Hz is gone after the reload. -/
theorem reload_microwave :
    ¬∃ sl', SystemList.empty.populateFromFile 64 (oneChannel 5760000000).writeToFile = .ok sl' ∧
      sl'.systems.map AnalogSystem.content =
        (oneChannel 5760000000).systems.map AnalogSystem.content := by
  rintro ⟨sl', hload, hsame⟩
  obtain ⟨sl'', hload', -, hcontent⟩ :=
    populate_write (oneChannel 5760000000) (storable_oneChannel (by decide))
  obtain rfl := Except.ok.inj (hload.symm.trans hload')
  rw [hcontent] at hsame
  exact absurd hsame (by decide)

end PiScan.Scan

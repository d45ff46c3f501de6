import PiScan.Scan.Conversion

/-!
# Any text as a Sentinel file

`generateSystemList` on a file of any content: the lines are lists of characters,
with any number of tokens.

* `Last.readLine`: what one line does behind a `C-Group` line;
* `survives_iff`: the texts that are converted with no early end and with nothing
  added by a faulty line;
* `entriesAddressed_iff`: the texts whose entries know their own address.
-/

namespace PiScan.Scan

open TwosComplement Delimited PropertyTree SentinelFile

/-! ## The lines of a text -/

def IsGroup (line : List Char) : Prop := (tokensOf line).head? = some C_GROUP

def IsFreq (line : List Char) : Prop := (tokensOf line).head? = some C_FREQ

instance (line : List Char) : Decidable (IsGroup line) := inferInstanceAs (Decidable (_ = _))

instance (line : List Char) : Decidable (IsFreq line) := inferInstanceAs (Decidable (_ = _))

theorem not_isGroup_of_isFreq {line : List Char} (h : IsFreq line) : ¬IsGroup line := by
  intro hg
  have hsame : C_FREQ = C_GROUP := Option.some.inj (h.symm.trans hg)
  exact absurd hsame (by decide)

/-- A mode whose channels have a tone. -/
def HasTone (s_mode : String) : Prop :=
  s_mode = SENTINEL_NFM ∨ s_mode = SENTINEL_FM ∨ s_mode = SENTINEL_AUTO

/-- A mode and a tone that a channel is made of. -/
def MakesChannel (s_mode s_tone : String) : Prop :=
  s_mode = SENTINEL_AM ∨
    HasTone s_mode ∧ (s_tone = SENTINEL_CSQ ∨ s_tone.toList.take 5 = SENTINEL_TONE_PRE.toList)

/-- The mode and the tone of a `C-Freq` line make a channel. -/
def NamesChannel (tokens : List String) : Prop :=
  ∃ s_mode s_tone, tokens[C_FREQ_MODE_POS]? = some s_mode ∧
    tokens[C_FREQ_TONE_POS]? = some s_tone ∧ MakesChannel s_mode s_tone

/-- A column is missing, the frequency or the delay is no number, or nothing stands
behind `TONE=`. -/
def FaultyFreq (tokens : List String) : Prop :=
  tokens.length ≤ C_FREQ_DELAY_POS ∨ tokens[C_FREQ_FREQ_POS]?.bind leadingInt = none ∨
    tokens[C_FREQ_DELAY_POS]?.bind leadingInt = none ∨
    tokens[C_FREQ_TONE_POS]? = some SENTINEL_TONE_PRE

/-- A line that is to add nothing. -/
def Faulty (line : List Char) : Prop :=
  IsGroup line ∧ (tokensOf line).length ≤ C_GROUP_LO_POS ∨ IsFreq line ∧ FaultyFreq (tokensOf line)

instance (tokens : List String) : Decidable (FaultyFreq tokens) :=
  inferInstanceAs (Decidable (_ ∨ _ ∨ _ ∨ _))

instance (line : List Char) : Decidable (Faulty line) :=
  inferInstanceAs (Decidable (_ ∧ _ ∨ _ ∧ _))

/-- The conversion returns true, with the systems and entries of the lines that are
not faulty. -/
def Survives (w : Nat) (text : List Char) (list : SystemList) : Prop :=
  ∃ sf, generateSystemList w (some text) list = .ok (true, sf) ∧
    ((getlines '\n' text).filter fun l => ¬Faulty l).foldlM (readLine w)
      { list, system := none } = .ok sf

/-- A `C-Freq` line with all its columns and numbers in range; with nothing behind
`TONE=` its mode makes no channel. -/
def SoundFreq (tokens : List String) : Prop :=
  ∃ s_freq s_mode s_tone s_delay, tokens[C_FREQ_FREQ_POS]? = some s_freq ∧
    tokens[C_FREQ_MODE_POS]? = some s_mode ∧ tokens[C_FREQ_TONE_POS]? = some s_tone ∧
    tokens[C_FREQ_DELAY_POS]? = some s_delay ∧ (∃ freq, stoll s_freq = some freq) ∧
    (∃ seconds, stoi s_delay = some seconds ∧ Fits 32 (seconds * 1000)) ∧
    (s_tone = SENTINEL_TONE_PRE → ¬MakesChannel s_mode s_tone)

def Sound (line : List Char) : Prop :=
  (IsGroup line → C_GROUP_LO_POS < (tokensOf line).length) ∧
    (IsFreq line → SoundFreq (tokensOf line))

/-- The lines from the first `C-Group` line on. -/
def fromGroup (lines : List (List Char)) : List (List Char) := lines.dropWhile fun l => ¬IsGroup l

theorem fromGroup_cons_group {l : List Char} (h : IsGroup l) (ls : List (List Char)) :
    fromGroup (l :: ls) = l :: ls := by
  rw [fromGroup, List.dropWhile_cons_of_neg (by simpa using h)]

theorem fromGroup_cons_other {l : List Char} (h : ¬IsGroup l) (ls : List (List Char)) :
    fromGroup (l :: ls) = fromGroup ls := by
  rw [fromGroup, List.dropWhile_cons_of_pos (by simpa using h), fromGroup]

/-! ## What a line makes -/

theorem systemOf_isOk_iff (tokens : List String) :
    (∃ s, systemOf tokens = .ok s) ↔ C_GROUP_LO_POS < tokens.length := by
  simp only [systemOf, bind_eq_ok, token_eq_ok]
  constructor
  · rintro ⟨s, s_tag, -, s_lockout, hlo, -⟩
    exact (List.getElem?_eq_some_iff.mp hlo).1
  · intro hlen
    have hpos : C_GROUP_TAG_POS < tokens.length := Nat.lt_trans (by decide) hlen
    exact ⟨_, _, List.getElem?_eq_getElem hpos, _, List.getElem?_eq_getElem hlen, rfl⟩

section Entry

variable {w : Nat} {s_tag : String} {lockout : Bool} {freq : Int} {s_mode s_tone : String}
  {delayMS : Int}

/-- With a mode that has a tone, the call ends early only where the tone is empty. -/
theorem newEntryOf_tone (hm : HasTone s_mode) :
    (s_tone = SENTINEL_TONE_PRE ∧
      newEntryOf w s_tag lockout freq s_mode s_tone delayMS = .error .exception) ∨
    (s_tone ≠ SENTINEL_TONE_PRE ∧
      ∃ e, newEntryOf w s_tag lockout freq s_mode s_tone delayMS = .ok e ∧
        (e.isSome ↔ s_tone = SENTINEL_CSQ ∨ s_tone.toList.take 5 = SENTINEL_TONE_PRE.toList)) := by
  have hmode : s_mode = SENTINEL_NFM ∨ s_mode = SENTINEL_FM ∨ s_mode = SENTINEL_AUTO := hm
  rw [newEntryOf, if_pos hmode]
  by_cases hcsq : s_tone = SENTINEL_CSQ
  · refine Or.inr ⟨?_, _, by rw [if_pos hcsq], by simp [hcsq]⟩
    rw [hcsq]
    decide
  · by_cases htake : s_tone.toList.take 5 = SENTINEL_TONE_PRE.toList
    · rw [if_neg hcsq, if_pos htake]
      cases hdrop : s_tone.toList.drop 5 with
      | nil =>
        have htext : s_tone.toList = SENTINEL_TONE_PRE.toList := by
          rw [← List.take_append_drop 5 s_tone.toList, htake, hdrop, List.append_nil]
        exact Or.inl ⟨String.toList_inj.mp htext, rfl⟩
      | cons code tone =>
        have hne : s_tone ≠ SENTINEL_TONE_PRE := by
          rintro rfl
          cases hdrop
        refine Or.inr ⟨hne, ?_⟩
        by_cases hc : code = 'C'
        · exact ⟨some _, if_pos hc, by simp [htake]⟩
        · by_cases hd : code = 'D'
          · exact ⟨some _, (if_neg hc).trans (if_pos hd), by simp [htake]⟩
          · exact ⟨some _, (if_neg hc).trans (if_neg hd), by simp [htake]⟩
    · have hne : s_tone ≠ SENTINEL_TONE_PRE := by
        rintro rfl
        exact htake (by decide)
      exact Or.inr ⟨hne, none, by rw [if_neg hcsq, if_neg htake], by simp [hcsq, htake]⟩

theorem not_hasTone_am : ¬HasTone SENTINEL_AM := by
  unfold HasTone
  decide

/-- Without such a mode the call returns. -/
theorem newEntryOf_untoned (hm : ¬HasTone s_mode) :
    ∃ e, newEntryOf w s_tag lockout freq s_mode s_tone delayMS = .ok e ∧
      (e.isSome ↔ s_mode = SENTINEL_AM) := by
  have hmode : ¬(s_mode = SENTINEL_NFM ∨ s_mode = SENTINEL_FM ∨ s_mode = SENTINEL_AUTO) := hm
  rw [newEntryOf, if_neg hmode]
  by_cases ham : s_mode = SENTINEL_AM
  · exact ⟨_, by rw [if_pos ham], by simp [ham]⟩
  · exact ⟨none, by rw [if_neg ham], by simp [ham]⟩

theorem newEntryOf_isOk_iff :
    (∃ e, newEntryOf w s_tag lockout freq s_mode s_tone delayMS = .ok e) ↔
      ¬(HasTone s_mode ∧ s_tone = SENTINEL_TONE_PRE) := by
  by_cases hm : HasTone s_mode
  · rcases @newEntryOf_tone w s_tag lockout freq s_mode s_tone delayMS hm with
      ⟨htone, herr⟩ | ⟨htone, e, hok, -⟩
    · refine iff_of_false ?_ (fun h => h ⟨hm, htone⟩)
      rintro ⟨e, hok⟩
      rw [herr] at hok
      cases hok
    · exact iff_of_true ⟨e, hok⟩ (fun h => htone h.2)
  · obtain ⟨e, hok, -⟩ := @newEntryOf_untoned w s_tag lockout freq s_mode s_tone delayMS hm
    exact iff_of_true ⟨e, hok⟩ (fun h => hm h.1)

theorem isSome_newEntryOf {e : Option Entry}
    (h : newEntryOf w s_tag lockout freq s_mode s_tone delayMS = .ok e) :
    e.isSome ↔ MakesChannel s_mode s_tone := by
  by_cases hm : HasTone s_mode
  · have ham : s_mode ≠ SENTINEL_AM := by
      rintro rfl
      exact not_hasTone_am hm
    rcases @newEntryOf_tone w s_tag lockout freq s_mode s_tone delayMS hm with
      ⟨-, herr⟩ | ⟨-, e', hok, hsome⟩
    · rw [herr] at h
      cases h
    · rw [hok] at h
      cases h
      simp [MakesChannel, ham, hm, hsome]
  · obtain ⟨e', hok, hsome⟩ := @newEntryOf_untoned w s_tag lockout freq s_mode s_tone delayMS hm
    rw [hok] at h
    cases h
    simp [MakesChannel, hm, hsome]

end Entry

/-- A `C-Freq` line that is read without an early end. -/
def ReadFreq (tokens : List String) : Prop :=
  ∃ s_freq s_mode s_tone s_delay, tokens[C_FREQ_FREQ_POS]? = some s_freq ∧
    tokens[C_FREQ_MODE_POS]? = some s_mode ∧ tokens[C_FREQ_TONE_POS]? = some s_tone ∧
    tokens[C_FREQ_DELAY_POS]? = some s_delay ∧ (∃ freq, stoll s_freq = some freq) ∧
    (∃ seconds, stoi s_delay = some seconds ∧ Fits 32 (seconds * 1000)) ∧
    ¬(HasTone s_mode ∧ s_tone = SENTINEL_TONE_PRE)

theorem entryOf_isOk_iff (w : Nat) (tokens : List String) :
    (∃ e, entryOf w tokens = .ok e) ↔ ReadFreq tokens := by
  simp only [entryOf, bind_eq_ok, token_eq_ok, parsed_eq_ok]
  constructor
  · rintro ⟨e, s_tag, -, s_lockout, -, s_freq, hfreq, s_mode, hmode, s_tone, htone, s_delay,
      hdelay, freq, hstoll, delayMS, hms, hmake⟩
    obtain ⟨seconds, hstoi, hfits, -⟩ := delayOf_eq_ok.mp hms
    exact ⟨s_freq, s_mode, s_tone, s_delay, hfreq, hmode, htone, hdelay, ⟨freq, hstoll⟩,
      ⟨seconds, hstoi, hfits⟩, newEntryOf_isOk_iff.mp ⟨e, hmake⟩⟩
  · rintro ⟨s_freq, s_mode, s_tone, s_delay, hfreq, hmode, htone, hdelay, ⟨freq, hstoll⟩,
      ⟨seconds, hstoi, hfits⟩, hne⟩
    -- the delay is the last of the columns
    have hlen : C_FREQ_DELAY_POS < tokens.length := (List.getElem?_eq_some_iff.mp hdelay).1
    have htag : C_FREQ_TAG_POS < tokens.length := Nat.lt_trans (by decide) hlen
    have hlo : C_FREQ_LO_POS < tokens.length := Nat.lt_trans (by decide) hlen
    obtain ⟨e, hmake⟩ := newEntryOf_isOk_iff.mpr hne
    exact ⟨e, _, List.getElem?_eq_getElem htag, _, List.getElem?_eq_getElem hlo, s_freq, hfreq,
      s_mode, hmode, s_tone, htone, s_delay, hdelay, freq, hstoll, seconds * 1000,
      delayOf_eq_ok.mpr ⟨seconds, hstoi, hfits, rfl⟩, hmake⟩

theorem isSome_entryOf {w : Nat} {tokens : List String} {e : Option Entry}
    (h : entryOf w tokens = .ok e) : e.isSome ↔ NamesChannel tokens := by
  simp only [entryOf, bind_eq_ok, token_eq_ok, parsed_eq_ok] at h
  obtain ⟨s_tag, -, s_lockout, -, s_freq, -, s_mode, hmode, s_tone, htone, s_delay, -, freq, -,
    delayMS, -, hmake⟩ := h
  rw [isSome_newEntryOf hmake]
  constructor
  · intro hmakes
    exact ⟨s_mode, s_tone, hmode, htone, hmakes⟩
  · rintro ⟨s_mode', s_tone', hmode', htone', hmakes⟩
    rw [hmode, Option.some.injEq] at hmode'
    rw [htone, Option.some.injEq] at htone'
    rwa [hmode', htone']

/-! ## One line -/

def Passes (line : List Char) : Prop :=
  (IsGroup line → C_GROUP_LO_POS < (tokensOf line).length) ∧
    (IsFreq line → ReadFreq (tokensOf line))

/-- How many channels a line adds to the last system. -/
def channelsOf (w : Nat) (line : List Char) : Nat :=
  if IsFreq line then
    match entryOf w (tokensOf line) with
    | .ok (some _) => 1
    | _ => 0
  else 0

/-- A line that begins with a word has tokens. -/
theorem exists_tokens {l : List Char} {type : String} (h : (tokensOf l).head? = some type) :
    ∃ tokens, tokensOf l = type :: tokens := by
  cases htokens : tokensOf l with
  | nil =>
    rw [htokens] at h
    cases h
  | cons first tokens =>
    rw [htokens] at h
    exact ⟨tokens, by rw [Option.some.inj h]⟩

theorem readLine_isGroup {l : List Char} (h : IsGroup l) (w : Nat) (sf : SentinelFile) :
    readLine w sf l = newAnalogSys sf (tokensOf l) := by
  obtain ⟨tokens, htokens⟩ := exists_tokens h
  simp only [readLine, htokens, if_true]

theorem readLine_isFreq {l : List Char} (h : IsFreq l) (w : Nat) {sf : SentinelFile} {i : Nat}
    (hs : sf.system = some i) : readLine w sf l = newAnalogEntry w sf (tokensOf l) := by
  obtain ⟨tokens, htokens⟩ := exists_tokens h
  have hne : C_FREQ ≠ C_GROUP := by decide
  simp only [readLine, htokens, if_neg hne, hs, Option.isSome_some, and_self, if_true]

/-- The other lines change nothing. -/
theorem readLine_other {l : List Char} (hg : ¬IsGroup l) (w : Nat) {sf : SentinelFile}
    (hf : IsFreq l → sf.system = none) : readLine w sf l = .ok sf := by
  unfold IsGroup at hg
  unfold IsFreq at hf
  unfold readLine
  cases htokens : tokensOf l with
  | nil => rfl
  | cons type tokens =>
    rw [htokens, List.head?_cons, Option.some.injEq] at hg hf
    show (if type = C_GROUP then _ else _) = _
    rw [if_neg hg]
    by_cases htype : type = C_FREQ
    · rw [if_neg (by simp [hf htype])]
    · rw [if_neg fun h => htype h.1]

/-- **One line** behind a `C-Group` line: a new system, a channel for the last one,
or nothing. -/
theorem Last.readLine {w : Nat} {before : List AnalogSystem} {s : AnalogSystem}
    {sf sf' : SentinelFile} {l : List Char} (h : Last before s sf)
    (hread : Scan.readLine w sf l = .ok sf') :
    Passes l ∧
      ((IsGroup l ∧ ∃ tag lo, Last (before ++ [s]) (.new tag lo) sf') ∨
        (channelsOf w l = 1 ∧ ¬IsGroup l ∧
          ∃ e, entryOf w (tokensOf l) = .ok (some e) ∧
            Last before (s.addEntry { e with sysIndex := sf.list.size - 1, entryIndex := s.size })
              sf') ∨
        (channelsOf w l = 0 ∧ ¬IsGroup l ∧ sf' = sf)) := by
  by_cases hg : IsGroup l
  · rw [readLine_isGroup hg, newAnalogSys] at hread
    simp only [bind_eq_ok, Except.ok.injEq] at hread
    obtain ⟨system, hsystem, rfl⟩ := hread
    obtain ⟨tag, lo, rfl⟩ := systemOf_ok hsystem
    have hpasses : Passes l :=
      ⟨fun _ => (systemOf_isOk_iff _).mp ⟨_, hsystem⟩,
        fun hf => absurd hg (not_isGroup_of_isFreq hf)⟩
    refine ⟨hpasses, Or.inl ⟨hg, tag, lo, ?_, ?_⟩⟩
    · show sf.list.systems ++ [_] = _
      rw [h.systems]
    · show some sf.list.systems.length = _
      rw [h.systems]
  · by_cases hf : IsFreq l
    · rw [readLine_isFreq hf w h.system] at hread
      cases hentry : entryOf w (tokensOf l) with
      | error e =>
        rw [newAnalogEntry_error h.system hentry] at hread
        cases hread
      | ok newEntry =>
        have hpasses : Passes l :=
          ⟨fun hg' => absurd hg' hg, fun _ => (entryOf_isOk_iff w _).mp ⟨_, hentry⟩⟩
        cases newEntry with
        | none =>
          rw [newAnalogEntry_none h.system hentry, Except.ok.injEq] at hread
          refine ⟨hpasses, Or.inr (Or.inr ⟨?_, hg, hread.symm⟩)⟩
          rw [channelsOf, if_pos hf, hentry]
        | some e =>
          rw [newAnalogEntry_some h.system hentry, Except.ok.injEq] at hread
          subst hread
          refine ⟨hpasses, Or.inr (Or.inl ⟨?_, hg, e, rfl, ?_, h.system⟩)⟩
          · rw [channelsOf, if_pos hf, hentry]
          · show sf.list.systems.modify before.length _ = _
            rw [h.systems, modify_last]
    · rw [readLine_other hg w fun hf' => absurd hf' hf, Except.ok.injEq] at hread
      refine ⟨⟨fun hg' => absurd hg' hg, fun hf' => absurd hf' hf⟩,
        Or.inr (Or.inr ⟨?_, hg, hread.symm⟩)⟩
      rw [channelsOf, if_neg hf]

/-- A line that passes is read. -/
theorem Last.exists_readLine {w : Nat} {before : List AnalogSystem} {s : AnalogSystem}
    {sf : SentinelFile} {l : List Char} (h : Last before s sf) (hp : Passes l) :
    ∃ sf', Scan.readLine w sf l = .ok sf' := by
  by_cases hg : IsGroup l
  · obtain ⟨system, hsystem⟩ := (systemOf_isOk_iff _).mpr (hp.1 hg)
    rw [readLine_isGroup hg, newAnalogSys, hsystem]
    exact ⟨_, rfl⟩
  · by_cases hf : IsFreq l
    · obtain ⟨newEntry, hentry⟩ := (entryOf_isOk_iff w _).mpr (hp.2 hf)
      rw [readLine_isFreq hf w h.system]
      cases newEntry with
      | none => exact ⟨_, newAnalogEntry_none h.system hentry⟩
      | some e => exact ⟨_, newAnalogEntry_some h.system hentry⟩
    · exact ⟨_, readLine_other hg w fun hf' => absurd hf' hf⟩

theorem isGroup_channelsOf {w : Nat} {l : List Char} (h : IsGroup l) : channelsOf w l = 0 := by
  rw [channelsOf, if_neg fun hf => not_isGroup_of_isFreq hf h]

/-- A `C-Freq` line that passes adds a channel just when it names one. -/
theorem channelsOf_eq_zero_iff {w : Nat} {l : List Char} (hp : Passes l) :
    channelsOf w l = 0 ↔ (IsFreq l → ¬NamesChannel (tokensOf l)) := by
  by_cases hf : IsFreq l
  · obtain ⟨newEntry, hentry⟩ := (entryOf_isOk_iff w _).mpr (hp.2 hf)
    rw [channelsOf, if_pos hf, hentry]
    have hsome := isSome_entryOf hentry
    cases newEntry with
    | none => simpa [hf] using hsome
    | some e => simpa [hf] using hsome
  · simp [channelsOf, hf]

/-! ## The run over the lines -/

/-- How many channels the systems hold from position `n` on. -/
def channelsFrom (n : Nat) (sf : SentinelFile) : Nat :=
  ((sf.list.systems.drop n).map fun s => s.entries.length).sum

theorem Last.channelsFrom {before : List AnalogSystem} {s : AnalogSystem} {sf : SentinelFile}
    {n : Nat} (h : Last before s sf) (hn : n ≤ before.length) :
    channelsFrom n sf = ((before.drop n).map fun s => s.entries.length).sum + s.entries.length := by
  rw [Scan.channelsFrom, h.systems, List.drop_append_of_le_length hn]
  simp

/-- The step of the count. -/
theorem Last.channelsFrom_readLine {w n : Nat} {before : List AnalogSystem} {s : AnalogSystem}
    {sf sf' : SentinelFile} {l : List Char} (h : Last before s sf) (hn : n ≤ before.length)
    (hread : Scan.readLine w sf l = .ok sf') :
    ∃ before' s', Last before' s' sf' ∧ n ≤ before'.length ∧
      Scan.channelsFrom n sf' = Scan.channelsFrom n sf + channelsOf w l := by
  obtain ⟨-, ⟨hg, tag, lo, hlast⟩ | ⟨hone, -, e, -, hlast⟩ | ⟨hzero, -, rfl⟩⟩ := h.readLine hread
  · have hn' : n ≤ (before ++ [s]).length := by
      rw [List.length_append]
      omega
    refine ⟨_, _, hlast, hn', ?_⟩
    rw [hlast.channelsFrom hn', h.channelsFrom hn, isGroup_channelsOf hg,
      List.drop_append_of_le_length hn]
    simp [AnalogSystem.new]
  · refine ⟨_, _, hlast, hn, ?_⟩
    rw [hlast.channelsFrom hn, h.channelsFrom hn, hone]
    simp only [AnalogSystem.addEntry, List.length_append, List.length_singleton]
    omega
  · exact ⟨before, s, h, hn, by rw [hzero, Nat.add_zero]⟩

/-- **A run that ends**: every line passes, and adds its channels. -/
theorem Last.run {w n : Nat} {lines : List (List Char)} {before : List AnalogSystem}
    {s : AnalogSystem} {sf sf' : SentinelFile} (h : Last before s sf) (hn : n ≤ before.length)
    (hrun : lines.foldlM (Scan.readLine w) sf = .ok sf') :
    (∀ l ∈ lines, Passes l) ∧
      Scan.channelsFrom n sf' = Scan.channelsFrom n sf + (lines.map (channelsOf w)).sum := by
  induction lines generalizing before s sf with
  | nil =>
    rw [List.foldlM_nil, pure_eq_ok] at hrun
    subst hrun
    simp
  | cons l lines ih =>
    simp only [List.foldlM_cons, bind_eq_ok] at hrun
    obtain ⟨sf₁, hread, hrest⟩ := hrun
    obtain ⟨before', s', hlast, hn', hcount⟩ := h.channelsFrom_readLine hn hread
    obtain ⟨hpasses, hsum⟩ := ih hlast hn' hrest
    refine ⟨List.forall_mem_cons.mpr ⟨(h.readLine hread).1, hpasses⟩, ?_⟩
    rw [hsum, hcount, List.map_cons, List.sum_cons, Nat.add_assoc]

/-- Before the first `C-Group` line nothing happens. -/
theorem foldlM_fromGroup {w : Nat} {sf : SentinelFile} (h : sf.system = none)
    (lines : List (List Char)) :
    lines.foldlM (readLine w) sf = (fromGroup lines).foldlM (readLine w) sf := by
  induction lines with
  | nil => rfl
  | cons l lines ih =>
    by_cases hg : IsGroup l
    · rw [fromGroup_cons_group hg]
    · rw [fromGroup_cons_other hg, List.foldlM_cons, readLine_other hg w fun _ => h]
      exact ih

theorem fromGroup_eq_nil_or (lines : List (List Char)) :
    fromGroup lines = [] ∨ ∃ g rest, fromGroup lines = g :: rest ∧ IsGroup g := by
  induction lines with
  | nil => exact Or.inl rfl
  | cons l lines ih =>
    by_cases hg : IsGroup l
    · exact Or.inr ⟨l, lines, fromGroup_cons_group hg lines, hg⟩
    · rwa [fromGroup_cons_other hg]

theorem mem_fromGroup {lines : List (List Char)} {l : List Char} (hl : l ∈ lines)
    (hg : IsGroup l) : l ∈ fromGroup lines := by
  induction lines with
  | nil => cases hl
  | cons l' lines ih =>
    by_cases hg' : IsGroup l'
    · rwa [fromGroup_cons_group hg']
    · rw [fromGroup_cons_other hg']
      rcases List.mem_cons.mp hl with rfl | hl
      · exact absurd hg hg'
      · exact ih hl

/-- The first `C-Group` line. -/
theorem last_of_group {w : Nat} {sf sf' : SentinelFile} {g : List Char} (hg : IsGroup g)
    (hread : readLine w sf g = .ok sf') :
    Passes g ∧ ∃ tag lo, Last sf.list.systems (.new tag lo) sf' := by
  rw [readLine_isGroup hg, newAnalogSys] at hread
  simp only [bind_eq_ok, Except.ok.injEq] at hread
  obtain ⟨system, hsystem, rfl⟩ := hread
  obtain ⟨tag, lo, rfl⟩ := systemOf_ok hsystem
  exact ⟨⟨fun _ => (systemOf_isOk_iff _).mp ⟨_, hsystem⟩,
    fun hf => absurd hg (not_isGroup_of_isFreq hf)⟩, tag, lo, rfl, rfl⟩

theorem exists_readLine_group {w : Nat} {sf : SentinelFile} {g : List Char} (hg : IsGroup g)
    (hp : Passes g) : ∃ sf', readLine w sf g = .ok sf' := by
  obtain ⟨system, hsystem⟩ := (systemOf_isOk_iff _).mpr (hp.1 hg)
  rw [readLine_isGroup hg, newAnalogSys, hsystem]
  exact ⟨_, rfl⟩

/-! ## Surviving any text -/

theorem generateSystemList_eq_ok {w : Nat} {text : List Char} {list : SystemList}
    {sf : SentinelFile} :
    generateSystemList w (some text) list = .ok (true, sf) ↔
      (getlines '\n' text).foldlM (readLine w) { list, system := none } = .ok sf := by
  simp only [generateSystemList, bind_eq_ok, Except.ok.injEq, Prod.mk.injEq, true_and,
    exists_eq_right]

/-- A sound line passes, and adds nothing where it is faulty. -/
theorem sound_iff (w : Nat) (l : List Char) :
    Sound l ↔ Passes l ∧ (Faulty l → channelsOf w l = 0) := by
  constructor
  · rintro ⟨hgroup, hfreq⟩
    have hpasses : Passes l := by
      refine ⟨hgroup, fun hf => ?_⟩
      obtain ⟨s_freq, s_mode, s_tone, s_delay, h₁, h₂, h₃, h₄, hstoll, hstoi, htone⟩ := hfreq hf
      refine ⟨s_freq, s_mode, s_tone, s_delay, h₁, h₂, h₃, h₄, hstoll, hstoi, ?_⟩
      rintro ⟨hm, hpre⟩
      refine htone hpre (Or.inr ⟨hm, Or.inr ?_⟩)
      rw [hpre]
      decide
    refine ⟨hpasses, fun hfaulty => (channelsOf_eq_zero_iff hpasses).mpr fun hf => ?_⟩
    obtain ⟨s_freq, s_mode, s_tone, s_delay, h₁, h₂, h₃, h₄, ⟨freq, hstoll⟩,
      ⟨seconds, hstoi, -⟩, htone⟩ := hfreq hf
    rcases hfaulty with ⟨hg, -⟩ | ⟨-, hcolumns | hnofreq | hnodelay | hpre⟩
    · exact absurd hg (not_isGroup_of_isFreq hf)
    · have hlen := (List.getElem?_eq_some_iff.mp h₄).1
      omega
    · rw [h₁, Option.bind_some] at hnofreq
      simp [stoll, hnofreq] at hstoll
    · rw [h₄, Option.bind_some] at hnodelay
      simp [stoi_eq, hnodelay] at hstoi
    · rintro ⟨s_mode', s_tone', h₂', h₃', hmakes⟩
      obtain rfl := Option.some.inj (h₂.symm.trans h₂')
      obtain rfl := Option.some.inj (h₃.symm.trans h₃')
      exact htone (Option.some.inj (h₃.symm.trans hpre)) hmakes
  · rintro ⟨hpasses, hzero⟩
    refine ⟨hpasses.1, fun hf => ?_⟩
    obtain ⟨s_freq, s_mode, s_tone, s_delay, h₁, h₂, h₃, h₄, hstoll, hstoi, -⟩ := hpasses.2 hf
    refine ⟨s_freq, s_mode, s_tone, s_delay, h₁, h₂, h₃, h₄, hstoll, hstoi, ?_⟩
    rintro rfl hmakes
    have hfaulty : Faulty l := Or.inr ⟨hf, Or.inr (Or.inr (Or.inr h₃))⟩
    exact (channelsOf_eq_zero_iff hpasses).mp (hzero hfaulty) hf ⟨s_mode, _, h₂, h₃, hmakes⟩

theorem sum_filter_le {α : Type*} (f : α → Nat) (p : α → Bool) (l : List α) :
    ((l.filter p).map f).sum ≤ (l.map f).sum := by
  induction l with
  | nil => simp
  | cons a l ih =>
    cases hp : p a with
    | true =>
      simp only [List.filter_cons, hp, if_true, List.map_cons, List.sum_cons]
      omega
    | false =>
      simp only [List.filter_cons, hp, List.map_cons, List.sum_cons, Bool.false_eq_true, if_false]
      omega

theorem eq_zero_of_sum_filter {α : Type*} {f : α → Nat} {p : α → Bool} {l : List α}
    (h : ((l.filter p).map f).sum = (l.map f).sum) : ∀ a ∈ l, p a = false → f a = 0 := by
  induction l with
  | nil => simp
  | cons a l ih =>
    have hle := sum_filter_le f p l
    cases hp : p a with
    | true =>
      simp only [List.filter_cons, hp, if_true, List.map_cons, List.sum_cons] at h
      refine List.forall_mem_cons.mpr ⟨fun hp' => ?_, ih (by omega)⟩
      rw [hp] at hp'
      cases hp'
    | false =>
      simp only [List.filter_cons, hp, List.map_cons, List.sum_cons, Bool.false_eq_true,
        if_false] at h
      exact List.forall_mem_cons.mpr ⟨fun _ => by omega, ih (by omega)⟩

/-- Sound lines are read, with the faulty ones or without them. -/
theorem Last.sound_run {w : Nat} {lines : List (List Char)} {before : List AnalogSystem}
    {s : AnalogSystem} {sf : SentinelFile} (h : Last before s sf) (hs : ∀ l ∈ lines, Sound l) :
    ∃ sf', lines.foldlM (Scan.readLine w) sf = .ok sf' ∧
      (lines.filter fun l => ¬Faulty l).foldlM (Scan.readLine w) sf = .ok sf' := by
  induction lines generalizing before s sf with
  | nil => exact ⟨sf, rfl, rfl⟩
  | cons l lines ih =>
    obtain ⟨hl, hlines⟩ := List.forall_mem_cons.mp hs
    obtain ⟨hpasses, hzero⟩ := (sound_iff w l).mp hl
    obtain ⟨sf₁, hread⟩ := h.exists_readLine (w := w) hpasses
    obtain ⟨before', s', hlast, -, -⟩ := h.channelsFrom_readLine (Nat.zero_le _) hread
    obtain ⟨sf', hrun, hfilter⟩ := ih hlast hlines
    refine ⟨sf', ?_, ?_⟩
    · rw [List.foldlM_cons, hread]
      exact hrun
    · by_cases hfaulty : Faulty l
      · rw [List.filter_cons_of_neg (by simpa using hfaulty)]
        -- a faulty line that passes changes nothing
        rcases h.readLine hread with ⟨-, ⟨hg, -⟩ | ⟨hone, -⟩ | ⟨-, -, rfl⟩⟩
        · rcases hfaulty with ⟨-, hlen⟩ | ⟨hf, -⟩
          · have hpos := hpasses.1 hg
            omega
          · exact absurd hg (not_isGroup_of_isFreq hf)
        · rw [hzero hfaulty] at hone
          cases hone
        · exact hfilter
      · rw [List.filter_cons_of_pos (by simpa using hfaulty), List.foldlM_cons, hread]
        exact hfilter

theorem not_faulty_of_group {l : List Char} (hp : Passes l) (hg : IsGroup l) : ¬Faulty l := by
  rintro (⟨-, hlen⟩ | ⟨hf, -⟩)
  · have hpos := hp.1 hg
    omega
  · exact not_isGroup_of_isFreq hf hg

theorem fromGroup_filter {lines : List (List Char)} (h : ∀ l ∈ lines, IsGroup l → ¬Faulty l) :
    fromGroup (lines.filter fun l => ¬Faulty l) =
      (fromGroup lines).filter fun l => ¬Faulty l := by
  induction lines with
  | nil => rfl
  | cons l lines ih =>
    obtain ⟨hl, hlines⟩ := List.forall_mem_cons.mp h
    by_cases hg : IsGroup l
    · rw [fromGroup_cons_group hg, List.filter_cons_of_pos (by simpa using hl hg),
        fromGroup_cons_group hg]
    · rw [fromGroup_cons_other hg, ← ih hlines]
      by_cases hfaulty : Faulty l
      · rw [List.filter_cons_of_neg (by simpa using hfaulty)]
      · rw [List.filter_cons_of_pos (by simpa using hfaulty), fromGroup_cons_other hg]

/-- **The texts that are survived**: every line from the first `C-Group` line on is
sound. -/
theorem survives_iff (w : Nat) (text : List Char) (list : SystemList) :
    Survives w text list ↔ ∀ l ∈ fromGroup (getlines '\n' text), Sound l := by
  unfold Survives
  simp only [generateSystemList_eq_ok]
  generalize getlines '\n' text = lines
  have hnone : ({ list, system := none } : SentinelFile).system = none := rfl
  generalize ({ list, system := none } : SentinelFile) = sf₀ at hnone
  simp only [foldlM_fromGroup hnone lines,
    foldlM_fromGroup hnone (lines.filter fun l => ¬Faulty l)]
  rcases fromGroup_eq_nil_or lines with hnil | ⟨g, rest, hcons, hg⟩
  · have hnogroup : ∀ l ∈ lines, IsGroup l → ¬Faulty l := by
      intro l hl hgl
      have hmem := mem_fromGroup hl hgl
      rw [hnil] at hmem
      cases hmem
    rw [fromGroup_filter hnogroup, hnil]
    refine iff_of_true ⟨sf₀, rfl, rfl⟩ ?_
    intro l hl
    cases hl
  · constructor
    · rintro ⟨sf, hrun, hfilter⟩
      rw [hcons] at hrun
      simp only [List.foldlM_cons, bind_eq_ok] at hrun
      obtain ⟨sf₁, hread, hrun⟩ := hrun
      obtain ⟨hpasses, tag, lo, hlast⟩ := last_of_group hg hread
      obtain ⟨hrest, hsum⟩ := hlast.run (Nat.zero_le _) hrun
      have hall : ∀ l ∈ g :: rest, Passes l := List.forall_mem_cons.mpr ⟨hpasses, hrest⟩
      have hgroups : ∀ l ∈ lines, IsGroup l → ¬Faulty l := fun l hl hgl =>
        not_faulty_of_group (hall l (hcons ▸ mem_fromGroup hl hgl)) hgl
      have hgood : ¬Faulty g := not_faulty_of_group hpasses hg
      rw [fromGroup_filter hgroups, hcons, List.filter_cons_of_pos (by simpa using hgood),
        List.foldlM_cons, hread] at hfilter
      obtain ⟨-, hsum'⟩ := hlast.run (Nat.zero_le _) hfilter
      -- both runs add as many channels, so the faulty lines add none
      have hzero := eq_zero_of_sum_filter (f := channelsOf w) (l := rest)
        (p := fun l => decide ¬Faulty l) (by omega)
      rw [hcons]
      refine List.forall_mem_cons.mpr ⟨(sound_iff w g).mpr ⟨hpasses, fun h => absurd h hgood⟩, ?_⟩
      intro l hl
      exact (sound_iff w l).mpr ⟨hrest l hl, fun hfaulty => hzero l hl (by simpa using hfaulty)⟩
    · intro hsound
      have hall : ∀ l ∈ fromGroup lines, Passes l := fun l hl =>
        ((sound_iff w l).mp (hsound l hl)).1
      have hgroups : ∀ l ∈ lines, IsGroup l → ¬Faulty l := fun l hl hgl =>
        not_faulty_of_group (hall l (mem_fromGroup hl hgl)) hgl
      rw [fromGroup_filter hgroups, hcons]
      rw [hcons] at hsound hall
      obtain ⟨hpasses, -⟩ := List.forall_mem_cons.mp hall
      obtain ⟨sf₁, hread⟩ := @exists_readLine_group w sf₀ g hg hpasses
      obtain ⟨-, tag, lo, hlast⟩ := last_of_group hg hread
      obtain ⟨sf', hrun, hfilter⟩ := hlast.sound_run (w := w) (List.forall_mem_cons.mp hsound).2
      refine ⟨sf', ?_, ?_⟩
      · rw [List.foldlM_cons, hread]
        exact hrun
      · rw [List.filter_cons_of_pos (by simpa using not_faulty_of_group hpasses hg),
          List.foldlM_cons, hread]
        exact hfilter

/-- A `C-Group` line with nothing behind it. -/
theorem not_survives_bare_group : ¬Survives 64 "C-Group\n".toList .empty := by
  rintro ⟨sf, hrun, -⟩
  cases hrun

/-! ## Addresses -/

/-- The channels that the lines behind a `C-Group` line make are channels. -/
theorem isDummy_entryOf {w : Nat} {tokens : List String} {e : Entry}
    (h : entryOf w tokens = .ok (some e)) : e.isDummy = false := by
  simp only [entryOf, bind_eq_ok] at h
  obtain ⟨s_tag, -, s_lockout, -, s_freq, -, s_mode, -, s_tone, -, s_delay, -, freq, -, delayMS, -,
    hmake⟩ := h
  unfold newEntryOf at hmake
  split at hmake
  · split at hmake
    · cases hmake
      rfl
    · split at hmake
      · split at hmake
        · cases hmake
        · split_ifs at hmake <;> cases hmake <;> rfl
      · cases hmake
  · split_ifs at hmake
    · cases hmake
      rfl
    · cases hmake

/-- No line gives a system an index, so every system takes itself for the first. -/
theorem Last.addressed_readLine {w : Nat} {before : List AnalogSystem} {s : AnalogSystem}
    {sf sf' : SentinelFile} {l : List Char} (h : Last before s sf)
    (hz : ∀ t ∈ sf.list.systems, t.Addressed 0) (hread : Scan.readLine w sf l = .ok sf') :
    ∀ t ∈ sf'.list.systems, t.Addressed 0 := by
  rw [h.systems, List.forall_mem_append, List.forall_mem_singleton] at hz
  obtain ⟨hbefore, hs⟩ := hz
  obtain ⟨-, ⟨-, tag, lo, hlast⟩ | ⟨-, -, e, hentry, hlast⟩ | ⟨-, -, rfl⟩⟩ := h.readLine hread
  · rw [hlast.systems, List.forall_mem_append, List.forall_mem_append, List.forall_mem_singleton,
      List.forall_mem_singleton]
    exact ⟨⟨hbefore, hs⟩, AnalogSystem.addressed_new tag lo 0⟩
  · rw [hlast.systems, List.forall_mem_append, List.forall_mem_singleton]
    have hd : e.isDummy = false := isDummy_entryOf hentry
    exact ⟨hbefore, hs.addEntry hd⟩
  · rw [h.systems, List.forall_mem_append, List.forall_mem_singleton]
    exact ⟨hbefore, hs⟩

theorem Last.addressed_run {w : Nat} {lines : List (List Char)} {before : List AnalogSystem}
    {s : AnalogSystem} {sf sf' : SentinelFile} (h : Last before s sf)
    (hz : ∀ t ∈ sf.list.systems, t.Addressed 0)
    (hrun : lines.foldlM (Scan.readLine w) sf = .ok sf') :
    ∀ t ∈ sf'.list.systems, t.Addressed 0 := by
  induction lines generalizing before s sf with
  | nil =>
    rw [List.foldlM_nil, pure_eq_ok] at hrun
    rwa [← hrun]
  | cons l lines ih =>
    simp only [List.foldlM_cons, bind_eq_ok] at hrun
    obtain ⟨sf₁, hread, hrest⟩ := hrun
    obtain ⟨before', s', hlast, -, -⟩ := h.channelsFrom_readLine (Nat.zero_le _) hread
    exact ih hlast (h.addressed_readLine hz hread) hrest

/-- The channels behind the first system come from the lines behind the second
`C-Group` line. -/
theorem Last.run_first {w : Nat} {lines : List (List Char)} {s : AnalogSystem}
    {sf sf' : SentinelFile} (h : Last [] s sf)
    (hrun : lines.foldlM (Scan.readLine w) sf = .ok sf') :
    Scan.channelsFrom 1 sf' = ((fromGroup lines).map (channelsOf w)).sum := by
  induction lines generalizing s sf with
  | nil =>
    rw [List.foldlM_nil, pure_eq_ok] at hrun
    rw [← hrun, Scan.channelsFrom, h.systems]
    rfl
  | cons l lines ih =>
    simp only [List.foldlM_cons, bind_eq_ok] at hrun
    obtain ⟨sf₁, hread, hrest⟩ := hrun
    rcases h.readLine hread with ⟨-, ⟨hg, tag, lo, hlast⟩ | ⟨-, hg, e, -, hlast⟩ | ⟨-, hg, rfl⟩⟩
    · have hcount := (hlast.run (n := 1) (by simp) hrest).2
      rw [hlast.channelsFrom (by simp)] at hcount
      rw [fromGroup_cons_group hg, List.map_cons, List.sum_cons, isGroup_channelsOf hg, hcount]
      simp [AnalogSystem.new]
    · rw [fromGroup_cons_other hg]
      exact ih hlast hrest
    · rw [fromGroup_cons_other hg]
      exact ih h hrest

/-- Every entry knows its own position. -/
def EntriesAddressed (sl : SystemList) : Prop :=
  ∀ (i : Nat) (s : AnalogSystem), sl.systems[i]? = some s →
    ∀ (k : Nat) (e : Entry), s.entries[k]? = some e → e.sysIndex = i ∧ e.entryIndex = k

theorem entriesAddressed_iff_channelsFrom {sf : SentinelFile}
    (hz : ∀ t ∈ sf.list.systems, t.Addressed 0) :
    EntriesAddressed sf.list ↔ channelsFrom 1 sf = 0 := by
  simp only [channelsFrom, List.sum_eq_zero_iff_forall_eq_nat, List.forall_mem_map,
    List.length_eq_zero_iff]
  constructor
  · intro h s hs
    obtain ⟨j, hj⟩ := List.getElem?_of_mem hs
    rw [List.getElem?_drop] at hj
    cases hentries : s.entries with
    | nil => rfl
    | cons e es =>
      have hfirst : s.entries[0]? = some e := by
        rw [hentries]
        rfl
      have hpos := (h (1 + j) s hj 0 e hfirst).1
      have hzero := ((hz s (List.mem_of_getElem? hj)).entries 0 e hfirst).1
      omega
  · intro h i s hi k e hk
    cases i with
    | zero => exact (hz s (List.mem_of_getElem? hi)).entries k e hk
    | succ j =>
      have hdrop : (sf.list.systems.drop 1)[j]? = some s := by
        rw [List.getElem?_drop, Nat.add_comm, hi]
      rw [h s (List.mem_of_getElem? hdrop)] at hk
      cases hk

/-- The lines from the second `C-Group` line on. -/
def fromSecondGroup (lines : List (List Char)) : List (List Char) :=
  fromGroup (fromGroup lines).tail

theorem mem_of_mem_fromGroup {lines : List (List Char)} {l : List Char} (h : l ∈ fromGroup lines) :
    l ∈ lines := (List.dropWhile_suffix _).mem h

/-- **Converted entries know their own address** exactly when no line behind the
second `C-Group` line makes a channel. -/
theorem entriesAddressed_iff {w : Nat} {text : List Char} {sf : SentinelFile}
    (h : generateSystemList w (some text) .empty = .ok (true, sf)) :
    EntriesAddressed sf.list ↔
      ∀ l ∈ fromSecondGroup (getlines '\n' text), IsFreq l → ¬NamesChannel (tokensOf l) := by
  rw [generateSystemList_eq_ok] at h
  revert h
  generalize getlines '\n' text = lines
  intro h
  rw [foldlM_fromGroup rfl] at h
  unfold fromSecondGroup
  rcases fromGroup_eq_nil_or lines with hnil | ⟨g, rest, hcons, hg⟩
  · rw [hnil, List.foldlM_nil, pure_eq_ok] at h
    subst h
    rw [hnil]
    refine iff_of_true ?_ ?_
    · intro i s hi
      cases hi
    · intro l hl
      cases hl
  · rw [hcons] at h
    simp only [List.foldlM_cons, bind_eq_ok] at h
    obtain ⟨sf₁, hread, hrun⟩ := h
    obtain ⟨-, tag, lo, hlast⟩ := last_of_group hg hread
    have hz₁ : ∀ t ∈ sf₁.list.systems, t.Addressed 0 := by
      rw [hlast.systems]
      intro t ht
      obtain rfl := List.mem_singleton.mp ht
      exact AnalogSystem.addressed_new tag lo 0
    have hpasses := (hlast.run (Nat.zero_le _) hrun).1
    rw [entriesAddressed_iff_channelsFrom (hlast.addressed_run hz₁ hrun), hlast.run_first hrun,
      hcons, List.tail_cons, List.sum_eq_zero_iff_forall_eq_nat, List.forall_mem_map]
    refine forall₂_congr fun l hl => ?_
    exact channelsOf_eq_zero_iff (hpasses l (mem_of_mem_fromGroup hl))

/-- An airport without channels, and a harbour with the `C-Freq` lines `freqs`. -/
def twoSystems (freqs : String) : List Char :=
  ("C-Group\tAirport\tOff\nC-Group\tHarbour\tOff\n" ++ freqs).toList

theorem entriesAddressed_airport :
    ∃ sf, generateSystemList 64 (some (twoSystems "")) .empty = .ok (true, sf) ∧
      EntriesAddressed sf.list := by
  refine ⟨_, rfl, (@entriesAddressed_iff 64 (twoSystems "") _ rfl).mpr ?_⟩
  have hnone : ∀ l ∈ fromSecondGroup (getlines '\n' (twoSystems "")), ¬IsFreq l := by decide
  intro l hl hf
  exact absurd hf (hnone l hl)

/-- The channel of the harbour takes the airport for its system. -/
theorem not_entriesAddressed_harbour :
    ∃ sf, generateSystemList 64
        (some (twoSystems "C-Freq\tPilot\tOff\t156650000\tAM\tAll\t17\tOff\t2\n")) .empty =
          .ok (true, sf) ∧ ¬EntriesAddressed sf.list := by
  refine ⟨_, rfl, fun h => ?_⟩
  have hpos := (h 1 _ rfl 0 _ rfl).1
  cases hpos

end PiScan.Scan

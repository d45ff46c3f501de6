import PiScan.Scan.SentinelFile

/-!
# The lines of a Sentinel file

* `tokensOf_group`, `tokensOf_freq`: the tokens of a line are its columns without the
  blank ones;
* `systemOf_group_iff`, `entryOf_freq_iff`: what a line makes of its tokens;
* `arrives_iff`: a line does what its columns name exactly when it is `Kept`;
* `Freq.kept_iff_of_filled`, `Freq.not_kept_of_csq`: the lines whose columns are all
  filled, and those of an FM mode without a tone.
-/

namespace PiScan.Scan

open TwosComplement Delimited PropertyTree SentinelFile

/-! ## The tokens of a line -/

theorem plain_digits (d : Digits) : Plain d.text := by
  have hne : ∀ c : Char, c.isDigit = false → c ∉ d.text.toList := by
    intro c hc hmem
    rw [Digits.text, String.toList_ofList] at hmem
    have hd := d.isDigit c hmem
    rw [hc] at hd
    cases hd
  exact ⟨hne _ rfl, hne _ rfl⟩

theorem plain_append {s t : String} (hs : Plain s) (ht : Plain t) : Plain (s ++ t) := by
  unfold Plain
  simp only [String.toList_append, List.mem_append, not_or]
  exact ⟨⟨hs.1, ht.1⟩, hs.2, ht.2⟩

theorem plain_flagText (avoid : Bool) : Plain (flagText avoid) := by
  cases avoid <;> exact ⟨by decide, by decide⟩

theorem plain_mode (m : Mode) : Plain m.text := by
  cases m <;> exact ⟨by decide, by decide⟩

theorem plain_tone (t : Tone) : Plain t.text := by
  cases t with
  | csq => exact plain_empty
  | ctcss tone => exact plain_append ⟨by decide, by decide⟩ tone.plain
  | dcs code => exact plain_append ⟨by decide, by decide⟩ code.plain

theorem plain_columnsOf {blanks ids : Nat} {type : String} {columns : List String}
    (htype : Plain type) (h : ∀ s ∈ columns, Plain s) :
    ∀ s ∈ columnsOf blanks ids type columns, Plain s := by
  intro s hs
  simp only [columnsOf, List.mem_append, List.mem_cons, List.mem_replicate] at hs
  rcases hs with ⟨-, rfl⟩ | rfl | ⟨-, rfl⟩ | hs
  · exact plain_empty
  · exact htype
  · exact plain_empty
  · exact h s hs

theorem plain_rest {rest : List Column} : ∀ s ∈ rest.map Column.text, Plain s := by
  intro s hs
  obtain ⟨c, -, rfl⟩ := List.mem_map.mp hs
  exact c.plain

theorem plain_columns (l : Line) : ∀ s ∈ l.columns, Plain s := by
  cases l with
  | group g =>
    apply plain_columnsOf ⟨by decide, by decide⟩
    simp only [List.forall_mem_cons]
    exact ⟨g.name.plain, plain_flagText _, plain_rest⟩
  | freq f =>
    apply plain_columnsOf ⟨by decide, by decide⟩
    simp only [Freq.toneOn, List.forall_mem_cons]
    exact ⟨f.tag.plain, plain_flagText _, plain_digits _, plain_mode _, plain_tone _,
      f.extra.1.plain, f.extra.2.plain, plain_digits _, plain_rest⟩

/-- The tokens of a line are its columns without the blank ones. -/
theorem tokensOf_chars (l : Line) : tokensOf l.chars = l.columns.filter fun c => c ≠ "" := by
  have htab : ∀ cs ∈ l.columns.map String.toList, '\t' ∉ cs := by
    intro cs hcs
    obtain ⟨s, hs, rfl⟩ := List.mem_map.mp hcs
    exact (plain_columns l s hs).1
  have hempty : ∀ s : String, (s.toList = []) = (s = "") := by
    intro s
    rw [String.toList_eq_nil_iff]
  rw [tokensOf, Line.chars, pieces_intercalate htab, List.filter_map, List.map_map]
  simp [Function.comp_def, hempty]

theorem not_newline_chars (l : Line) : '\n' ∉ l.chars := by
  intro h
  rcases mem_intercalate h with h | ⟨cs, hcs, h⟩
  · exact absurd h (by decide)
  · obtain ⟨s, hs, rfl⟩ := List.mem_map.mp hcs
    exact (plain_columns l s hs).2 h

theorem filter_columnsOf {blanks ids : Nat} {type : String} (htype : type ≠ "")
    (columns : List String) :
    (columnsOf blanks ids type columns).filter (fun c => c ≠ "") =
      type :: columns.filter fun c => c ≠ "" := by
  have hblank : ∀ n : Nat, (List.replicate n "").filter (fun c => c ≠ "") = [] := by
    intro n
    rw [List.filter_replicate]
    rfl
  rw [columnsOf, List.filter_append, hblank, List.nil_append,
    List.filter_cons_of_pos (by simpa using htype), List.filter_append, hblank, List.nil_append]

theorem digits_ne (d : Digits) : d.text ≠ "" := by
  intro h
  apply d.ne_nil
  rwa [Digits.text, ← String.toList_eq_nil_iff, String.toList_ofList] at h

theorem flagText_ne (avoid : Bool) : flagText avoid ≠ "" := by
  cases avoid <;> decide

theorem mode_ne (m : Mode) : m.text ≠ "" := by
  cases m <;> decide

theorem tokensOf_group (g : Group) : tokensOf (Line.group g).chars = C_GROUP :: g.tokens := by
  rw [tokensOf_chars, Line.columns, Group.columns, filter_columnsOf (by decide), Group.tokens]

theorem tokensOf_freq (f : Freq) :
    tokensOf (Line.freq f).chars =
      C_FREQ :: f.tag.text :: flagText f.avoid :: f.freq.text :: f.mode.text :: f.tokens := by
  rw [tokensOf_chars, Line.columns, Freq.columns, filter_columnsOf (by decide),
    List.filter_cons_of_pos (by simpa using f.tag_ne),
    List.filter_cons_of_pos (by simpa using flagText_ne _),
    List.filter_cons_of_pos (by simpa using digits_ne _),
    List.filter_cons_of_pos (by simpa using mode_ne _), Freq.tokens]

theorem flagText_beq (avoid : Bool) : (flagText avoid == SENTINEL_TRUE) = avoid := by
  cases avoid <;> decide

/-! ## A `C-Group` line -/

/-- The system is the one that the columns name just when there is a name. -/
theorem systemOf_group_iff (g : Group) :
    systemOf (C_GROUP :: g.tokens) = .ok (.new g.name.text g.avoid) ↔ g.name.text ≠ "" := by
  constructor
  · intro h hname
    -- without a name, the flag is taken for it
    have htokens : g.tokens =
        flagText g.avoid :: (g.rest.map Column.text).filter fun c => c ≠ "" := by
      rw [Group.tokens, List.filter_cons_of_neg (by simpa using hname),
        List.filter_cons_of_pos (by simpa using flagText_ne _)]
    rw [htokens, systemOf] at h
    simp only [bind_eq_ok] at h
    obtain ⟨s_tag, htag, s_lockout, -, h⟩ := h
    have hflag : s_tag = flagText g.avoid := by
      have htag' : (.ok (flagText g.avoid) : Except Failure String) = .ok s_tag := htag
      cases htag'
      rfl
    have hnew : s_tag = g.name.text := congrArg AnalogSystem.tag (Except.ok.inj h)
    rw [hname, hflag] at hnew
    exact flagText_ne _ hnew
  · intro hname
    have htokens : g.tokens = g.name.text :: flagText g.avoid ::
        (g.rest.map Column.text).filter fun c => c ≠ "" := by
      rw [Group.tokens, List.filter_cons_of_pos (by simpa using hname),
        List.filter_cons_of_pos (by simpa using flagText_ne _)]
    have hsystem : systemOf (C_GROUP :: g.tokens) =
        .ok (.new g.name.text (flagText g.avoid == SENTINEL_TRUE)) := by
      rw [htokens]
      rfl
    rw [hsystem, flagText_beq]

/-- A new system has no entries. -/
theorem systemOf_ok {tokens : List String} {s : AnalogSystem} (h : systemOf tokens = .ok s) :
    ∃ tag lo, s = .new tag lo := by
  simp only [systemOf, bind_eq_ok] at h
  obtain ⟨s_tag, -, s_lockout, -, h⟩ := h
  exact ⟨s_tag, s_lockout == SENTINEL_TRUE, (Except.ok.inj h).symm⟩

/-! ## A `C-Freq` line -/

theorem stoll_digits (d : Digits) :
    stoll d.text = if Fits 64 d.value then some (d.value : Int) else none := by
  rw [stoll, Digits.text, leadingInt_ofList d.ne_nil d.isDigit]
  simp only [Option.filter, decide_eq_true_eq]
  rfl

theorem token_eq_ok {tokens : List String} {pos : Nat} {s : String} :
    token tokens pos = .ok s ↔ tokens[pos]? = some s := by
  unfold token
  cases tokens[pos]? with
  | none => simp
  | some t => simp

theorem parsed_eq_ok {value : Option Int} {n : Int} : parsed value = .ok n ↔ value = some n := by
  cases value with
  | none => simp [parsed]
  | some m => simp [parsed]

theorem delayOf_eq_ok {s_delay : String} {n : Int} :
    delayOf s_delay = .ok n ↔
      ∃ seconds, stoi s_delay = some seconds ∧ Fits 32 (seconds * 1000) ∧ seconds * 1000 = n := by
  simp only [delayOf, bind_eq_ok, parsed_eq_ok]
  apply exists_congr
  intro seconds
  apply and_congr_right
  intro _
  by_cases hfits : Fits 32 (seconds * 1000)
  · simp [hfits]
  · simp [hfits]

/-- The entry of a line, by its first and its fourth token from the tone on. -/
theorem entryOf_freq_iff (w : Nat) (f : Freq) (e : Option Entry) :
    entryOf w (tokensOf (Line.freq f).chars) = .ok e ↔
      ∃ s_tone s_delay delayMS, f.tokens[0]? = some s_tone ∧ f.tokens[3]? = some s_delay ∧
        Fits 64 f.freq.value ∧ delayOf s_delay = .ok delayMS ∧
        newEntryOf w f.tag.text f.avoid f.freq.value f.mode.text s_tone delayMS = .ok e := by
  rw [tokensOf_freq, entryOf]
  simp only [bind_eq_ok, token_eq_ok, parsed_eq_ok]
  constructor
  · rintro ⟨s_tag, htag, s_lockout, hlo, s_freq, hfreq, s_mode, hmode, s_tone, htone, s_delay,
      hdelay, freq, hstoll, delayMS, hms, hmake⟩
    cases htag
    cases hlo
    cases hfreq
    cases hmode
    rw [stoll_digits] at hstoll
    split at hstoll
    · rename_i hfits
      cases hstoll
      rw [flagText_beq] at hmake
      exact ⟨s_tone, s_delay, delayMS, htone, hdelay, hfits, hms, hmake⟩
    · cases hstoll
  · rintro ⟨s_tone, s_delay, delayMS, htone, hdelay, hfits, hms, hmake⟩
    refine ⟨_, rfl, _, rfl, _, rfl, _, rfl, s_tone, htone, s_delay, hdelay, f.freq.value, ?_,
      delayMS, hms, ?_⟩
    · rw [stoll_digits, if_pos hfits]
    · rw [flagText_beq]
      exact hmake

theorem listing_channel (w : Nat) (type : EntryType) (freq : Int) (tag : String) (lo : Bool)
    (del : Int) :
    (Entry.channel w type freq tag lo del).listing =
      { type, frequency := wrap w freq, tag, lockout := lo, delayMS := del } := by
  rw [Entry.listing, Entry.isLockedOut_channel]
  rfl

/-- The type that the letter behind `TONE=` stands for. -/
def codeType (code : Char) (tone : List Char) : EntryType :=
  if code = 'C' then .pl (String.ofList tone)
  else if code = 'D' then .dc (String.ofList tone)
  else .fm

/-- What the branches on the tone make of a token. -/
def ToneMeans (s_tone : String) (type : EntryType) : Prop :=
  ∃ code tone, s_tone.toList = SENTINEL_TONE_PRE.toList ++ code :: tone ∧
    type = codeType code tone

theorem newEntryOf_am (w : Nat) (tag : String) (lo : Bool) (freq : Int) (s_tone : String)
    (delayMS : Int) :
    newEntryOf w tag lo freq Mode.AM.text s_tone delayMS =
      .ok (some (.channel w .am freq tag lo delayMS)) := rfl

section FM

variable {m : Mode} {s_tone : String}

theorem text_of_ne_am (hm : m ≠ .AM) :
    m.text = SENTINEL_NFM ∨ m.text = SENTINEL_FM ∨ m.text = SENTINEL_AUTO := by
  cases m with
  | NFM => exact Or.inl rfl
  | FM => exact Or.inr (Or.inl rfl)
  | AUTO => exact Or.inr (Or.inr rfl)
  | AM => exact absurd rfl hm

theorem newEntryOf_code (hm : m ≠ .AM) {code : Char} {tone : List Char}
    (htext : s_tone.toList = SENTINEL_TONE_PRE.toList ++ code :: tone) (w : Nat) (tag : String)
    (lo : Bool) (freq delayMS : Int) :
    newEntryOf w tag lo freq m.text s_tone delayMS =
      .ok (some (.channel w (codeType code tone) freq tag lo delayMS)) := by
  have hlen : SENTINEL_TONE_PRE.toList.length = 5 := by decide
  have hne : s_tone ≠ SENTINEL_CSQ := by
    rintro rfl
    have hnil := congrArg List.length htext
    rw [List.length_append, hlen] at hnil
    simp [SENTINEL_CSQ] at hnil
  have htake : s_tone.toList.take 5 = SENTINEL_TONE_PRE.toList := by
    rw [htext, List.take_left' hlen]
  have hdrop : s_tone.toList.drop 5 = code :: tone := by
    rw [htext, List.drop_left' hlen]
  rw [newEntryOf, if_pos (text_of_ne_am hm), if_neg hne, if_pos htake, hdrop, codeType]
  show (if code = 'C' then _ else _) = _
  by_cases hc : code = 'C'
  · rw [if_pos hc, if_pos hc]
    rfl
  · rw [if_neg hc, if_neg hc]
    by_cases hd : code = 'D'
    · rw [if_pos hd, if_pos hd]
      rfl
    · rw [if_neg hd, if_neg hd]
      rfl

/-- Where an entry is made, the token is written like a tone. -/
theorem code_of_newEntryOf (hm : m ≠ .AM) (htone : s_tone ≠ "") {w : Nat} {tag : String}
    {lo : Bool} {freq delayMS : Int} {e : Entry}
    (h : newEntryOf w tag lo freq m.text s_tone delayMS = .ok (some e)) :
    ∃ code tone, s_tone.toList = SENTINEL_TONE_PRE.toList ++ code :: tone := by
  rw [newEntryOf, if_pos (text_of_ne_am hm),
    if_neg (show ¬s_tone = SENTINEL_CSQ from htone)] at h
  by_cases htake : s_tone.toList.take 5 = SENTINEL_TONE_PRE.toList
  · rw [if_pos htake] at h
    cases hdrop : s_tone.toList.drop 5 with
    | nil =>
      rw [hdrop] at h
      cases h
    | cons code tone =>
      refine ⟨code, tone, ?_⟩
      rw [← htake, ← hdrop, List.take_append_drop]
  · rw [if_neg htake] at h
    cases h

theorem newEntryOf_fm (hm : m ≠ .AM) (htone : s_tone ≠ "") (w : Nat) (tag : String) (lo : Bool)
    (freq delayMS : Int) (e : Entry) :
    newEntryOf w tag lo freq m.text s_tone delayMS = .ok (some e) ↔
      ∃ type, ToneMeans s_tone type ∧ e = .channel w type freq tag lo delayMS := by
  constructor
  · intro h
    obtain ⟨code, tone, htext⟩ := code_of_newEntryOf hm htone h
    rw [newEntryOf_code hm htext, Except.ok.injEq, Option.some.injEq] at h
    exact ⟨_, ⟨code, tone, htext, rfl⟩, h.symm⟩
  · rintro ⟨type, ⟨code, tone, htext, rfl⟩, rfl⟩
    exact newEntryOf_code hm htext w tag lo freq delayMS

end FM

/-- The token in the place of the tone means the tone of the line. -/
theorem toneMeans_iff {f : Freq} {s_tone : String} (htone : f.tokens[0]? = some s_tone) :
    ToneMeans s_tone f.tone.type ↔ f.tone ≠ .csq ∨ ∃ code tone,
      f.tokens[0]? = some (String.ofList (SENTINEL_TONE_PRE.toList ++ code :: tone)) ∧
        code ≠ 'C' ∧ code ≠ 'D' := by
  have hfirst : ∀ t : String, t ≠ "" → f.tone.text = t → s_tone = t := by
    intro t hne ht
    rw [Freq.tokens, Freq.toneOn, ht, List.filter_cons_of_pos (by simpa using hne)] at htone
    exact (Option.some.inj htone).symm
  cases htype : f.tone with
  | csq =>
    simp only [ne_eq, not_true_eq_false, false_or]
    constructor
    · rintro ⟨code, tone, htext, htype⟩
      refine ⟨code, tone, ?_, ?_, ?_⟩
      · rw [htone, ← htext, String.ofList_toList]
      · rintro rfl
        cases htype
      · rintro rfl
        cases htype
    · rintro ⟨code, tone, htext, hc, hd⟩
      rw [htone, Option.some.injEq] at htext
      refine ⟨code, tone, ?_, ?_⟩
      · rw [htext, String.toList_ofList]
      · rw [codeType, if_neg hc, if_neg hd]
        rfl
  | ctcss tone =>
    have hs := hfirst ("TONE=C" ++ tone.text) (by simp) (by rw [htype]; rfl)
    apply iff_of_true
    · refine ⟨'C', tone.text.toList, ?_, ?_⟩
      · rw [hs, String.toList_append]
        rfl
      · rw [codeType, if_pos rfl, String.ofList_toList]
        rfl
    · exact Or.inl (by rintro ⟨⟩)
  | dcs code =>
    have hs := hfirst ("TONE=D" ++ code.text) (by simp) (by rw [htype]; rfl)
    apply iff_of_true
    · refine ⟨'D', code.text.toList, ?_, ?_⟩
      · rw [hs, String.toList_append]
        rfl
      · rw [codeType, if_neg (by decide), if_pos rfl, String.ofList_toList]
        rfl
    · exact Or.inl (by rintro ⟨⟩)

theorem token_ne {f : Freq} {i : Nat} {s : String} (h : f.tokens[i]? = some s) : s ≠ "" := by
  have hmem : s ∈ f.tokens := List.mem_of_getElem? h
  rw [Freq.tokens, List.mem_filter] at hmem
  simpa using hmem.2

/-- The listing of the entry made, from the tokens in the places of the tone and the
delay. -/
theorem newEntryOf_listing_iff (w : Nat) {f : Freq} {s_tone : String} (htone : s_tone ≠ "")
    (delayMS : Int) :
    (∃ e, newEntryOf w f.tag.text f.avoid f.freq.value f.mode.text s_tone delayMS = .ok (some e) ∧
        e.listing = f.listing) ↔
      wrap w f.freq.value = f.freq.value ∧ delayMS = f.delay.value * 1000 ∧
        (f.mode = .AM ∨ ToneMeans s_tone f.tone.type) := by
  by_cases hm : f.mode = .AM
  · rw [hm, newEntryOf_am]
    simp only [Except.ok.injEq, Option.some.injEq, exists_eq_left', listing_channel, Freq.listing,
      hm, if_true, Listing.mk.injEq, true_and, true_or, and_true]
  · simp only [newEntryOf_fm hm htone, Freq.listing, hm, if_false, false_or]
    constructor
    · rintro ⟨e, ⟨type, hmeans, rfl⟩, hlisting⟩
      rw [listing_channel, Listing.mk.injEq] at hlisting
      obtain ⟨rfl, hfreq, -, -, hdelay⟩ := hlisting
      exact ⟨hfreq, hdelay, hmeans⟩
    · rintro ⟨hfreq, rfl, hmeans⟩
      refine ⟨_, ⟨f.tone.type, hmeans, rfl⟩, ?_⟩
      rw [listing_channel, hfreq]

/-- The line does what its columns name. -/
def Line.Arrives (w : Nat) : Line → Prop
  | .group g => systemOf (tokensOf (Line.group g).chars) = .ok (.new g.name.text g.avoid)
  | .freq f => ∃ e, entryOf w (tokensOf (Line.freq f).chars) = .ok (some e) ∧
      e.listing = f.listing

theorem freq_arrives_iff {w : Nat} (hw : 0 < w) (f : Freq) :
    (Line.freq f).Arrives w ↔ f.Kept w := by
  constructor
  · rintro ⟨e, hentry, hlisting⟩
    obtain ⟨s_tone, s_delay, delayMS, htone, hdelay, hfits, hms, hmake⟩ :=
      (entryOf_freq_iff w f _).mp hentry
    obtain ⟨hwrap, rfl, hmeans⟩ :=
      (newEntryOf_listing_iff w (token_ne htone) delayMS).mp ⟨e, hmake, hlisting⟩
    obtain ⟨seconds, hseconds, hfitsms, heq⟩ := delayOf_eq_ok.mp hms
    have hvalue : seconds = f.delay.value := by omega
    subst hvalue
    have hfreq : Fits w f.freq.value := by
      rw [← hwrap]
      exact wrap_fits hw _
    refine ⟨⟨hfits, hfreq⟩, hfitsms, ⟨s_delay, hdelay, hseconds⟩, ?_⟩
    rwa [← toneMeans_iff htone]
  · rintro ⟨⟨hfits, hfreq⟩, hfitsms, ⟨s_delay, hdelay, hseconds⟩, htoneColumn⟩
    -- a fourth token comes with a first
    obtain ⟨s_tone, htone⟩ : ∃ s_tone, f.tokens[0]? = some s_tone := by
      have hlen : 3 < f.tokens.length := (List.getElem?_eq_some_iff.mp hdelay).1
      exact ⟨_, List.getElem?_eq_getElem (by omega)⟩
    rw [← toneMeans_iff htone] at htoneColumn
    obtain ⟨e, hmake, hlisting⟩ := (newEntryOf_listing_iff w (token_ne htone) _).mpr
      ⟨wrap_of_fits hw hfreq, rfl, htoneColumn⟩
    exact ⟨e, (entryOf_freq_iff w f _).mpr ⟨s_tone, s_delay, _, htone, hdelay, hfits,
      delayOf_eq_ok.mpr ⟨_, hseconds, hfitsms, rfl⟩, hmake⟩, hlisting⟩

theorem arrives_iff {w : Nat} (hw : 0 < w) (l : Line) : l.Arrives w ↔ l.Kept w := by
  cases l with
  | group g =>
    show systemOf (tokensOf (Line.group g).chars) = _ ↔ _
    rw [tokensOf_group]
    exact systemOf_group_iff g
  | freq f => exact freq_arrives_iff hw f

/-- Where the columns from the tone to the delay are filled, only a number can be too
large. -/
theorem Freq.kept_iff_of_filled {w : Nat} {f : Freq} (htone : f.tone ≠ .csq)
    (hextra : f.extra.1.text ≠ "" ∧ f.extra.2.text ≠ "") :
    f.Kept w ↔ (Fits 64 f.freq.value ∧ Fits w f.freq.value) ∧ Fits 32 (f.delay.value * 1000) := by
  constructor
  · intro h
    exact ⟨h.freq, h.delay⟩
  · rintro ⟨hfreq, hdelay⟩
    have htext : f.tone.text ≠ "" := by
      cases h : f.tone with
      | csq => exact absurd h htone
      | ctcss tone => simp [Tone.text]
      | dcs code => simp [Tone.text]
    have hfourth : f.tokens[3]? = some f.delay.text := by
      rw [Freq.tokens, Freq.toneOn, List.filter_cons_of_pos (by simpa using htext),
        List.filter_cons_of_pos (by simpa using hextra.1),
        List.filter_cons_of_pos (by simpa using hextra.2),
        List.filter_cons_of_pos (by simpa using digits_ne _)]
      rfl
    have hfits : Fits 32 (f.delay.value : Int) := by
      obtain ⟨hlo, hhi⟩ := hdelay
      constructor
      · omega
      · omega
    have hstoi : stoi f.delay.text = some ↑f.delay.value := by
      rw [stoi_eq, Digits.text, leadingInt_ofList f.delay.ne_nil f.delay.isDigit]
      exact Option.filter_some_pos (by simpa [Digits.value] using hfits)
    exact ⟨hfreq, hdelay, ⟨_, hfourth, hstoi⟩, Or.inr (Or.inl htone)⟩

/-- The channel of a line of an FM mode without a tone is lost, unless a later column
is written like a tone. -/
theorem Freq.not_kept_of_csq {w : Nat} {f : Freq} (hmode : f.mode ≠ .AM) (htone : f.tone = .csq)
    (hcolumns : ∀ s ∈ f.tokens, s.toList.take 5 ≠ SENTINEL_TONE_PRE.toList) : ¬f.Kept w := by
  intro h
  rcases h.toneColumn with h | h | ⟨code, tone, hfirst, -⟩
  · exact hmode h
  · exact h htone
  · apply hcolumns _ (List.mem_of_getElem? hfirst)
    rw [String.toList_ofList]
    exact List.take_left' (by decide)

end PiScan.Scan

import PiScan.Lib.Delimited
import PiScan.Lib.PropertyTree
import PiScan.Scan.SystemList

/-!
# Converting a Sentinel file

`SentinelFile::generateSystemList` of `scan/SentinelFile.cpp` reads the text of an
`.hpd` file line by line: a `C-Group` line makes a system, a `C-Freq` line an entry
of the last system made.  A line is cut at its tabs, the empty pieces are left out,
and the fields are taken by their position among the pieces that remain.

* `Line`: the lines of a file, with their columns; `fileText`: the text they make;
* `expected`: the systems and channels that the columns name;
* `ConvertsTo`: the file is converted, to these systems and channels;
* `Freq.Kept`: the condition on a `C-Freq` line for its channel to arrive as it is
  written.
-/

namespace PiScan.Scan

open TwosComplement Delimited PropertyTree

/-! ## The conversion -/

/-- How a conversion ends early: an exception that nothing catches, or a step that
C++ leaves undefined. -/
inductive Failure
  | exception
  | outOfRange
  | overflow
  deriving DecidableEq, Repr

namespace SentinelFile

def SENTINEL_TRUE : String := "On"
def SENTINEL_FALSE : String := "Off"
def SENTINEL_NFM : String := "NFM"
def SENTINEL_FM : String := "FM"
def SENTINEL_AUTO : String := "AUTO"
def SENTINEL_AM : String := "AM"
def SENTINEL_CSQ : String := ""
def SENTINEL_TONE_PRE : String := "TONE="

def C_GROUP : String := "C-Group"
def C_GROUP_TAG_POS : Nat := 1
def C_GROUP_LO_POS : Nat := 2

def C_FREQ : String := "C-Freq"
def C_FREQ_TAG_POS : Nat := 1
def C_FREQ_LO_POS : Nat := 2
def C_FREQ_FREQ_POS : Nat := 3
def C_FREQ_MODE_POS : Nat := 4
def C_FREQ_TONE_POS : Nat := 5
def C_FREQ_DELAY_POS : Nat := 8

end SentinelFile

open SentinelFile

/-- `_list` and `_system`, which is named by its position in the list. -/
structure SentinelFile where
  list : SystemList
  system : Option Nat
  deriving DecidableEq, Repr

/-- The loop that fills `tokens`. -/
def tokensOf (line : List Char) : List String := (pieces '\t' line).map String.ofList

/-- `tokens[pos]`. -/
def token (tokens : List String) (pos : Nat) : Except Failure String :=
  match tokens[pos]? with
  | none => .error .outOfRange
  | some s => .ok s

/-- A call of `stoll` or `stoi`. -/
def parsed (value : Option Int) : Except Failure Int :=
  match value with
  | none => .error .exception
  | some n => .ok n

/-- `std::stoi(s_delay) * 1000`, an `int`. -/
def delayOf (s_delay : String) : Except Failure Int := do
  let seconds ← parsed (stoi s_delay)
  if Fits 32 (seconds * 1000) then .ok (seconds * 1000) else .error .overflow

/-- The system that `_newAnalogSys` makes. -/
def systemOf (tokens : List String) : Except Failure AnalogSystem := do
  let s_tag ← token tokens C_GROUP_TAG_POS
  let s_lockout ← token tokens C_GROUP_LO_POS
  .ok (.new s_tag (s_lockout == SENTINEL_TRUE))

def newAnalogSys (sf : SentinelFile) (tokens : List String) : Except Failure SentinelFile := do
  let system ← systemOf tokens
  .ok { list := sf.list.addSystem system, system := some sf.list.size }

/-- The branches on the mode and the tone; a null `newEntry` is `none`. -/
def newEntryOf (w : Nat) (s_tag : String) (lockout : Bool) (freq : Int) (s_mode s_tone : String)
    (delayMS : Int) : Except Failure (Option Entry) :=
  if s_mode = SENTINEL_NFM ∨ s_mode = SENTINEL_FM ∨ s_mode = SENTINEL_AUTO then
    if s_tone = SENTINEL_CSQ then .ok (some (.fmChannel w freq s_tag lockout delayMS))
    else if s_tone.toList.take 5 = SENTINEL_TONE_PRE.toList then
      match s_tone.toList.drop 5 with
      | [] => .error .exception -- `tone_coded.substr(1)`
      | code :: tone =>
        if code = 'C' then
          .ok (some (.plChannel w freq (String.ofList tone) s_tag lockout delayMS))
        else if code = 'D' then
          .ok (some (.dcChannel w freq (String.ofList tone) s_tag lockout delayMS))
        else .ok (some (.fmChannel w freq s_tag lockout delayMS))
    else .ok none
  else if s_mode = SENTINEL_AM then .ok (some (.amChannel w freq s_tag lockout delayMS))
  else .ok none

/-- The entry that `_newAnalogEntry` makes. -/
def entryOf (w : Nat) (tokens : List String) : Except Failure (Option Entry) := do
  let s_tag ← token tokens C_FREQ_TAG_POS
  let s_lockout ← token tokens C_FREQ_LO_POS
  let s_freq ← token tokens C_FREQ_FREQ_POS
  let s_mode ← token tokens C_FREQ_MODE_POS
  let s_tone ← token tokens C_FREQ_TONE_POS
  let s_delay ← token tokens C_FREQ_DELAY_POS
  let freq ← parsed (stoll s_freq)
  let delayMS ← delayOf s_delay
  newEntryOf w s_tag (s_lockout == SENTINEL_TRUE) freq s_mode s_tone delayMS

/-- `setSysIndex`, `setEntryIndex` and `_system->addEntry`. -/
def addNewEntry (sf : SentinelFile) (i : Nat) (newEntry : Entry) : SentinelFile :=
  { sf with
    list :=
      { sf.list with
        systems := sf.list.systems.modify i fun s =>
          s.addEntry { newEntry with sysIndex := sf.list.size - 1, entryIndex := s.size } } }

def newAnalogEntry (w : Nat) (sf : SentinelFile) (tokens : List String) :
    Except Failure SentinelFile :=
  match sf.system with
  | none => .ok sf
  | some i => do
    match ← entryOf w tokens with
    | none => .ok sf
    | some newEntry => .ok (addNewEntry sf i newEntry)

/-- The body of the loop over the lines. -/
def readLine (w : Nat) (sf : SentinelFile) (line : List Char) : Except Failure SentinelFile :=
  match tokensOf line with
  | [] => .ok sf
  | type :: tokens =>
    if type = C_GROUP then newAnalogSys sf (type :: tokens)
    else if type = C_FREQ ∧ sf.system.isSome then newAnalogEntry w sf (type :: tokens)
    else .ok sf

/-- `generateSystemList(list)` of a new `SentinelFile`, with the content of the file
if it can be opened. -/
def generateSystemList (w : Nat) (file : Option (List Char)) (list : SystemList) :
    Except Failure (Bool × SentinelFile) :=
  match file with
  | none => .ok (false, { list, system := none })
  | some text => do
    let sf ← (getlines '\n' text).foldlM (readLine w) { list, system := none }
    .ok (true, sf)

/-! ## The lines of a file -/

/-- A text that fits between two tabs of a line. -/
def Plain (s : String) : Prop := '\t' ∉ s.toList ∧ '\n' ∉ s.toList

structure Column where
  text : String
  plain : Plain text
  deriving DecidableEq

theorem plain_empty : Plain "" := ⟨by decide, by decide⟩

instance (s : String) : Decidable (Plain s) := inferInstanceAs (Decidable (_ ∧ _))

/-- The column with this text; blank if a line cannot hold the text. -/
def column (s : String) : Column :=
  if h : Plain s then { text := s, plain := h } else { text := "", plain := plain_empty }

/-- A number in decimal notation. -/
structure Digits where
  chars : List Char
  ne_nil : chars ≠ []
  isDigit : ∀ c ∈ chars, c.isDigit = true

namespace Digits

def text (d : Digits) : String := String.ofList d.chars

def value (d : Digits) : Nat := Nat.ofDigitChars 10 d.chars 0

/-- The number without leading zeros. -/
def ofNat (n : Nat) : Digits :=
  { chars := Nat.toDigits 10 n, ne_nil := Nat.toDigits_ne_nil, isDigit := isDigit_toDigits n }

theorem value_ofNat (n : Nat) : (ofNat n).value = n := Nat.ofDigitChars_ten_toDigits

end Digits

inductive Mode
  | NFM
  | FM
  | AUTO
  | AM
  deriving DecidableEq, Repr

def Mode.text : Mode → String
  | .NFM => SENTINEL_NFM
  | .FM => SENTINEL_FM
  | .AUTO => SENTINEL_AUTO
  | .AM => SENTINEL_AM

inductive Tone
  | csq
  | ctcss (tone : Column)
  | dcs (code : Column)
  deriving DecidableEq

def Tone.text : Tone → String
  | .csq => SENTINEL_CSQ
  | .ctcss tone => "TONE=C" ++ tone.text
  | .dcs code => "TONE=D" ++ code.text

def flagText (avoid : Bool) : String := if avoid then SENTINEL_TRUE else SENTINEL_FALSE

/-- A `C-Group` line; `blanks` and `ids` count the blank columns around the type word. -/
structure Group where
  blanks : Nat
  ids : Nat
  name : Column
  avoid : Bool
  rest : List Column

/-- A `C-Freq` line. -/
structure Freq where
  blanks : Nat
  ids : Nat
  tag : Column
  tag_ne : tag.text ≠ ""
  avoid : Bool
  freq : Digits
  mode : Mode
  tone : Tone
  extra : Column × Column
  delay : Digits
  rest : List Column

/-- The type word and the columns behind it, the blank ones around it as well. -/
def columnsOf (blanks ids : Nat) (type : String) (columns : List String) : List String :=
  List.replicate blanks "" ++ type :: (List.replicate ids "" ++ columns)

def Group.columns (g : Group) : List String :=
  columnsOf g.blanks g.ids C_GROUP (g.name.text :: flagText g.avoid :: g.rest.map Column.text)

/-- The columns from the tone on. -/
def Freq.toneOn (f : Freq) : List String :=
  f.tone.text :: f.extra.1.text :: f.extra.2.text :: f.delay.text :: f.rest.map Column.text

def Freq.columns (f : Freq) : List String :=
  columnsOf f.blanks f.ids C_FREQ
    (f.tag.text :: flagText f.avoid :: f.freq.text :: f.mode.text :: f.toneOn)

/-- The columns behind the type word of a `C-Group` line that are not blank. -/
def Group.tokens (g : Group) : List String :=
  (g.name.text :: flagText g.avoid :: g.rest.map Column.text).filter fun c => c ≠ ""

/-- The columns from the tone on that are not blank. -/
def Freq.tokens (f : Freq) : List String := f.toneOn.filter fun c => c ≠ ""

inductive Line
  | group (g : Group)
  | freq (f : Freq)

def Line.columns : Line → List String
  | .group g => g.columns
  | .freq f => f.columns

def Line.chars (l : Line) : List Char := ['\t'].intercalate (l.columns.map String.toList)

/-- The text of a file; the last line may lack its end. -/
def fileText (lines : List Line) (ended : Bool) : List Char :=
  let text := ['\n'].intercalate (lines.map Line.chars)
  if ended then text ++ ['\n'] else text

/-! ## What the columns name -/

/-- An entry as a user knows it. -/
structure Listing where
  type : EntryType
  frequency : Int
  tag : String
  lockout : Bool
  delayMS : Int
  deriving DecidableEq, Repr

structure Listed where
  tag : String
  lockout : Bool
  channels : List Listing
  deriving DecidableEq, Repr

def Entry.listing (e : Entry) : Listing :=
  { type := e.type, frequency := e.freq, tag := e.tag, lockout := e.isLockedOut,
    delayMS := e.delayMS }

def AnalogSystem.listed (s : AnalogSystem) : Listed :=
  { tag := s.tag, lockout := s.lockedOut, channels := s.entries.map Entry.listing }

def Tone.type : Tone → EntryType
  | .csq => .fm
  | .ctcss tone => .pl tone.text
  | .dcs code => .dc code.text

def Freq.listing (f : Freq) : Listing :=
  { type := if f.mode = .AM then .am else f.tone.type
    frequency := f.freq.value
    tag := f.tag.text
    lockout := f.avoid
    delayMS := f.delay.value * 1000 }

/-- The `C-Freq` lines up to the next `C-Group` line. -/
def following : List Line → List Freq
  | .freq f :: ls => f :: following ls
  | _ => []

/-- A system for every `C-Group` line, with a channel for every `C-Freq` line up to
the next one. -/
def expected : List Line → List Listed
  | [] => []
  | .group g :: ls =>
    { tag := g.name.text, lockout := g.avoid, channels := (following ls).map Freq.listing } ::
      expected ls
  | .freq _ :: ls => expected ls

/-- The file is converted, to these systems. -/
def ConvertsTo (w : Nat) (text : List Char) (systems : List Listed) : Prop :=
  ∃ sf, generateSystemList w (some text) .empty = .ok (true, sf) ∧
    sf.list.systems.map AnalogSystem.listed = systems

/-- The lines from the first `C-Group` line on. -/
def grouped : List Line → List Line
  | .freq _ :: ls => grouped ls
  | ls => ls

/-- A `C-Freq` line whose channel arrives as it is written.  The numbers are of the
types that hold them.  Of the columns from the tone on that are not blank, the fourth
reads as the delay, and the first is the tone, or is taken for no tone where there is
none. -/
structure Freq.Kept (w : Nat) (f : Freq) : Prop where
  freq : Fits 64 f.freq.value ∧ Fits w f.freq.value
  delay : Fits 32 (f.delay.value * 1000)
  delayColumn : ∃ s, f.tokens[3]? = some s ∧ stoi s = some ↑f.delay.value
  toneColumn : f.mode = .AM ∨ f.tone ≠ .csq ∨ ∃ code tone,
    f.tokens[0]? = some (String.ofList (SENTINEL_TONE_PRE.toList ++ code :: tone)) ∧
      code ≠ 'C' ∧ code ≠ 'D'

def Line.Kept (w : Nat) : Line → Prop
  | .group g => g.name.text ≠ ""
  | .freq f => f.Kept w

end PiScan.Scan

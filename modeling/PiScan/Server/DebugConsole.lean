import PiScan.Lib.FloatText
import PiScan.Machine.SavedState
import PiScan.Scan.SentinelFile

/-!
# The debug console

`DebugConsole::_consoleInputFunc` of `server/connection/DebugConsole.cpp`: a line is
cut at its spaces, the first token selects a command, and the others are taken by
their position.  The vector of the tokens starts with five empty ones and is cleared
behind each line.

* `spelled`: the command that the tokens of a line spell;
* `LineByLine`: every line leads to the command that it spells, or just to a message;
* `answers_iff`: when a line does, read into a vector that was cleared;
* `lineByLine_iff`: when all lines do: the first spells no command, and the others, up to
  the end of the console, have what their commands need.
-/

namespace PiScan.Server

open Scan TwosComplement Delimited PropertyTree Decimal Machine

/-! ## The calls of a connection -/

/-- What the console does to the system. -/
inductive ConsoleCall
  | systemStop
  | verbosity (level : Int)
  | scanner (call : Machine.Call)
  | demodSquelch (level : Binary32)
  | tunerGain (gain : Binary32)
  | scannerContext
  | demodContext
  deriving DecidableEq

namespace Connection

def scanStart : ConsoleCall := .scanner .startScan
def scanHold : ConsoleCall := .scanner (.holdScan [])
def scanHoldEntry (index : List Int) : ConsoleCall := .scanner (.holdScan index)
def scanManualEntry (freq : Int) (mode : String) : ConsoleCall := .scanner (.manualEntry freq mode)
def setDemodSquelch (level : Int) : ConsoleCall := .demodSquelch (toFloat level)
def setDemodGain (level : Binary32) : ConsoleCall := .tunerGain level

end Connection

/-! ## The loop -/

namespace DebugConsole

open Connection

/-- What a line leads to, and `_run` behind it. -/
structure Outcome where
  calls : List ConsoleCall
  printed : String
  run : Bool
  deriving DecidableEq

namespace Outcome

def call (c : ConsoleCall) : Outcome := ⟨[c], "", true⟩

def message (text : String) : Outcome := ⟨[], text, true⟩

end Outcome

/-- The conversion of a `float` to a `long`, which has to hold it. -/
def toLong (w : Nat) : FloatValue → Except Failure Int
  | .finite x =>
    let n := x.value.num.tdiv x.value.den
    if Fits w n then .ok n else .error .overflow
  | .notFinite => .error .overflow

/-- `std::stof(token)` as the first argument of `scanManualEntry`. -/
def frequencyOf (w : Nat) (token : String) : Except Failure Int :=
  match stof token with
  | none => .error .exception
  | some x => toLong w x

def INVALID_COMMAND : String := "Invalid command\n"
def MISSING_ARGUMENT : String := "Argument missing or typo in the command\n"

def helpText : String :=
  "\n Available commands:" ++
  "\n\thelp\t\tPrints all commands" ++
  "\n\texit\t\tExit program" ++
  "\n\tverbosity [0-9]\tSet console logging verbosity" ++
  "\n\tsquelch [level]\tSet squelch threshold" ++
  "\n\tgain [level]\tSet tuner gain - use \"auto\" for AGC" ++
  "\n\tscan\t\tContinue scanning entries" ++
  "\n\thold\t\tHold scanner at current entry" ++
  "\n\tmanual [freq]\tTune to the specified frequency" ++
  "\n\tget [subcommand]" ++
  "\n\t\tcontext\t\tReturns scanner status" ++
  "\n"

/-- The loop that fills `tokens`. -/
def tokensOf (input : List Char) : List String := (getlines ' ' input).map String.ofList

/-- The `try` block. -/
def command (w : Nat) (tokens : List String) : Except Failure Outcome := do
  let first ← token tokens 0
  if first = "exit" then .ok ⟨[.systemStop], "", false⟩
  else if first = "verbosity" then
    let level ← parsed (stoi (← token tokens 1))
    .ok ⟨[.verbosity level], "Verbosity set to " ++ toString level ++ "\n", true⟩
  else if first = "squelch" then
    if 1 < tokens.length then
      let level ← parsed (stoi (← token tokens 1))
      .ok (.call (setDemodSquelch level))
    else .ok (.call .demodContext)
  else if first = "scan" then .ok (.call scanStart)
  else if first = "hold" then
    if 2 < tokens.length then
      let entryIndex ← (tokens.drop 1).mapM fun s => parsed (stoi s)
      .ok (.call (scanHoldEntry entryIndex))
    else .ok (.call scanHold)
  else if first = "gain" then
    if 1 < tokens.length then
      let level ← token tokens 1
      let gain ← if level = "auto" then .ok AUTO_GAIN else parsed (stoi level)
      .ok (.call (setDemodGain (toFloat gain)))
    else .ok (.call .demodContext)
  else if first = "manual" then
    if 2 < tokens.length then
      let freq ← frequencyOf w (← token tokens 1)
      let mode ← token tokens 2
      .ok (.call (scanManualEntry freq mode))
    else
      let freq ← frequencyOf w (← token tokens 1)
      .ok (.call (scanManualEntry freq "FM"))
  else if first = "get" then
    if (← token tokens 1) = "context" then .ok (.call .scannerContext)
    else .ok (.message "")
  else if first = "help" then .ok (.message helpText)
  else .ok (.message INVALID_COMMAND)

/-- The `try` block with its handler, which catches every exception. -/
def interpret (w : Nat) (tokens : List String) : Except Failure Outcome :=
  match command w tokens with
  | .error .exception => .ok (.message MISSING_ARGUMENT)
  | outcome => outcome

/-- The loop, on the lines that are read: what each of them leads to, up to the first step
that C++ leaves undefined. -/
def loop (w : Nat) : List String → List (List Char) → List (Except Failure Outcome)
  | _, [] => []
  | tokens, input :: inputs =>
    match interpret w (tokens ++ tokensOf input) with
    | .error f => [.error f]
    | .ok o => .ok o :: if o.run then loop w [] inputs else []

/-- `DebugConsole::_consoleInputFunc`, behind its first requests. -/
def consoleInputFunc (w : Nat) (inputs : List (List Char)) : List (Except Failure Outcome) :=
  loop w (List.replicate 5 "") inputs

/-! ## The commands -/

/-- A command with its arguments. -/
inductive Command
  | exit
  | verbosity (level : Int)
  | squelch (level : Int)
  | scan
  | hold (index : List Int)
  | gain (level : Int)
  | manual (freq : Int) (mode : String)
  | context
  | levels
  | help

def Command.outcome : Command → Outcome
  | exit => ⟨[.systemStop], "", false⟩
  | verbosity level => ⟨[.verbosity level], "Verbosity set to " ++ toString level ++ "\n", true⟩
  | squelch level => .call (setDemodSquelch level)
  | scan => .call scanStart
  | hold index => .call (scanHoldEntry index)
  | gain level => .call (setDemodGain (toFloat level))
  | manual freq mode => .call (scanManualEntry freq mode)
  | context => .call .scannerContext
  | levels => .call .demodContext
  | help => .message helpText

/-- The words that select a command. -/
inductive Word
  | exit
  | verbosity
  | squelch
  | scan
  | hold
  | gain
  | manual
  | get
  | help
  deriving DecidableEq

namespace Word

def text : Word → String
  | exit => "exit"
  | verbosity => "verbosity"
  | squelch => "squelch"
  | scan => "scan"
  | hold => "hold"
  | gain => "gain"
  | manual => "manual"
  | get => "get"
  | help => "help"

def all : List Word := [exit, verbosity, squelch, scan, hold, gain, manual, get, help]

/-- A frequency, written to the end of the token, that a `long` can hold. -/
def frequency (w : Nat) (token : String) : Option Int :=
  if IsFloatText token then (frequencyOf w token).toOption else none

/-- The modulations that a manual entry can have. -/
def modes : List String := ["FM", "NFM", "AM"]

/-- The command of a word with its arguments, unless one is missing or no value of its kind.
An entry is named by two indices at least. -/
def command (w : Nat) : Word → List String → Option Command
  | exit, _ => some .exit
  | verbosity, [] => none
  | verbosity, level :: _ => (readInt 32 level).map .verbosity
  | squelch, [] => some .levels
  | squelch, level :: _ => (readInt 32 level).map .squelch
  | scan, _ => some .scan
  | hold, [] => some (.hold [])
  | hold, [_] => none
  | hold, i :: j :: index => ((i :: j :: index).mapM (readInt 32)).map .hold
  | gain, [] => some .levels
  | gain, level :: _ =>
    if level = "auto" then some (.gain AUTO_GAIN) else (readInt 32 level).map .gain
  | manual, [] => none
  | manual, [freq] => (frequency w freq).map fun f => .manual f "FM"
  | manual, freq :: mode :: _ =>
    if mode ∈ modes then (frequency w freq).map fun f => .manual f mode else none
  | get, [] => none
  | get, subcommand :: _ => if subcommand = "context" then some .context else none
  | help, _ => some .help

end Word

/-- The command that the tokens of a line spell. -/
def spelled (w : Nat) : List String → Option Command
  | [] => none
  | first :: arguments =>
    (Word.all.find? fun word => word.text = first).bind fun word => word.command w arguments

/-- A command is carried out; without one there is a message and nothing else. -/
def Gives : Option Command → Outcome → Prop
  | some c, o => o = c.outcome
  | none, o => o.calls = [] ∧ o.run = true ∧ o.printed ≠ ""

/-- A line leads to the command that it spells. -/
def Answers (w : Nat) (tokens : List String) (o : Outcome) : Prop := Gives (spelled w tokens) o

/-- **Line by line**: no step is undefined, and every line has its own answer. -/
def LineByLine (w : Nat) (inputs : List (List Char)) : Prop :=
  ∀ p ∈ inputs.zip (consoleInputFunc w inputs), ∃ o, p.2 = .ok o ∧ Answers w (tokensOf p.1) o

/-! ## The condition on a line -/

/-- Nothing but white space is behind an integer. -/
def Clean (token : String) : Prop := (stoi token).isSome → (readInt 32 token).isSome

/-- The arguments that a command needs are there, and nothing that is read as a number
and is none of its kind. -/
def Word.Plain (w : Nat) : Word → List String → Prop
  | .verbosity, [] => False
  | .verbosity, level :: _ => Clean level
  | .squelch, level :: _ => Clean level
  | .hold, [_] => False
  | .hold, i :: j :: index =>
    (∀ s ∈ i :: j :: index, (stoi s).isSome) → ∀ s ∈ i :: j :: index, (readInt 32 s).isSome
  | .gain, level :: _ => Clean level
  | .manual, [] => False
  | .manual, freq :: mode =>
    (stof freq).isSome → (Word.frequency w freq).isSome ∧ ∀ m ∈ mode.head?, m ∈ Word.modes
  | .get, [] => False
  | .get, subcommand :: _ => subcommand = "context"
  | _, _ => True

/-- A line that is not empty, and whose command has what it needs. -/
def Plain (w : Nat) : List String → Prop
  | [] => False
  | first :: arguments => ∀ word : Word, word.text = first → word.Plain w arguments

/-! ## One line -/

theorem mapM_parsed (tokens : List String) :
    (tokens.mapM fun s => parsed (stoi s)) =
      (tokens.mapM stoi).elim (.error .exception) Except.ok := by
  induction tokens with
  | nil => rfl
  | cons s tokens ih =>
    rw [List.mapM_cons, List.mapM_cons, ih]
    cases stoi s with
    | none => rfl
    | some n => cases tokens.mapM stoi <;> rfl

theorem isSome_mapM {α β : Type} {f : α → Option β} {xs : List α} :
    (xs.mapM f).isSome ↔ ∀ x ∈ xs, (f x).isSome := by
  induction xs with
  | nil => simp
  | cons x xs ih =>
    rw [List.forall_mem_cons, ← ih, List.mapM_cons]
    cases f x with
    | none => simp
    | some y => cases xs.mapM f <;> simp

theorem mapM_of_mapM {α β : Type} {f g : α → Option β} (h : ∀ x y, f x = some y → g x = some y)
    {xs : List α} {ys : List β} (hxs : xs.mapM f = some ys) : xs.mapM g = some ys := by
  induction xs generalizing ys with
  | nil => exact hxs
  | cons x xs ih =>
    rw [List.mapM_cons] at hxs ⊢
    simp only [Option.bind_eq_bind, Option.bind_eq_some_iff] at hxs ⊢
    obtain ⟨y, hy, ys', hys', hys⟩ := hxs
    exact ⟨y, h x y hy, ys', ih hys', hys⟩

theorem Word.text_injective : Function.Injective Word.text := by
  intro word word' h
  cases word <;> cases word' <;> first | rfl | simp [Word.text] at h

theorem spelled_text (w : Nat) (word : Word) (arguments : List String) :
    spelled w (word.text :: arguments) = word.command w arguments := by
  cases word <;> simp [spelled, Word.all, Word.text]

/-- What the branch of a word does with the tokens behind it. -/
def Word.branch (w : Nat) : Word → List String → Except Failure Outcome
  | .exit, _ => .ok Command.exit.outcome
  | .verbosity, [] => .error .outOfRange
  | .verbosity, level :: _ =>
    (stoi level).elim (.error .exception) fun n => .ok (Command.verbosity n).outcome
  | .squelch, [] => .ok Command.levels.outcome
  | .squelch, level :: _ =>
    (stoi level).elim (.error .exception) fun n => .ok (Command.squelch n).outcome
  | .scan, _ => .ok Command.scan.outcome
  | .hold, [] => .ok (Command.hold []).outcome
  | .hold, [_] => .ok (Command.hold []).outcome
  | .hold, i :: j :: index =>
    ((i :: j :: index).mapM stoi).elim (.error .exception) fun ns => .ok (Command.hold ns).outcome
  | .gain, [] => .ok Command.levels.outcome
  | .gain, level :: _ =>
    if level = "auto" then .ok (Command.gain AUTO_GAIN).outcome
    else (stoi level).elim (.error .exception) fun n => .ok (Command.gain n).outcome
  | .manual, [] => .error .outOfRange
  | .manual, freq :: mode =>
    (frequencyOf w freq).map fun f => (Command.manual f (mode.headD "FM")).outcome
  | .get, [] => .error .outOfRange
  | .get, subcommand :: _ =>
    if subcommand = "context" then .ok Command.context.outcome else .ok (.message "")
  | .help, _ => .ok Command.help.outcome

theorem ok_bind {α β : Type} (a : α) (f : α → Except Failure β) :
    (Except.ok a >>= f) = f a := rfl

theorem error_bind {α β : Type} (e : Failure) (f : α → Except Failure β) :
    ((Except.error e : Except Failure α) >>= f) = .error e := rfl

theorem parsed_bind {α : Type} (value : Option Int) (f : Int → Except Failure α) :
    (parsed value >>= f) = value.elim (.error .exception) f := by
  cases value <;> rfl

/-- **The branches**: the first token alone selects one. -/
theorem command_text (w : Nat) (word : Word) (arguments : List String) :
    command w (word.text :: arguments) = word.branch w arguments := by
  cases word with
  | exit => simp [command, Word.text, token, ok_bind, Word.branch, Command.outcome]
  | scan => simp [command, Word.text, token, ok_bind, Word.branch, Command.outcome]
  | help => simp [command, Word.text, token, ok_bind, Word.branch, Command.outcome]
  | verbosity =>
    cases arguments with
    | nil => simp [command, Word.text, token, ok_bind, error_bind, Word.branch]
    | cons level rest =>
      simp [command, Word.text, token, ok_bind, parsed_bind, Word.branch, Command.outcome]
  | squelch =>
    cases arguments with
    | nil => simp [command, Word.text, token, ok_bind, Word.branch, Command.outcome]
    | cons level rest =>
      simp [command, Word.text, token, ok_bind, parsed_bind, Word.branch, Command.outcome]
  | hold =>
    rcases arguments with - | ⟨i, - | ⟨j, index⟩⟩
    · rfl
    · rfl
    · cases hindex : (i :: j :: index).mapM stoi <;>
        simp [command, Word.text, token, ok_bind, error_bind, mapM_parsed, Word.branch,
          Command.outcome, hindex, -List.mapM_cons]
  | gain =>
    cases arguments with
    | nil => simp [command, Word.text, token, ok_bind, Word.branch, Command.outcome]
    | cons level rest =>
      by_cases hauto : level = "auto"
      · simp [command, Word.text, token, ok_bind, Word.branch, Command.outcome, hauto]
      · simp [command, Word.text, token, ok_bind, parsed_bind, Word.branch, Command.outcome, hauto]
  | manual =>
    rcases arguments with - | ⟨freq, - | ⟨mode, rest⟩⟩
    · simp [command, Word.text, token, ok_bind, error_bind, Word.branch]
    · cases hfreq : frequencyOf w freq <;>
        simp [command, Word.text, token, ok_bind, error_bind, Word.branch, Command.outcome,
          Except.map, hfreq]
    · cases hfreq : frequencyOf w freq <;>
        simp [command, Word.text, token, ok_bind, error_bind, Word.branch, Command.outcome,
          Except.map, hfreq]
  | get =>
    cases arguments with
    | nil => simp [command, Word.text, token, ok_bind, error_bind, Word.branch]
    | cons subcommand rest =>
      simp [command, Word.text, token, ok_bind, Word.branch, Command.outcome]

/-- The tokens behind a word lead to what the word asks for. -/
def Word.Right (w : Nat) (word : Word) (arguments : List String) : Prop :=
  ∃ o, interpret w (word.text :: arguments) = .ok o ∧ Gives (word.command w arguments) o

theorem Word.right_of_ok {w : Nat} {word : Word} {arguments : List String} {o : Outcome}
    (h : word.branch w arguments = .ok o) :
    word.Right w arguments ↔ Gives (word.command w arguments) o := by
  simp [Word.Right, interpret, command_text, h]

/-- The handler catches what is not undefined. -/
theorem Word.not_right_of_error {w : Nat} {word : Word} {arguments : List String} {f : Failure}
    (h : word.branch w arguments = .error f) (hf : f ≠ .exception) : ¬word.Right w arguments := by
  cases f with
  | exception => exact absurd rfl hf
  | outOfRange => simp [Word.Right, interpret, command_text, h]
  | overflow => simp [Word.Right, interpret, command_text, h]

/-- An exception becomes a message. -/
theorem Word.right_of_exception {w : Nat} {word : Word} {arguments : List String}
    (h : word.branch w arguments = .error .exception) (hnone : word.command w arguments = none) :
    word.Right w arguments := by
  refine ⟨.message MISSING_ARGUMENT, ?_, ?_⟩
  · rw [interpret, command_text, h]
  · simp [hnone, Gives, Outcome.message, MISSING_ARGUMENT]

/-- A branch that reads a number, where the word asks for a stricter reading. -/
theorem Word.right_of_read {α : Type} {w : Nat} {word : Word} {arguments : List String}
    {read whole : Option α} {c : α → Command}
    (h : word.branch w arguments =
      read.elim (.error .exception) fun a => .ok (c a).outcome)
    (hspelled : word.command w arguments = whole.map c)
    (hsub : ∀ a, whole = some a → read = some a) (hcalls : ∀ a, (c a).outcome.calls ≠ []) :
    word.Right w arguments ↔ (read.isSome → whole.isSome) := by
  cases hread : read with
  | none =>
    have hwhole : whole = none := by
      cases hwhole : whole with
      | none => rfl
      | some a => exact absurd (hsub a hwhole) (by simp [hread])
    rw [hread] at h
    exact iff_of_true (Word.right_of_exception h (by simp [hspelled, hwhole])) (by simp)
  | some a =>
    rw [hread] at h
    rw [Word.right_of_ok h, hspelled]
    cases hwhole : whole with
    | none => simp [Gives, hcalls a]
    | some b =>
      obtain rfl : a = b := Option.some.inj (hread.symm.trans (hsub b hwhole))
      simp [Gives]

/-! ## The words -/

theorem right_verbosity_iff (w : Nat) (arguments : List String) :
    Word.verbosity.Right w arguments ↔ Word.verbosity.Plain w arguments := by
  cases arguments with
  | nil => exact iff_of_false (Word.not_right_of_error rfl Failure.noConfusion) id
  | cons level rest =>
    exact Word.right_of_read rfl rfl (fun n => stoi_of_readInt) fun n => List.cons_ne_nil _ _

theorem right_squelch_iff (w : Nat) (arguments : List String) :
    Word.squelch.Right w arguments ↔ Word.squelch.Plain w arguments := by
  cases arguments with
  | nil => exact iff_of_true ((Word.right_of_ok rfl).mpr rfl) trivial
  | cons level rest =>
    exact Word.right_of_read rfl rfl (fun n => stoi_of_readInt) fun n => List.cons_ne_nil _ _

theorem right_hold_iff (w : Nat) (arguments : List String) :
    Word.hold.Right w arguments ↔ Word.hold.Plain w arguments := by
  rcases arguments with - | ⟨i, - | ⟨j, index⟩⟩
  · exact iff_of_true ((Word.right_of_ok rfl).mpr rfl) trivial
  · -- the index is not looked at
    rw [Word.right_of_ok rfl]
    simp [Gives, Word.command, Command.outcome, Outcome.call, Word.Plain]
  · have hright : Word.hold.Right w (i :: j :: index) ↔
        (((i :: j :: index).mapM stoi).isSome → ((i :: j :: index).mapM (readInt 32)).isSome) :=
      Word.right_of_read rfl rfl (fun ns => mapM_of_mapM fun _ _ => stoi_of_readInt)
        fun ns => List.cons_ne_nil _ _
    rw [hright, isSome_mapM, isSome_mapM, Word.Plain]

theorem right_gain_iff (w : Nat) (arguments : List String) :
    Word.gain.Right w arguments ↔ Word.gain.Plain w arguments := by
  cases arguments with
  | nil => exact iff_of_true ((Word.right_of_ok rfl).mpr rfl) trivial
  | cons level rest =>
    by_cases hauto : level = "auto"
    · have hclean : Clean level := by
        have hstoi : stoi "auto" = none := by decide
        simp [Clean, hauto, hstoi]
      have hbranch : Word.gain.branch w (level :: rest) =
          .ok (Command.gain AUTO_GAIN).outcome := if_pos hauto
      rw [Word.right_of_ok hbranch]
      exact iff_of_true (by simp [Gives, Word.command, hauto]) hclean
    · have hbranch : Word.gain.branch w (level :: rest) =
          (stoi level).elim (.error .exception) fun n => .ok (Command.gain n).outcome :=
        if_neg hauto
      have hspelled : Word.gain.command w (level :: rest) = (readInt 32 level).map .gain :=
        if_neg hauto
      exact Word.right_of_read hbranch hspelled (fun n => stoi_of_readInt)
        fun n => List.cons_ne_nil _ _

theorem right_get_iff (w : Nat) (arguments : List String) :
    Word.get.Right w arguments ↔ Word.get.Plain w arguments := by
  cases arguments with
  | nil => exact iff_of_false (Word.not_right_of_error rfl Failure.noConfusion) id
  | cons subcommand rest =>
    by_cases hcontext : subcommand = "context"
    · have hbranch : Word.get.branch w (subcommand :: rest) = .ok Command.context.outcome :=
        if_pos hcontext
      rw [Word.right_of_ok hbranch]
      exact iff_of_true (by simp [Gives, Word.command, hcontext]) hcontext
    · -- nothing is printed
      have hbranch : Word.get.branch w (subcommand :: rest) = .ok (.message "") :=
        if_neg hcontext
      rw [Word.right_of_ok hbranch]
      exact iff_of_false (by simp [Gives, Word.command, Outcome.message, hcontext]) hcontext

theorem toLong_eq_error {w : Nat} {x : FloatValue} {f : Failure} (h : toLong w x = .error f) :
    f = .overflow := by
  cases x with
  | finite x =>
    simp only [toLong] at h
    split at h
    · cases h
    · exact (Except.error.inj h).symm
  | notFinite => exact (Except.error.inj h).symm

theorem command_manual (w : Nat) (freq : String) (mode : List String) :
    Word.manual.command w (freq :: mode) =
      if ∀ m ∈ mode.head?, m ∈ Word.modes then
        (Word.frequency w freq).map fun f => .manual f (mode.headD "FM")
      else none := by
  cases mode with
  | nil => simp [Word.command]
  | cons mode rest => simp [Word.command]

theorem right_manual_iff (w : Nat) (arguments : List String) :
    Word.manual.Right w arguments ↔ Word.manual.Plain w arguments := by
  cases arguments with
  | nil => exact iff_of_false (Word.not_right_of_error rfl Failure.noConfusion) id
  | cons freq mode =>
    have hspelled := command_manual w freq mode
    have hbranch : Word.manual.branch w (freq :: mode) =
      (frequencyOf w freq).map fun f => (Command.manual f (mode.headD "FM")).outcome := rfl
    rw [Word.Plain]
    cases hstof : stof freq with
    | none =>
      -- an exception, and no frequency
      have hfreq : frequencyOf w freq = .error .exception := by rw [frequencyOf, hstof]
      have hnone : Word.frequency w freq = none := by simp [Word.frequency, hfreq, Except.toOption]
      rw [hfreq] at hbranch
      exact iff_of_true (Word.right_of_exception hbranch (by simp [hspelled, hnone])) (by simp)
    | some x =>
      have hfreq : frequencyOf w freq = toLong w x := by rw [frequencyOf, hstof]
      cases hlong : toLong w x with
      | error f =>
        -- undefined, and no frequency
        obtain rfl := toLong_eq_error hlong
        have hnone : Word.frequency w freq = none := by
          simp [Word.frequency, hfreq, hlong, Except.toOption]
        rw [hfreq, hlong] at hbranch
        exact iff_of_false (Word.not_right_of_error hbranch Failure.noConfusion) (by simp [hnone])
      | ok n =>
        rw [hfreq, hlong] at hbranch
        rw [Word.right_of_ok hbranch, hspelled]
        by_cases hmode : ∀ m ∈ mode.head?, m ∈ Word.modes
        · rw [if_pos hmode]
          by_cases htext : IsFloatText freq = true
          · have hsome : Word.frequency w freq = some n := by
              simp [Word.frequency, hfreq, hlong, htext, Except.toOption]
            rw [hsome]
            exact iff_of_true rfl fun _ => ⟨rfl, hmode⟩
          · have hnone : Word.frequency w freq = none := by simp [Word.frequency, htext]
            simp [Gives, Command.outcome, Outcome.call, hnone]
        · rw [if_neg hmode]
          exact iff_of_false (by simp [Gives, Command.outcome, Outcome.call])
            fun h => hmode (h rfl).2

theorem Word.right_iff (w : Nat) (word : Word) (arguments : List String) :
    word.Right w arguments ↔ word.Plain w arguments := by
  cases word with
  | exit => exact iff_of_true ((Word.right_of_ok rfl).mpr rfl) (by simp [Word.Plain])
  | verbosity => exact right_verbosity_iff w arguments
  | squelch => exact right_squelch_iff w arguments
  | scan => exact iff_of_true ((Word.right_of_ok rfl).mpr rfl) (by simp [Word.Plain])
  | hold => exact right_hold_iff w arguments
  | gain => exact right_gain_iff w arguments
  | manual => exact right_manual_iff w arguments
  | get => exact right_get_iff w arguments
  | help => exact iff_of_true ((Word.right_of_ok rfl).mpr rfl) (by simp [Word.Plain])

/-- A word that is no command is answered by a message. -/
theorem interpret_unknown (w : Nat) {first : String} (h : ∀ word : Word, word.text ≠ first)
    (arguments : List String) :
    interpret w (first :: arguments) = .ok (.message INVALID_COMMAND) ∧
      spelled w (first :: arguments) = none := by
  have hexit := h .exit
  have hverbosity := h .verbosity
  have hsquelch := h .squelch
  have hscan := h .scan
  have hhold := h .hold
  have hgain := h .gain
  have hmanual := h .manual
  have hget := h .get
  have hhelp := h .help
  simp only [Word.text] at hexit hverbosity hsquelch hscan hhold hgain hmanual hget hhelp
  constructor
  · simp [interpret, command, token, ok_bind, Ne.symm hexit, Ne.symm hverbosity, Ne.symm hsquelch,
      Ne.symm hscan, Ne.symm hhold, Ne.symm hgain, Ne.symm hmanual, Ne.symm hget, Ne.symm hhelp]
  · simp [spelled, Word.all, h]

/-- **One line**, read into an empty vector. -/
theorem answers_iff (w : Nat) (tokens : List String) :
    (∃ o, interpret w tokens = .ok o ∧ Answers w tokens o) ↔ Plain w tokens := by
  cases tokens with
  | nil =>
    have hinterpret : interpret w [] = .error .outOfRange := rfl
    simp [hinterpret, Plain]
  | cons first arguments =>
    by_cases hword : ∃ word : Word, word.text = first
    · obtain ⟨word, rfl⟩ := hword
      have hright := Word.right_iff w word arguments
      rw [Word.Right] at hright
      simp only [Answers, spelled_text, hright, Plain]
      constructor
      · intro hplain word' htext
        obtain rfl := Word.text_injective htext
        exact hplain
      · intro hplain
        exact hplain word rfl
    · have hno : ∀ word : Word, word.text ≠ first := fun word htext => hword ⟨word, htext⟩
      obtain ⟨hinterpret, hspelled⟩ := interpret_unknown w hno arguments
      refine iff_of_true ⟨_, hinterpret, ?_⟩ fun word htext => absurd htext (hno word)
      simp [Answers, Gives, hspelled, Outcome.message, INVALID_COMMAND]

/-! ## The lines -/

/-- The lines from an input on, with these tokens left over. -/
def Served (w : Nat) (tokens : List String) (inputs : List (List Char)) : Prop :=
  ∀ p ∈ inputs.zip (loop w tokens inputs), ∃ o, p.2 = .ok o ∧ Answers w (tokensOf p.1) o

theorem served_cons_ok {w : Nat} {tokens : List String} {input : List Char}
    {inputs : List (List Char)} {o : Outcome}
    (h : interpret w (tokens ++ tokensOf input) = .ok o) :
    Served w tokens (input :: inputs) ↔
      Answers w (tokensOf input) o ∧ (o.run = true → Served w [] inputs) := by
  unfold Served
  rw [loop, h]
  cases hrun : o.run with
  | false => simp [hrun]
  | true => simp [hrun]

theorem not_served_cons_error {w : Nat} {tokens : List String} {input : List Char}
    {inputs : List (List Char)} {f : Failure}
    (h : interpret w (tokens ++ tokensOf input) = .error f) :
    ¬Served w tokens (input :: inputs) := by
  unfold Served
  rw [loop, h]
  simp

/-- The lines before the first that ends the console. -/
def beforeExit (inputs : List (List Char)) : List (List Char) :=
  inputs.takeWhile fun input => (tokensOf input).head? ≠ some "exit"

theorem Word.eq_exit {w : Nat} {word : Word} {arguments : List String}
    (h : word.command w arguments = some .exit) : word = .exit := by
  cases word with
  | exit => rfl
  | scan => cases h
  | help => cases h
  | verbosity => cases arguments <;> simp [Word.command] at h
  | squelch => cases arguments <;> simp [Word.command] at h
  | get => cases arguments <;> simp [Word.command] at h
  | hold =>
    rcases arguments with - | ⟨i, - | ⟨j, index⟩⟩ <;>
      simp [Word.command, -List.mapM_cons] at h
  | manual => rcases arguments with - | ⟨freq, - | ⟨mode, rest⟩⟩ <;> simp [Word.command] at h
  | gain =>
    cases arguments with
    | nil => cases h
    | cons level rest =>
      simp only [Word.command] at h
      split at h
      · cases h
      · simp at h

theorem head?_of_spelled_exit {w : Nat} {tokens : List String}
    (h : spelled w tokens = some .exit) : tokens.head? = some "exit" := by
  cases tokens with
  | nil => cases h
  | cons first arguments =>
    obtain ⟨word, hfind, hcommand⟩ := Option.bind_eq_some_iff.mp h
    obtain rfl := Word.eq_exit hcommand
    have htext : Word.exit.text = first := by simpa using List.find?_some hfind
    rw [← htext]
    rfl

/-- The console goes on behind every line that does not end it. -/
theorem Answers.run {w : Nat} {tokens : List String} {o : Outcome} (h : Answers w tokens o)
    (hexit : tokens.head? ≠ some "exit") : o.run = true := by
  unfold Answers at h
  cases hspelled : spelled w tokens with
  | none =>
    rw [hspelled] at h
    exact h.2.1
  | some c =>
    rw [hspelled] at h
    obtain rfl : o = c.outcome := h
    cases c with
    | exit => exact absurd (head?_of_spelled_exit hspelled) hexit
    | _ => rfl

/-- **The lines from a cleared vector on.** -/
theorem served_nil_iff (w : Nat) (inputs : List (List Char)) :
    Served w [] inputs ↔ ∀ input ∈ beforeExit inputs, Plain w (tokensOf input) := by
  induction inputs with
  | nil => simp [Served, beforeExit]
  | cons input inputs ih =>
    by_cases hexit : (tokensOf input).head? = some "exit"
    · obtain ⟨arguments, htokens⟩ := List.head?_eq_some_iff.mp hexit
      have hinterpret : interpret w (Word.exit.text :: arguments) =
          .ok Command.exit.outcome := by
        rw [interpret, command_text]
        rfl
      have hanswers : Answers w (tokensOf input) Command.exit.outcome := by
        rw [Answers, htokens]
        exact (congrArg (Gives · _) (spelled_text w .exit arguments)).mpr rfl
      have hline : interpret w (tokensOf input) = .ok Command.exit.outcome := htokens ▸ hinterpret
      rw [served_cons_ok (o := Command.exit.outcome) hline]
      have hbefore : beforeExit (input :: inputs) = [] := by simp [beforeExit, hexit]
      rw [hbefore]
      refine iff_of_true ⟨hanswers, ?_⟩ (by simp)
      rintro ⟨⟩
    · have hbefore : beforeExit (input :: inputs) = input :: beforeExit inputs := by
        simp [beforeExit, hexit]
      rw [hbefore, List.forall_mem_cons, ← ih, ← answers_iff]
      cases hinterpret : interpret w (tokensOf input) with
      | error f =>
        refine iff_of_false (not_served_cons_error (f := f) hinterpret) ?_
        rintro ⟨⟨o, ho, -⟩, -⟩
        cases ho
      | ok o =>
        rw [served_cons_ok (o := o) hinterpret]
        constructor
        · rintro ⟨hanswers, hrest⟩
          exact ⟨⟨o, rfl, hanswers⟩, hrest (hanswers.run hexit)⟩
        · rintro ⟨⟨o', ho, hanswers⟩, hrest⟩
          obtain rfl := Except.ok.inj ho
          exact ⟨hanswers, fun _ => hrest⟩

theorem helpText_ne : helpText ≠ INVALID_COMMAND := by decide

/-- The first line, behind the five tokens of the start, is no command. -/
theorem served_first_iff (w : Nat) (input : List Char) (inputs : List (List Char)) :
    Served w (List.replicate 5 "") (input :: inputs) ↔
      spelled w (tokensOf input) = none ∧ Served w [] inputs := by
  have hno : ∀ word : Word, word.text ≠ "" := by
    intro word
    cases word <;> simp [Word.text]
  obtain ⟨hinterpret, -⟩ := interpret_unknown w hno (List.replicate 4 "" ++ tokensOf input)
  rw [served_cons_ok (o := .message INVALID_COMMAND) hinterpret, Answers]
  refine and_congr ?_ ⟨fun h => h rfl, fun h _ => h⟩
  cases spelled w (tokensOf input) with
  | none => simp [Gives, Outcome.message, INVALID_COMMAND]
  | some c =>
    refine iff_of_false ?_ (by simp)
    intro h
    have houtcome : Outcome.message INVALID_COMMAND = c.outcome := h
    cases c with
    | help => exact helpText_ne (congrArg Outcome.printed houtcome).symm
    | _ => cases congrArg Outcome.calls houtcome

/-- The lines that are read from the console. -/
def PlainLines (w : Nat) : List (List Char) → Prop
  | [] => True
  | input :: inputs => spelled w (tokensOf input) = none ∧
      ∀ line ∈ beforeExit inputs, Plain w (tokensOf line)

/-- **When the console is right**: its first line spells no command, and the later ones up to
the end are plain. -/
theorem lineByLine_iff (w : Nat) (inputs : List (List Char)) :
    LineByLine w inputs ↔ PlainLines w inputs := by
  cases inputs with
  | nil => simp [LineByLine, consoleInputFunc, PlainLines]
  | cons input inputs =>
    rw [PlainLines, ← served_nil_iff]
    exact served_first_iff w input inputs

/-- The first command is not known, a later empty line has no token, and a level with a
letter behind it is set. -/
theorem not_lineByLine : ¬LineByLine 64 ["scan".toList] ∧ ¬LineByLine 64 ["".toList, "".toList] ∧
    ¬LineByLine 64 ["".toList, "squelch 5x".toList] := by
  refine ⟨fun h => ?_, fun h => ?_, fun h => ?_⟩
  · have hnone := ((served_first_iff 64 _ _).mp h).1
    exact absurd hnone (by simp [tokensOf, getlines, spelled, Word.all, Word.text, Word.command])
  · have hplain := (served_nil_iff 64 _).mp ((served_first_iff 64 _ _).mp h).2
    exact hplain "".toList (by decide)
  · have hplain := (served_nil_iff 64 _).mp ((served_first_iff 64 _ _).mp h).2
    have htokens : tokensOf "squelch 5x".toList = [Word.squelch.text, "5x"] := by decide
    have hline := hplain "squelch 5x".toList (by decide)
    rw [htokens] at hline
    have hclean : Clean "5x" := hline .squelch rfl
    exact absurd (hclean (by decide)) (by decide)

end DebugConsole

end PiScan.Server

import PiScan.Lib.TwosComplement

/-!
# Entries and radio systems

The objects of `scan/Entry.h` and `scan/RadioSystem.h`.  An `Entry` is one
channel object (FM, AM, PL, DC) or the dummy that retunes the tuner; an
`AnalogSystem` owns a list of entries and hands out their addresses.

`Entry.frequency` is a `long long`, but the constructor of `Channel` takes a
`long`; `w` is the width of `long` on the target (64, or 32 on small ARM
boards).
-/

namespace PiScan.Scan

open TwosComplement

/-- What can go wrong in a call that the C++ code does not check. -/
inductive Fault
  | nullPointer
  | outOfRange
  | emptyBin
  | badCast
  | badPath
  | diverges
  deriving DecidableEq, Repr

@[simp] theorem bind_eq_ok {ε α β : Type} {x : Except ε α} {f : α → Except ε β} {b : β} :
    (x >>= f) = .ok b ↔ ∃ a, x = .ok a ∧ f a = .ok b := by
  cases x with
  | error e => simp [Bind.bind, Except.bind]
  | ok a => simp [Bind.bind, Except.bind]

@[simp] theorem pure_eq_ok {ε α : Type} {a b : α} :
    (pure a : Except ε α) = .ok b ↔ a = b := by
  simp [pure, Except.pure]

inductive LockoutType
  | LOCKOUT_NONE
  | LOCKOUT_PERSIST
  | LOCKOUT_SESSION
  | LOCKOUT_TIMER
  deriving DecidableEq, Repr, Inhabited

/-- The subclasses of `Entry`, with the data each of them adds. -/
inductive EntryType
  | fm
  | am
  | pl (s_tone : String)
  | dc (s_code : String)
  | dummy
  deriving DecidableEq, Repr, Inhabited

structure Entry where
  type : EntryType
  frequency : Int
  tag : String
  lockout : LockoutType
  scanDelayMS : Int
  sysIndex : Nat
  entryIndex : Nat
  deriving DecidableEq, Repr, Inhabited

namespace Entry

/-- `_lockout = (val) ? LOCKOUT_PERSIST : LOCKOUT_NONE`. -/
def lockoutOf (val : Bool) : LockoutType :=
  if val then .LOCKOUT_PERSIST else .LOCKOUT_NONE

/-- `Channel::Channel`: the frequency passes through a `long`. -/
def channel (w : Nat) (type : EntryType) (freq : Int) (tag : String) (lo : Bool) (del : Int) :
    Entry :=
  { type, frequency := wrap w freq, tag, lockout := lockoutOf lo, scanDelayMS := del,
    sysIndex := 0, entryIndex := 0 }

def fmChannel (w : Nat) (freq : Int) (tag : String) (lo : Bool) (del : Int) : Entry :=
  channel w .fm freq tag lo del

def amChannel (w : Nat) (freq : Int) (tag : String) (lo : Bool) (del : Int) : Entry :=
  channel w .am freq tag lo del

def plChannel (w : Nat) (freq : Int) (tn : String) (tag : String) (lo : Bool) (del : Int) :
    Entry :=
  channel w (.pl tn) freq tag lo del

def dcChannel (w : Nat) (freq : Int) (tn : String) (tag : String) (lo : Bool) (del : Int) :
    Entry :=
  channel w (.dc tn) freq tag lo del

def dummyChannel (w : Nat) (freq : Int) : Entry := channel w .dummy freq "" false 0

def freq (e : Entry) : Int := e.frequency

def delayMS (e : Entry) : Int := e.scanDelayMS

def isLockedOut (e : Entry) : Bool := e.lockout != .LOCKOUT_NONE

/-- `Entry::lockout(val)`. -/
def setLockout (val : Bool) (e : Entry) : Entry := { e with lockout := lockoutOf val }

def isDummy (e : Entry) : Bool := e.type == .dummy

def modulation (e : Entry) : String :=
  match e.type with
  | .fm => "NFM"
  | .am => "AM"
  | .pl s_tone => "PL" ++ s_tone
  | .dc s_code => "DC" ++ s_code
  | .dummy => ""

/-- `key()`, which a saved hold compares. -/
def key (e : Entry) : String :=
  let channelKey := "F" ++ toString e.frequency
  match e.type with
  | .fm => channelKey ++ "FM"
  | .am => channelKey ++ "AM"
  | .pl s_tone => channelKey ++ "FM" ++ "PL" ++ s_tone
  | .dc s_code => channelKey ++ "FM" ++ "DC" ++ s_code
  | .dummy => channelKey

@[simp] theorem isLockedOut_channel (w : Nat) (type : EntryType) (f : Int) (tag : String)
    (lo : Bool) (del : Int) : (channel w type f tag lo del).isLockedOut = lo := by
  cases lo <;> rfl

@[simp] theorem isLockedOut_dummyChannel (w : Nat) (f : Int) :
    (dummyChannel w f).isLockedOut = false := rfl

@[simp] theorem isDummy_dummyChannel (w : Nat) (f : Int) : (dummyChannel w f).isDummy = true := rfl

@[simp] theorem freq_dummyChannel (w : Nat) (f : Int) : (dummyChannel w f).freq = wrap w f := rfl

end Entry

/-! ## Radio systems -/

/-- `AnalogSystem`; `numEntries` is the counter that `size()` returns. -/
structure AnalogSystem where
  tag : String
  lockout : Bool
  sysIndex : Nat
  numEntries : Nat
  entries : List Entry
  deriving DecidableEq, Repr, Inhabited

namespace AnalogSystem

/-- `AnalogSystem(tag, lo)`, before any entry is added. -/
def new (tag : String) (lo : Bool) : AnalogSystem :=
  { tag, lockout := lo, sysIndex := 0, numEntries := 0, entries := [] }

def size (s : AnalogSystem) : Nat := s.numEntries

def lockedOut (s : AnalogSystem) : Bool := s.lockout

/-- `RadioSystem::lockout(val)`. -/
def setLockout (val : Bool) (s : AnalogSystem) : AnalogSystem := { s with lockout := val }

def setSysIndex (index : Nat) (s : AnalogSystem) : AnalogSystem := { s with sysIndex := index }

def addEntry (s : AnalogSystem) (entry : Entry) : AnalogSystem :=
  { s with
    entries := s.entries ++ [{ entry with entryIndex := s.numEntries, sysIndex := s.sysIndex }]
    numEntries := s.numEntries + 1 }

/-- A system at position `i` of a list knows `i`, its entries are channels that
know their own positions, and its counter is the number of its entries. -/
structure Addressed (i : Nat) (s : AnalogSystem) : Prop where
  sysIndex : s.sysIndex = i
  numEntries : s.numEntries = s.entries.length
  channels : ∀ e ∈ s.entries, e.isDummy = false
  entries : ∀ (k : Nat) (e : Entry), s.entries[k]? = some e → e.sysIndex = i ∧ e.entryIndex = k

theorem addressed_new (tag : String) (lo : Bool) (i : Nat) :
    ((new tag lo).setSysIndex i).Addressed i :=
  ⟨rfl, rfl, fun e h => by simp [new, setSysIndex] at h,
    fun k e h => by simp [new, setSysIndex] at h⟩

theorem Addressed.addEntry {i : Nat} {s : AnalogSystem} (h : s.Addressed i) {entry : Entry}
    (hd : entry.isDummy = false) : (s.addEntry entry).Addressed i := by
  refine ⟨h.sysIndex, ?_, ?_, ?_⟩
  · simp [AnalogSystem.addEntry, h.numEntries]
  · intro e he
    simp only [AnalogSystem.addEntry, List.mem_append, List.mem_singleton] at he
    rcases he with he | rfl
    · exact h.channels e he
    · exact hd
  · intro k e hk
    simp only [AnalogSystem.addEntry] at hk
    rcases Nat.lt_trichotomy k s.entries.length with hlt | heq | hgt
    · rw [List.getElem?_append_left hlt] at hk
      exact h.entries k e hk
    · subst heq
      simp only [List.getElem?_concat_length, Option.some.injEq] at hk
      subst hk
      exact ⟨h.sysIndex, h.numEntries⟩
    · rw [List.getElem?_eq_none (by simp; omega)] at hk
      cases hk

end AnalogSystem

end PiScan.Scan

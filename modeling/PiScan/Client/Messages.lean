import PiScan.Server.Messages
import PiScan.Server.Replies

/-!
# What a client reads

The `ServerToClient` message of `proto/messages.proto` with its members of
`proto/context.proto`, as `ParseFromString` of `client/py/client.py` reads it into an
empty message.  A field that is written replaces what was read before, a text or a
message inside a message as well as a number; a field at its default is not written.

* `parse_update`: a message of the server is read back;
* `parse_flatMap`: several messages in one read are read as one, in which every field
  has the last value other than its default, and the last member stands for all.
-/

namespace PiScan.Client

open Wire Server

/-- What a field holds after another value has been read, or not been written. -/
def keep {α : Type*} [DecidableEq α] (default old new : α) : α := if new = default then old else new

@[simp] theorem keep_default {α : Type*} [DecidableEq α] (default old : α) :
    keep default old default = old := if_pos rfl

@[simp] theorem keep_same {α : Type*} [DecidableEq α] (default new : α) :
    keep default default new = new := by
  unfold keep
  split
  · next h => exact h.symm
  · rfl

theorem keep_eq_default_iff {α : Type*} [DecidableEq α] {default old new : α} :
    keep default old new = default ↔ new = default ∧ old = default := by
  unfold keep
  split
  · next h => exact ⟨fun hold => ⟨h, hold⟩, fun hboth => hboth.2⟩
  · next h => exact ⟨fun hnew => absurd hnew h, fun hboth => absurd hboth.1 h⟩

/-- A value hides the one before it unless it is the default. -/
theorem keep_eq_new_iff {α : Type*} [DecidableEq α] {default old new : α} :
    keep default old new = new ↔ (new = default → old = default) := by
  unfold keep
  split
  · next h => rw [h]; exact ⟨fun hold _ => hold, fun himp => himp rfl⟩
  · next h => exact ⟨fun _ hnew => absurd hnew h, fun _ => rfl⟩

/-- A text field; the parse fails if the bytes are no text. -/
def mergeText {α : Type*} (m : α) (set : String → α) (bs : Bytes) : α × Bool :=
  match readText bs with
  | none => (m, false)
  | some s => (set s, true)

/-! ## Messages -/

structure Entry where
  freq : BitVec 64
  systemTag : String
  entryTag : String
  modulation : String
  entryIndex : String
  lockoutType : BitVec 32
  lockoutDuration : BitVec 32
  delay : BitVec 32
  deriving DecidableEq, Repr

namespace Entry

def init : Entry :=
  { freq := 0, systemTag := "", entryTag := "", modulation := "", entryIndex := "",
    lockoutType := 0, lockoutDuration := 0, delay := 0 }

def merge (m : Entry) (f : Field) : Entry × Bool :=
  match f with
  | ⟨1, .varint n⟩ => ({ m with freq := n }, true)
  | ⟨2, .len bs⟩ => mergeText m (fun s => { m with systemTag := s }) bs
  | ⟨3, .len bs⟩ => mergeText m (fun s => { m with entryTag := s }) bs
  | ⟨4, .len bs⟩ => mergeText m (fun s => { m with modulation := s }) bs
  | ⟨5, .len bs⟩ => mergeText m (fun s => { m with entryIndex := s }) bs
  | ⟨6, .varint n⟩ => ({ m with lockoutType := n.setWidth 32 }, true)
  | ⟨7, .varint n⟩ => ({ m with lockoutDuration := n.setWidth 32 }, true)
  | ⟨8, .varint n⟩ => ({ m with delay := n.setWidth 32 }, true)
  | _ => (m, true)

def parse (m : Entry) (bs : Bytes) : Entry × Bool := parseInto merge (fun m _ _ => m) m bs

/-- What is left of `m` when `e` is read after it. -/
def mergeFrom (m e : Entry) : Entry where
  freq := keep 0 m.freq e.freq
  systemTag := keep "" m.systemTag e.systemTag
  entryTag := keep "" m.entryTag e.entryTag
  modulation := keep "" m.modulation e.modulation
  entryIndex := keep "" m.entryIndex e.entryIndex
  lockoutType := keep 0 m.lockoutType e.lockoutType
  lockoutDuration := keep 0 m.lockoutDuration e.lockoutDuration
  delay := keep 0 m.delay e.delay

/-- What the server writes of a context. -/
def ofContext (context : Machine.ScannerContext) : Entry :=
  { init with
    freq := BitVec.ofInt 64 context.frequency
    systemTag := context.systemTag
    entryTag := context.entryTag
    modulation := context.modulation
    entryIndex := cStr context.entryIndex }

end Entry

structure ScannerContext where
  state : BitVec 32
  entryData : Option Entry
  manualHold : Bool
  deriving DecidableEq, Repr

namespace ScannerContext

def SCAN : BitVec 32 := 1
def HOLD : BitVec 32 := 2
def RECEIVE : BitVec 32 := 3

def init : ScannerContext := { state := 0, entryData := none, manualHold := false }

def merge (m : ScannerContext) (f : Field) : ScannerContext × Bool :=
  match f with
  | ⟨1, .varint n⟩ => ({ m with state := n.setWidth 32 }, true)
  | ⟨2, .len bs⟩ =>
    let (e, ok) := (m.entryData.getD .init).parse bs
    ({ m with entryData := some e }, ok)
  | ⟨3, .varint n⟩ => ({ m with manualHold := n ≠ 0 }, true)
  | _ => (m, true)

def parse (m : ScannerContext) (bs : Bytes) : ScannerContext × Bool :=
  parseInto merge (fun m _ _ => m) m bs

def mergeFrom (m c : ScannerContext) : ScannerContext where
  state := keep 0 m.state c.state
  entryData :=
    match c.entryData with
    | none => m.entryData
    | some e => some ((m.entryData.getD .init).mergeFrom e)
  manualHold := keep false m.manualHold c.manualHold

def ofContext (context : Machine.ScannerContext) : ScannerContext :=
  { init with
    state := BitVec.ofInt 32 (stateNumber context.state)
    entryData := some (.ofContext context) }

end ScannerContext

structure DemodContext where
  squelch : BitVec 32
  gain : BitVec 32
  deriving DecidableEq, Repr

namespace DemodContext

def init : DemodContext := { squelch := 0, gain := 0 }

def merge (m : DemodContext) (f : Field) : DemodContext × Bool :=
  match f with
  | ⟨1, .varint n⟩ => ({ m with squelch := n.setWidth 32 }, true)
  | ⟨2, .fixed32 n⟩ => ({ m with gain := n }, true)
  | _ => (m, true)

def parse (m : DemodContext) (bs : Bytes) : DemodContext × Bool :=
  parseInto merge (fun m _ _ => m) m bs

def mergeFrom (m c : DemodContext) : DemodContext where
  squelch := keep 0 m.squelch c.squelch
  gain := keep 0 m.gain c.gain

def ofContext (context : Server.DemodContext) : DemodContext :=
  { squelch := BitVec.ofInt 32 context.squelch, gain := context.gain }

end DemodContext

structure GeneralMessage where
  type : BitVec 32
  content : String
  deriving DecidableEq, Repr

namespace GeneralMessage

def init : GeneralMessage := { type := 0, content := "" }

def merge (m : GeneralMessage) (f : Field) : GeneralMessage × Bool :=
  match f with
  | ⟨1, .varint n⟩ => ({ m with type := n.setWidth 32 }, true)
  | ⟨2, .len bs⟩ => mergeText m (fun s => { m with content := s }) bs
  | _ => (m, true)

def parse (m : GeneralMessage) (bs : Bytes) : GeneralMessage × Bool :=
  parseInto merge (fun m _ _ => m) m bs

def mergeFrom (m c : GeneralMessage) : GeneralMessage where
  type := keep 0 m.type c.type
  content := keep "" m.content c.content

def ofMessage (message : Server.GeneralMessage) : GeneralMessage :=
  { type := BitVec.ofInt 32 (typeNumber message.type), content := message.content }

end GeneralMessage

structure SystemInfo where
  version : String
  build : BitVec 32
  squelchScaleMin : BitVec 32
  squelchScaleMax : BitVec 32
  supportedModulations : List String
  deriving DecidableEq, Repr

namespace SystemInfo

def init : SystemInfo :=
  { version := "", build := 0, squelchScaleMin := 0, squelchScaleMax := 0,
    supportedModulations := [] }

def merge (m : SystemInfo) (f : Field) : SystemInfo × Bool :=
  match f with
  | ⟨1, .len bs⟩ => mergeText m (fun s => { m with version := s }) bs
  | ⟨2, .varint n⟩ => ({ m with build := n.setWidth 32 }, true)
  | ⟨3, .varint n⟩ => ({ m with squelchScaleMin := n.setWidth 32 }, true)
  | ⟨4, .varint n⟩ => ({ m with squelchScaleMax := n.setWidth 32 }, true)
  | ⟨5, .len bs⟩ =>
    mergeText m (fun s => { m with supportedModulations := m.supportedModulations ++ [s] }) bs
  | _ => (m, true)

def parse (m : SystemInfo) (bs : Bytes) : SystemInfo × Bool :=
  parseInto merge (fun m _ _ => m) m bs

/-- A repeated field grows. -/
def mergeFrom (m c : SystemInfo) : SystemInfo where
  version := keep "" m.version c.version
  build := keep 0 m.build c.build
  squelchScaleMin := keep 0 m.squelchScaleMin c.squelchScaleMin
  squelchScaleMax := keep 0 m.squelchScaleMax c.squelchScaleMax
  supportedModulations := m.supportedModulations ++ c.supportedModulations

def ofInfo (info : Server.SystemInfo) : SystemInfo where
  version := info.version
  build := BitVec.ofInt 32 info.buildNumber
  squelchScaleMin := BitVec.ofInt 32 info.squelchRange.1
  squelchScaleMax := BitVec.ofInt 32 info.squelchRange.2
  supportedModulations := info.supportedModulations

end SystemInfo

structure SignalLevel where
  level : BitVec 32
  deriving DecidableEq, Repr

namespace SignalLevel

def init : SignalLevel := { level := 0 }

def merge (m : SignalLevel) (f : Field) : SignalLevel × Bool :=
  match f with
  | ⟨1, .varint n⟩ => ({ m with level := n.setWidth 32 }, true)
  | _ => (m, true)

def parse (m : SignalLevel) (bs : Bytes) : SignalLevel × Bool :=
  parseInto merge (fun m _ _ => m) m bs

def mergeFrom (m c : SignalLevel) : SignalLevel where
  level := keep 0 m.level c.level

end SignalLevel

/-! ## The envelope -/

/-- The `oneof content`. -/
inductive ServerContent
  | notSet
  | scannerContext (m : ScannerContext)
  | demodContext (m : DemodContext)
  | generalMessage (m : GeneralMessage)
  | systemInfo (m : SystemInfo)
  | signalLevel (m : SignalLevel)
  deriving DecidableEq, Repr

namespace ServerContent

/-! The getters return an empty message where another member is set. -/

def getScannerContext : ServerContent → ScannerContext
  | scannerContext m => m
  | _ => .init

def getDemodContext : ServerContent → DemodContext
  | demodContext m => m
  | _ => .init

def getGeneralMessage : ServerContent → GeneralMessage
  | generalMessage m => m
  | _ => .init

def getSystemInfo : ServerContent → SystemInfo
  | systemInfo m => m
  | _ => .init

def getSignalLevel : ServerContent → SignalLevel
  | signalLevel m => m
  | _ => .init

/-- A member is merged into itself, and replaces another one. -/
def mergeFrom (c : ServerContent) : ServerContent → ServerContent
  | notSet => c
  | scannerContext m => scannerContext (c.getScannerContext.mergeFrom m)
  | demodContext m => demodContext (c.getDemodContext.mergeFrom m)
  | generalMessage m => generalMessage (c.getGeneralMessage.mergeFrom m)
  | systemInfo m => systemInfo (c.getSystemInfo.mergeFrom m)
  | signalLevel m => signalLevel (c.getSignalLevel.mergeFrom m)

end ServerContent

structure ServerToClient where
  handle : BitVec 32
  type : BitVec 32
  content : ServerContent
  deriving DecidableEq, Repr

/-- What `sock.recv` takes at most. -/
def RECV_LENGTH : Nat := 2048

namespace ServerToClient

def SCANNER_CONTEXT : BitVec 32 := 1
def DEMOD_CONTEXT : BitVec 32 := 2

def init : ServerToClient := { handle := 0, type := 0, content := .notSet }

def mergeContent (m : ServerToClient) (num : Nat) (bs : Bytes) : ServerToClient × Bool :=
  match num with
  | 3 =>
    let (c, ok) := m.content.getScannerContext.parse bs
    ({ m with content := .scannerContext c }, ok)
  | 4 =>
    let (c, ok) := m.content.getDemodContext.parse bs
    ({ m with content := .demodContext c }, ok)
  | 5 =>
    let (c, ok) := m.content.getGeneralMessage.parse bs
    ({ m with content := .generalMessage c }, ok)
  | 6 =>
    let (c, ok) := m.content.getSystemInfo.parse bs
    ({ m with content := .systemInfo c }, ok)
  | 7 =>
    let (c, ok) := m.content.getSignalLevel.parse bs
    ({ m with content := .signalLevel c }, ok)
  | _ => (m, true)

def merge (m : ServerToClient) (f : Field) : ServerToClient × Bool :=
  match f with
  | ⟨1, .varint n⟩ => ({ m with handle := n.setWidth 32 }, true)
  | ⟨2, .varint n⟩ => ({ m with type := n.setWidth 32 }, true)
  | ⟨num, .len bs⟩ => m.mergeContent num bs
  | _ => (m, true)

/-- `ParseFromString`; where it fails, an exception is raised. -/
def parse (bs : Bytes) : ServerToClient × Bool := parseInto merge (fun m _ _ => m) init bs

def mergeFrom (m u : ServerToClient) : ServerToClient where
  handle := keep 0 m.handle u.handle
  type := keep 0 m.type u.type
  content := m.content.mergeFrom u.content

end ServerToClient

/-- What the server writes of the content of an update. -/
def contentOf : Update → ServerContent
  | .scannerContext context => .scannerContext (.ofContext context)
  | .demodContext context => .demodContext (.ofContext context)
  | .systemMessage message => .generalMessage (.ofMessage message)
  | .systemInfo info => .systemInfo (.ofInfo info)
  | .signalLevel level => .signalLevel { level := BitVec.ofInt 32 level }

/-- The message of an update; the handle is never set. -/
def messageOf (u : Update) : ServerToClient :=
  { handle := 0, type := BitVec.ofInt 32 u.type, content := contentOf u }

/-! ## Reading a field -/

section Fields

variable {α : Type*} {f : α → Field → α × Bool} {num : Nat} {m : α}

/-- A number of 32 bits is read into the field that `set` sets and that holds `old`. -/
theorem mergeAll_keep32 {old x : BitVec 32} (set : BitVec 32 → α) (hold : set old = m)
    (h : ∀ k : BitVec 64, f m ⟨num, .varint k⟩ = (set (k.setWidth 32), true)) :
    mergeAll f m (scalar num (x.signExtend 64)) = (set (keep 0 old x), true) := by
  by_cases hx : x = 0
  · subst hx
    rw [keep_default, hold]
    rfl
  · rw [keep, if_neg hx]
    refine mergeAll_fieldUnless (fun hzero => absurd (eq_zero_of_signExtend hzero) hx) ?_
    rw [h, setWidth_signExtend]

theorem mergeAll_keep64 {old x : BitVec 64} (set : BitVec 64 → α) (hold : set old = m)
    (h : ∀ k : BitVec 64, f m ⟨num, .varint k⟩ = (set k, true)) :
    mergeAll f m (scalar num x) = (set (keep 0 old x), true) := by
  by_cases hx : x = 0
  · subst hx
    rw [keep_default, hold]
    rfl
  · rw [keep, if_neg hx]
    exact mergeAll_fieldUnless (fun hzero => absurd (eq_of_beq hzero) hx) (h x)

theorem mergeAll_keepFloat {old x : BitVec 32} (set : BitVec 32 → α) (hold : set old = m)
    (h : ∀ k : BitVec 32, f m ⟨num, .fixed32 k⟩ = (set k, true)) :
    mergeAll f m (float num x) = (set (keep 0 old x), true) := by
  by_cases hx : x = 0
  · subst hx
    rw [keep_default, hold]
    rfl
  · rw [keep, if_neg hx]
    exact mergeAll_fieldUnless (fun hzero => absurd (eq_of_beq hzero) hx) (h x)

theorem mergeText_textBytes (m : α) (set : String → α) (s : String) :
    mergeText m set (textBytes s) = (set s, true) := by
  rw [mergeText, readText_textBytes]

theorem mergeAll_keepText {old s : String} (set : String → α) (hold : set old = m)
    (h : ∀ bs, f m ⟨num, .len bs⟩ = mergeText m set bs) :
    mergeAll f m (text num s) = (set (keep "" old s), true) := by
  by_cases hs : s = ""
  · subst hs
    rw [keep_default, hold]
    rfl
  · rw [keep, if_neg hs]
    refine mergeAll_fieldUnless (fun hempty => absurd (eq_of_beq hempty) hs) ?_
    rw [h, mergeText_textBytes]

/-- A message inside a message, which `parse` reads. -/
theorem mergeAll_member {β : Type*} {fields : List Field} {b : β} (parse : Bytes → β × Bool)
    (set : β → α) (h : ∀ bs, f m ⟨num, .len bs⟩ = (set (parse bs).1, (parse bs).2))
    (hparse : parse (Wire.encode fields) = (b, true)) :
    mergeAll f m (member num fields) = (set b, true) := by
  rw [member, mergeAll, h, hparse]
  rfl

end Fields

/-! ## Reading a message -/

theorem Entry.mergeAll_entryFields (m : Entry) (context : Machine.ScannerContext) :
    mergeAll merge m (entryFields context) = (m.mergeFrom (.ofContext context), true) := by
  let e := ofContext context
  let m₁ := { m with freq := keep 0 m.freq e.freq }
  let m₂ := { m₁ with systemTag := keep "" m.systemTag e.systemTag }
  let m₃ := { m₂ with entryTag := keep "" m.entryTag e.entryTag }
  let m₄ := { m₃ with modulation := keep "" m.modulation e.modulation }
  have h₁ : mergeAll merge m (scalar 1 e.freq) = (m₁, true) :=
    mergeAll_keep64 (fun x => { m with freq := x }) rfl fun _ => rfl
  have h₂ : mergeAll merge m₁ (text 2 e.systemTag) = (m₂, true) :=
    mergeAll_keepText (fun s => { m₁ with systemTag := s }) rfl fun _ => rfl
  have h₃ : mergeAll merge m₂ (text 3 e.entryTag) = (m₃, true) :=
    mergeAll_keepText (fun s => { m₂ with entryTag := s }) rfl fun _ => rfl
  have h₄ : mergeAll merge m₃ (text 4 e.modulation) = (m₄, true) :=
    mergeAll_keepText (fun s => { m₃ with modulation := s }) rfl fun _ => rfl
  have h₅ : mergeAll merge m₄ (text 5 e.entryIndex) = (m.mergeFrom e, true) :=
    mergeAll_keepText (fun s => { m₄ with entryIndex := s }) rfl fun _ => rfl
  exact mergeAll_step (mergeAll_step (mergeAll_step (mergeAll_step h₁ h₂) h₃) h₄) h₅

/-! The field numbers are those of the format. -/

theorem numbered_entryFields (context : Machine.ScannerContext) :
    Numbered (entryFields context) :=
  ((((numbered_fieldUnless (by decide)).append (numbered_fieldUnless (by decide))).append
    (numbered_fieldUnless (by decide))).append (numbered_fieldUnless (by decide))).append
    (numbered_fieldUnless (by decide))

/-- The fields of the member that an update writes. -/
def memberFields : Update → List Field
  | .scannerContext context =>
    int32 1 (stateNumber context.state) ++ member 2 (entryFields context)
  | .demodContext context => int32 1 context.squelch ++ float 2 context.gain
  | .systemMessage message => int32 1 (typeNumber message.type) ++ text 2 message.content
  | .systemInfo info =>
    text 1 info.version ++ int32 2 info.buildNumber ++ int32 3 info.squelchRange.1 ++
      int32 4 info.squelchRange.2 ++
      info.supportedModulations.map fun s => ⟨5, .len (textBytes s)⟩
  | .signalLevel level => int32 1 level

/-- The number of the member. -/
def memberNumber : Update → Nat
  | .scannerContext _ => 3
  | .demodContext _ => 4
  | .systemMessage _ => 5
  | .systemInfo _ => 6
  | .signalLevel _ => 7

theorem content_eq (u : Update) : u.content = member (memberNumber u) (memberFields u) := by
  cases u <;> rfl

theorem numbered_memberFields (u : Update) : Numbered (memberFields u) := by
  cases u with
  | scannerContext context =>
    exact (numbered_fieldUnless (by decide)).append (numbered_singleton (by decide))
  | demodContext context =>
    exact (numbered_fieldUnless (by decide)).append (numbered_fieldUnless (by decide))
  | systemMessage message =>
    exact (numbered_fieldUnless (by decide)).append (numbered_fieldUnless (by decide))
  | systemInfo info =>
    refine ((((numbered_fieldUnless (by decide)).append (numbered_fieldUnless (by decide))).append
      (numbered_fieldUnless (by decide))).append (numbered_fieldUnless (by decide))).append ?_
    intro f hf
    obtain ⟨s, -, rfl⟩ := List.mem_map.mp hf
    exact ⟨Nat.succ_pos 4, show 5 < 2 ^ 29 by decide⟩
  | signalLevel level => exact numbered_fieldUnless (by decide)

theorem numbered_update (u : Update) : Numbered (int32 2 u.type ++ u.content) := by
  refine (numbered_fieldUnless (by decide)).append ?_
  cases u <;> exact numbered_singleton (by decide)

theorem SystemInfo.mergeAll_modulations (m : SystemInfo) (names : List String) :
    mergeAll merge m (names.map fun s => ⟨5, .len (textBytes s)⟩) =
      ({ m with supportedModulations := m.supportedModulations ++ names }, true) := by
  induction names generalizing m with
  | nil => simp [mergeAll]
  | cons s names ih =>
    have hs : merge m ⟨5, .len (textBytes s)⟩ =
        ({ m with supportedModulations := m.supportedModulations ++ [s] }, true) :=
      mergeText_textBytes m
        (fun s => { m with supportedModulations := m.supportedModulations ++ [s] }) s
    rw [List.map_cons, mergeAll, hs]
    simp [ih]

/-! ### The members -/

theorem ScannerContext.parse_memberFields (m : ScannerContext) (context : Machine.ScannerContext)
    (h : (Wire.encode (memberFields (.scannerContext context))).length < 2 ^ 31) :
    m.parse (Wire.encode (memberFields (.scannerContext context))) =
      (m.mergeFrom (.ofContext context), true) := by
  have hinner : (Wire.encode (entryFields context)).length < 2 ^ 31 :=
    Nat.lt_of_le_of_lt (length_le_encode (List.mem_append_right _
      (List.mem_singleton_self _))) h
  let m₁ := { m with state := keep 0 m.state (BitVec.ofInt 32 (stateNumber context.state)) }
  have h₁ : mergeAll merge m (int32 1 (stateNumber context.state)) = (m₁, true) :=
    mergeAll_keep32 (fun x => { m with state := x }) rfl fun _ => rfl
  have h₂ : mergeAll merge m₁ (member 2 (entryFields context)) =
      (m.mergeFrom (.ofContext context), true) := by
    have hentry : (m.entryData.getD .init).parse (Wire.encode (entryFields context)) =
        ((m.entryData.getD .init).mergeFrom (.ofContext context), true) :=
      parseInto_encode (valid_of_length (numbered_entryFields context) hinner)
        (Entry.mergeAll_entryFields _ context)
    refine (mergeAll_member (m.entryData.getD .init).parse
      (fun e => { m₁ with entryData := some e }) (fun _ => rfl) hentry).trans ?_
    simp [mergeFrom, ofContext, m₁, init]
  exact parseInto_encode (valid_of_length (numbered_memberFields _) h) (mergeAll_step h₁ h₂)

theorem DemodContext.parse_memberFields (m : DemodContext) (context : Server.DemodContext)
    (h : (Wire.encode (memberFields (.demodContext context))).length < 2 ^ 31) :
    m.parse (Wire.encode (memberFields (.demodContext context))) =
      (m.mergeFrom (.ofContext context), true) := by
  let m₁ := { m with squelch := keep 0 m.squelch (BitVec.ofInt 32 context.squelch) }
  have h₁ : mergeAll merge m (int32 1 context.squelch) = (m₁, true) :=
    mergeAll_keep32 (fun x => { m with squelch := x }) rfl fun _ => rfl
  have h₂ : mergeAll merge m₁ (float 2 context.gain) = (m.mergeFrom (.ofContext context), true) :=
    mergeAll_keepFloat (fun x => { m₁ with gain := x }) rfl fun _ => rfl
  exact parseInto_encode (valid_of_length (numbered_memberFields _) h) (mergeAll_step h₁ h₂)

theorem GeneralMessage.parse_memberFields (m : GeneralMessage) (message : Server.GeneralMessage)
    (h : (Wire.encode (memberFields (.systemMessage message))).length < 2 ^ 31) :
    m.parse (Wire.encode (memberFields (.systemMessage message))) =
      (m.mergeFrom (.ofMessage message), true) := by
  let m₁ := { m with type := keep 0 m.type (BitVec.ofInt 32 (typeNumber message.type)) }
  have h₁ : mergeAll merge m (int32 1 (typeNumber message.type)) = (m₁, true) :=
    mergeAll_keep32 (fun x => { m with type := x }) rfl fun _ => rfl
  have h₂ : mergeAll merge m₁ (text 2 message.content) = (m.mergeFrom (.ofMessage message), true) :=
    mergeAll_keepText (fun s => { m₁ with content := s }) rfl fun _ => rfl
  exact parseInto_encode (valid_of_length (numbered_memberFields _) h) (mergeAll_step h₁ h₂)

theorem SystemInfo.parse_memberFields (m : SystemInfo) (info : Server.SystemInfo)
    (h : (Wire.encode (memberFields (.systemInfo info))).length < 2 ^ 31) :
    m.parse (Wire.encode (memberFields (.systemInfo info))) =
      (m.mergeFrom (.ofInfo info), true) := by
  let i := ofInfo info
  let m₁ := { m with version := keep "" m.version i.version }
  let m₂ := { m₁ with build := keep 0 m.build i.build }
  let m₃ := { m₂ with squelchScaleMin := keep 0 m.squelchScaleMin i.squelchScaleMin }
  let m₄ := { m₃ with squelchScaleMax := keep 0 m.squelchScaleMax i.squelchScaleMax }
  have h₁ : mergeAll merge m (text 1 info.version) = (m₁, true) :=
    mergeAll_keepText (fun s => { m with version := s }) rfl fun _ => rfl
  have h₂ : mergeAll merge m₁ (int32 2 info.buildNumber) = (m₂, true) :=
    mergeAll_keep32 (fun x => { m₁ with build := x }) rfl fun _ => rfl
  have h₃ : mergeAll merge m₂ (int32 3 info.squelchRange.1) = (m₃, true) :=
    mergeAll_keep32 (fun x => { m₂ with squelchScaleMin := x }) rfl fun _ => rfl
  have h₄ : mergeAll merge m₃ (int32 4 info.squelchRange.2) = (m₄, true) :=
    mergeAll_keep32 (fun x => { m₃ with squelchScaleMax := x }) rfl fun _ => rfl
  exact parseInto_encode (valid_of_length (numbered_memberFields _) h)
    (mergeAll_step (mergeAll_step (mergeAll_step (mergeAll_step h₁ h₂) h₃) h₄)
      (m₄.mergeAll_modulations info.supportedModulations))

theorem SignalLevel.parse_memberFields (m : SignalLevel) (level : Int)
    (h : (Wire.encode (memberFields (.signalLevel level))).length < 2 ^ 31) :
    m.parse (Wire.encode (memberFields (.signalLevel level))) =
      (m.mergeFrom { level := BitVec.ofInt 32 level }, true) := by
  have h₁ : mergeAll merge m (int32 1 level) =
      (m.mergeFrom { level := BitVec.ofInt 32 level }, true) :=
    mergeAll_keep32 (fun x => { m with level := x }) rfl fun _ => rfl
  exact parseInto_encode (valid_of_length (numbered_memberFields _) h) h₁

/-! ### Updates -/

namespace ServerToClient

/-- **One more update** that is read is merged into the message. -/
theorem mergeAll_update (m : ServerToClient) (u : Update) (h : u.encode.length < 2 ^ 31) :
    mergeAll merge m (int32 2 u.type ++ u.content) = (m.mergeFrom (messageOf u), true) := by
  have hmember : (Wire.encode (memberFields u)).length < 2 ^ 31 := by
    have hmem : ⟨memberNumber u, .len (Wire.encode (memberFields u))⟩ ∈
        int32 2 u.type ++ u.content := by
      rw [content_eq]
      exact List.mem_append_right _ (List.mem_singleton_self _)
    exact Nat.lt_of_le_of_lt (length_le_encode hmem) h
  let m₁ := { m with type := keep 0 m.type (BitVec.ofInt 32 u.type) }
  have h₁ : mergeAll merge m (int32 2 u.type) = (m₁, true) :=
    mergeAll_keep32 (fun x => { m with type := x }) rfl fun _ => rfl
  refine mergeAll_step h₁ ?_
  rw [content_eq]
  cases u with
  | scannerContext context =>
    refine (mergeAll_member m.content.getScannerContext.parse
      (fun c => { m₁ with content := .scannerContext c }) (fun _ => rfl)
      (ScannerContext.parse_memberFields _ context hmember)).trans ?_
    simp [mergeFrom, messageOf, contentOf, ServerContent.mergeFrom, m₁]
  | demodContext context =>
    refine (mergeAll_member m.content.getDemodContext.parse
      (fun c => { m₁ with content := .demodContext c }) (fun _ => rfl)
      (DemodContext.parse_memberFields _ context hmember)).trans ?_
    simp [mergeFrom, messageOf, contentOf, ServerContent.mergeFrom, m₁]
  | systemMessage message =>
    refine (mergeAll_member m.content.getGeneralMessage.parse
      (fun c => { m₁ with content := .generalMessage c }) (fun _ => rfl)
      (GeneralMessage.parse_memberFields _ message hmember)).trans ?_
    simp [mergeFrom, messageOf, contentOf, ServerContent.mergeFrom, m₁]
  | systemInfo info =>
    refine (mergeAll_member m.content.getSystemInfo.parse
      (fun c => { m₁ with content := .systemInfo c }) (fun _ => rfl)
      (SystemInfo.parse_memberFields _ info hmember)).trans ?_
    simp [mergeFrom, messageOf, contentOf, ServerContent.mergeFrom, m₁]
  | signalLevel level =>
    refine (mergeAll_member m.content.getSignalLevel.parse
      (fun c => { m₁ with content := .signalLevel c }) (fun _ => rfl)
      (SignalLevel.parse_memberFields _ level hmember)).trans ?_
    simp [mergeFrom, messageOf, contentOf, ServerContent.mergeFrom, m₁]

/-- What a read of several updates leaves. -/
def mergeUpdates (m : ServerToClient) (us : List Update) : ServerToClient :=
  us.foldl (fun m u => m.mergeFrom (messageOf u)) m

theorem mergeAll_updates (m : ServerToClient) (us : List Update)
    (h : ∀ u ∈ us, u.encode.length < 2 ^ 31) :
    mergeAll merge m (us.flatMap fun u => int32 2 u.type ++ u.content) =
      (m.mergeUpdates us, true) := by
  induction us generalizing m with
  | nil => rfl
  | cons u us ih =>
    rw [List.flatMap_cons]
    exact mergeAll_step (m.mergeAll_update u (h u (List.mem_cons_self ..)))
      (ih _ fun u' hu' => h u' (List.mem_cons_of_mem u hu'))

theorem flatMap_encode (us : List Update) :
    us.flatMap Update.encode = Wire.encode (us.flatMap fun u => int32 2 u.type ++ u.content) := by
  rw [Wire.encode, List.flatMap_assoc]
  rfl

/-- **Messages in one read.**  The bytes of any updates one after the other are read as
one message, into which each of them is merged in its order. -/
theorem parse_flatMap (us : List Update) (h : (us.flatMap Update.encode).length < 2 ^ 31) :
    parse (us.flatMap Update.encode) = (init.mergeUpdates us, true) := by
  have heach : ∀ u ∈ us, u.encode.length < 2 ^ 31 := by
    intro u hu
    refine Nat.lt_of_le_of_lt ?_ h
    rw [List.flatMap_def]
    exact (List.sublist_flatten_of_mem (List.mem_map_of_mem hu)).length_le
  have hnumbered : Numbered (us.flatMap fun u => int32 2 u.type ++ u.content) := by
    intro f hf
    obtain ⟨u, -, hu⟩ := List.mem_flatMap.mp hf
    exact numbered_update u f hu
  rw [flatMap_encode] at h ⊢
  exact parseInto_encode (valid_of_length hnumbered h) (init.mergeAll_updates us heach)

theorem mergeFrom_init (u : Update) : init.mergeFrom (messageOf u) = messageOf u := by
  cases u <;>
    simp [mergeFrom, messageOf, contentOf, init, ServerContent.mergeFrom,
      ServerContent.getScannerContext, ServerContent.getDemodContext,
      ServerContent.getGeneralMessage, ServerContent.getSystemInfo, ServerContent.getSignalLevel,
      ScannerContext.mergeFrom, ScannerContext.ofContext, ScannerContext.init, Entry.mergeFrom,
      Entry.ofContext, Entry.init, DemodContext.mergeFrom, DemodContext.ofContext,
      DemodContext.init, GeneralMessage.mergeFrom, GeneralMessage.ofMessage, GeneralMessage.init,
      SystemInfo.mergeFrom, SystemInfo.ofInfo, SystemInfo.init, SignalLevel.mergeFrom,
      SignalLevel.init]

/-- **A message of the server is read back.** -/
theorem parse_update (u : Update) (h : u.encode.length < 2 ^ 31) :
    parse u.encode = (messageOf u, true) := by
  have hparse := parse_flatMap [u] (by rwa [List.flatMap_singleton])
  rw [List.flatMap_singleton] at hparse
  rw [hparse, mergeUpdates, List.foldl_cons, List.foldl_nil, mergeFrom_init]

end ServerToClient

/-! ## Several contexts in one read -/

/-- Where the context `c` leaves a field at its default, the earlier context `b` does so
too. -/
structure Hides (c b : Machine.ScannerContext) : Prop where
  state : c.state = .OTHER_STATE → b.state = .OTHER_STATE
  freq : BitVec.ofInt 64 c.frequency = 0 → BitVec.ofInt 64 b.frequency = 0
  systemTag : c.systemTag = "" → b.systemTag = ""
  entryTag : c.entryTag = "" → b.entryTag = ""
  modulation : c.modulation = "" → b.modulation = ""
  entryIndex : cStr c.entryIndex = "" → cStr b.entryIndex = ""

/-- What has been read of an entry after the contexts `cs`: a field is at its default just
where all of them leave it there. -/
structure EntryOf (cs : List Machine.ScannerContext) (e : Entry) : Prop where
  freq : e.freq = 0 ↔ ∀ c ∈ cs, BitVec.ofInt 64 c.frequency = 0
  systemTag : e.systemTag = "" ↔ ∀ c ∈ cs, c.systemTag = ""
  entryTag : e.entryTag = "" ↔ ∀ c ∈ cs, c.entryTag = ""
  modulation : e.modulation = "" ↔ ∀ c ∈ cs, c.modulation = ""
  entryIndex : e.entryIndex = "" ↔ ∀ c ∈ cs, cStr c.entryIndex = ""
  lockoutType : e.lockoutType = 0
  lockoutDuration : e.lockoutDuration = 0
  delay : e.delay = 0

structure ContextOf (cs : List Machine.ScannerContext) (s : ScannerContext) : Prop where
  state : s.state = 0 ↔ ∀ c ∈ cs, c.state = .OTHER_STATE
  entry : EntryOf cs (s.entryData.getD .init)
  manualHold : s.manualHold = false

theorem ofInt_stateNumber {X : Machine.ContextState} :
    BitVec.ofInt 32 (stateNumber X) = 0 ↔ X = .OTHER_STATE := by
  cases X <;> decide

theorem contextOf_nil : ContextOf [] .init := by
  refine ⟨?_, ⟨?_, ?_, ?_, ?_, ?_, rfl, rfl, rfl⟩, rfl⟩ <;> simp [ScannerContext.init, Entry.init]

/-- A default that one more context leaves. -/
theorem keep_default_snoc {α : Type*} [DecidableEq α] {default old : α}
    {cs : List Machine.ScannerContext} (value : Machine.ScannerContext → α)
    (h : old = default ↔ ∀ b ∈ cs, value b = default) (c : Machine.ScannerContext) :
    keep default old (value c) = default ↔ ∀ b ∈ cs ++ [c], value b = default := by
  rw [keep_eq_default_iff, h, List.forall_mem_append, List.forall_mem_singleton, and_comm]

theorem EntryOf.snoc {cs : List Machine.ScannerContext} {e : Entry} (h : EntryOf cs e)
    (c : Machine.ScannerContext) : EntryOf (cs ++ [c]) (e.mergeFrom (.ofContext c)) where
  freq := keep_default_snoc (fun c => BitVec.ofInt 64 c.frequency) h.freq c
  systemTag := keep_default_snoc (fun c => c.systemTag) h.systemTag c
  entryTag := keep_default_snoc (fun c => c.entryTag) h.entryTag c
  modulation := keep_default_snoc (fun c => c.modulation) h.modulation c
  entryIndex := keep_default_snoc (fun c => cStr c.entryIndex) h.entryIndex c
  lockoutType := h.lockoutType
  lockoutDuration := h.lockoutDuration
  delay := h.delay

theorem ContextOf.snoc {cs : List Machine.ScannerContext} {s : ScannerContext}
    (h : ContextOf cs s) (c : Machine.ScannerContext) :
    ContextOf (cs ++ [c]) (s.mergeFrom (.ofContext c)) := by
  refine ⟨?_, h.entry.snoc c, h.manualHold⟩
  have hstate : s.state = 0 ↔ ∀ b ∈ cs, BitVec.ofInt 32 (stateNumber b.state) = 0 := by
    simp only [h.state, ofInt_stateNumber]
  have hsnoc := keep_default_snoc (fun c => BitVec.ofInt 32 (stateNumber c.state)) hstate c
  simp only [ofInt_stateNumber] at hsnoc
  exact hsnoc

/-- The entry of a context replaces what was read before, where it hides it. -/
theorem EntryOf.mergeFrom_eq_iff {cs : List Machine.ScannerContext} {e : Entry}
    (h : EntryOf cs e) (c : Machine.ScannerContext) :
    e.mergeFrom (.ofContext c) = .ofContext c ↔
      ∀ b ∈ cs, (BitVec.ofInt 64 c.frequency = 0 → BitVec.ofInt 64 b.frequency = 0) ∧
        (c.systemTag = "" → b.systemTag = "") ∧ (c.entryTag = "" → b.entryTag = "") ∧
        (c.modulation = "" → b.modulation = "") ∧
        (cStr c.entryIndex = "" → cStr b.entryIndex = "") := by
  have hlock := h.lockoutType
  have hduration := h.lockoutDuration
  have hdelay := h.delay
  simp only [Entry.mergeFrom, Entry.ofContext, Entry.init, Entry.mk.injEq, keep_eq_new_iff, h.freq,
    h.systemTag, h.entryTag, h.modulation, h.entryIndex, hlock, hduration, hdelay]
  constructor
  · rintro ⟨h₁, h₂, h₃, h₄, h₅, -⟩ b hb
    exact ⟨fun hc => h₁ hc b hb, fun hc => h₂ hc b hb, fun hc => h₃ hc b hb, fun hc => h₄ hc b hb,
      fun hc => h₅ hc b hb⟩
  · intro hall
    exact ⟨fun hc b hb => (hall b hb).1 hc, fun hc b hb => (hall b hb).2.1 hc,
      fun hc b hb => (hall b hb).2.2.1 hc, fun hc b hb => (hall b hb).2.2.2.1 hc,
      fun hc b hb => (hall b hb).2.2.2.2 hc, fun _ => trivial, fun _ => trivial, fun _ => trivial⟩

theorem ContextOf.mergeFrom_eq_iff {cs : List Machine.ScannerContext} {s : ScannerContext}
    (h : ContextOf cs s) (c : Machine.ScannerContext) :
    s.mergeFrom (.ofContext c) = .ofContext c ↔ ∀ b ∈ cs, Hides c b := by
  have hentry := h.entry.mergeFrom_eq_iff c
  have hparts : s.mergeFrom (.ofContext c) = .ofContext c ↔
      keep 0 s.state (BitVec.ofInt 32 (stateNumber c.state)) =
          BitVec.ofInt 32 (stateNumber c.state) ∧
        (s.entryData.getD .init).mergeFrom (.ofContext c) = .ofContext c := by
    simp [ScannerContext.mergeFrom, ScannerContext.ofContext, ScannerContext.init,
      h.manualHold]
  rw [hparts, hentry, keep_eq_new_iff, ofInt_stateNumber, h.state]
  constructor
  · rintro ⟨hstate, hall⟩ b hb
    obtain ⟨h₁, h₂, h₃, h₄, h₅⟩ := hall b hb
    exact ⟨fun hc => hstate hc b hb, h₁, h₂, h₃, h₄, h₅⟩
  · intro hall
    exact ⟨fun hc b hb => (hall b hb).state hc, fun b hb => ⟨(hall b hb).freq,
      (hall b hb).systemTag, (hall b hb).entryTag, (hall b hb).modulation, (hall b hb).entryIndex⟩⟩

namespace ServerToClient

/-- The message that is read of some contexts. -/
theorem contextOf_mergeUpdates (cs : List Machine.ScannerContext) :
    (init.mergeUpdates (cs.map .scannerContext)).handle = 0 ∧
      ContextOf cs (init.mergeUpdates (cs.map .scannerContext)).content.getScannerContext := by
  induction cs using List.reverseRecOn with
  | nil => exact ⟨rfl, contextOf_nil⟩
  | append_singleton cs c ih =>
    rw [List.map_append, mergeUpdates, List.foldl_append]
    exact ⟨ih.1, ih.2.snoc c⟩

/-- **Which contexts the last one hides.**  Several contexts in one read are taken for the
last one just where each of its fields has a value, or none of them gives it one. -/
theorem read_last_iff (cs : List Machine.ScannerContext) (c : Machine.ScannerContext)
    (h : ((cs ++ [c]).flatMap fun c => (Update.scannerContext c).encode).length ≤ RECV_LENGTH) :
    parse ((cs ++ [c]).flatMap fun c => (Update.scannerContext c).encode) =
      (messageOf (.scannerContext c), true) ↔ ∀ b ∈ cs, Hides c b := by
  have hbytes : ((cs ++ [c]).flatMap fun c => (Update.scannerContext c).encode) =
      ((cs ++ [c]).map Update.scannerContext).flatMap Update.encode := by
    rw [List.flatMap_map]
  obtain ⟨hhandle, hcontext⟩ := contextOf_mergeUpdates cs
  rw [hbytes] at h ⊢
  rw [parse_flatMap _ (Nat.lt_of_le_of_lt h (by decide)), List.map_append, mergeUpdates,
    List.foldl_append, ← hcontext.mergeFrom_eq_iff c]
  have hmerge : (init.mergeUpdates (cs.map .scannerContext)).mergeFrom
      (messageOf (.scannerContext c)) =
      { handle := 0, type := 1, content := .scannerContext
          ((init.mergeUpdates (cs.map .scannerContext)).content.getScannerContext.mergeFrom
            (.ofContext c)) } := by
    simp only [mergeFrom, hhandle]
    rfl
  rw [List.map_singleton, List.foldl_cons, List.foldl_nil, ← mergeUpdates, hmerge]
  simp [messageOf, contentOf, Update.type]

/-- A channel of a system, and the entry of another one that has no tag. -/
def tagged : Machine.ScannerContext :=
  { state := .HOLD, systemTag := "County", entryTag := "Fire", frequency := 154250000,
    modulation := "FM", entryIndex := "0-0", delayMS := 0, lockout := false }

def untagged : Machine.ScannerContext :=
  { tagged with systemTag := "", entryTag := "", entryIndex := "1-0" }

/-- In one read, the entry without a tag is shown with those of the entry before it. -/
theorem read_last_tags :
    parse ([tagged, untagged].flatMap fun c => (Update.scannerContext c).encode) ≠
      (messageOf (.scannerContext untagged), true) := by
  intro heq
  have hhides := (read_last_iff [tagged] untagged (by decide +kernel)).mp heq tagged
    (List.mem_singleton_self _)
  exact absurd (hhides.systemTag rfl) (by decide)

end ServerToClient

end PiScan.Client

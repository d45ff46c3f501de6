import PiScan.Lib.Wire

/-!
# Client messages

The messages of `proto/request.proto` and the `ClientToServer` envelope of
`proto/messages.proto`, with their wire encodings.  Enumerations are open, so
they are plain 32-bit numbers; a float is its 32 bits.

* `parse_encode`: a message that a client encoded is read back as it was.
-/

namespace PiScan.Server

open Wire

/-! ## Requests -/

structure GeneralRequest where
  handle : BitVec 32
  type : BitVec 32
  deriving DecidableEq, Repr, Inhabited

namespace GeneralRequest

def SCANNER_CONTEXT : BitVec 32 := 0
def DEMOD_CONTEXT : BitVec 32 := 1
def SYSTEM_INFO : BitVec 32 := 2

def init : GeneralRequest := { handle := 0, type := 0 }

def fields (m : GeneralRequest) : List Field :=
  scalar 1 (m.handle.signExtend 64) ++ scalar 2 (m.type.signExtend 64)

def merge (m : GeneralRequest) (f : Field) : GeneralRequest × Bool :=
  match f with
  | ⟨1, .varint n⟩ => ({ m with handle := n.setWidth 32 }, true)
  | ⟨2, .varint n⟩ => ({ m with type := n.setWidth 32 }, true)
  | _ => (m, true)

def parse (m : GeneralRequest) (bs : Bytes) : GeneralRequest × Bool :=
  parseInto merge (fun m _ _ => m) m bs

end GeneralRequest

structure ScannerStateRequest where
  handle : BitVec 32
  state : BitVec 32
  manFreq : BitVec 64
  manModulation : String
  holdIndex : String
  deriving DecidableEq, Repr, Inhabited

namespace ScannerStateRequest

def SCAN : BitVec 32 := 0
def HOLD : BitVec 32 := 1
def MANUAL : BitVec 32 := 2

def init : ScannerStateRequest :=
  { handle := 0, state := 0, manFreq := 0, manModulation := "", holdIndex := "" }

def fields (m : ScannerStateRequest) : List Field :=
  scalar 1 (m.handle.signExtend 64) ++ scalar 2 (m.state.signExtend 64) ++
    scalar 3 m.manFreq ++ text 4 m.manModulation ++ text 5 m.holdIndex

def merge (m : ScannerStateRequest) (f : Field) : ScannerStateRequest × Bool :=
  match f with
  | ⟨1, .varint n⟩ => ({ m with handle := n.setWidth 32 }, true)
  | ⟨2, .varint n⟩ => ({ m with state := n.setWidth 32 }, true)
  | ⟨3, .varint n⟩ => ({ m with manFreq := n }, true)
  | ⟨4, .len bs⟩ =>
    match readText bs with
    | none => (m, false)
    | some s => ({ m with manModulation := s }, true)
  | ⟨5, .len bs⟩ =>
    match readText bs with
    | none => (m, false)
    | some s => ({ m with holdIndex := s }, true)
  | _ => (m, true)

def parse (m : ScannerStateRequest) (bs : Bytes) : ScannerStateRequest × Bool :=
  parseInto merge (fun m _ _ => m) m bs

end ScannerStateRequest

structure DemodRequest where
  handle : BitVec 32
  type : BitVec 32
  level : BitVec 32
  deriving DecidableEq, Repr, Inhabited

namespace DemodRequest

def SET_SQUELCH : BitVec 32 := 0
def SET_GAIN : BitVec 32 := 1

def init : DemodRequest := { handle := 0, type := 0, level := 0 }

def fields (m : DemodRequest) : List Field :=
  scalar 1 (m.handle.signExtend 64) ++ scalar 2 (m.type.signExtend 64) ++ float 3 m.level

def merge (m : DemodRequest) (f : Field) : DemodRequest × Bool :=
  match f with
  | ⟨1, .varint n⟩ => ({ m with handle := n.setWidth 32 }, true)
  | ⟨2, .varint n⟩ => ({ m with type := n.setWidth 32 }, true)
  | ⟨3, .fixed32 n⟩ => ({ m with level := n }, true)
  | _ => (m, true)

def parse (m : DemodRequest) (bs : Bytes) : DemodRequest × Bool :=
  parseInto merge (fun m _ _ => m) m bs

end DemodRequest

structure LockoutRequest where
  entryIndex : String
  lockoutType : BitVec 32
  lockoutDuration : BitVec 32
  deriving DecidableEq, Repr, Inhabited

namespace LockoutRequest

def init : LockoutRequest := { entryIndex := "", lockoutType := 0, lockoutDuration := 0 }

def fields (m : LockoutRequest) : List Field :=
  text 1 m.entryIndex ++ scalar 2 (m.lockoutType.signExtend 64) ++
    scalar 3 (m.lockoutDuration.signExtend 64)

def merge (m : LockoutRequest) (f : Field) : LockoutRequest × Bool :=
  match f with
  | ⟨1, .len bs⟩ =>
    match readText bs with
    | none => (m, false)
    | some s => ({ m with entryIndex := s }, true)
  | ⟨2, .varint n⟩ => ({ m with lockoutType := n.setWidth 32 }, true)
  | ⟨3, .varint n⟩ => ({ m with lockoutDuration := n.setWidth 32 }, true)
  | _ => (m, true)

def parse (m : LockoutRequest) (bs : Bytes) : LockoutRequest × Bool :=
  parseInto merge (fun m _ _ => m) m bs

end LockoutRequest

/-! ## The envelope -/

/-- The `oneof content`. -/
inductive Content
  | notSet
  | generalRequest (m : GeneralRequest)
  | scanStateRequest (m : ScannerStateRequest)
  | demodRequest (m : DemodRequest)
  | lockoutRequest (m : LockoutRequest)
  deriving DecidableEq, Repr, Inhabited

structure ClientToServer where
  type : BitVec 32
  content : Content
  deriving DecidableEq, Repr, Inhabited

namespace ClientToServer

def GENERAL_REQUEST : BitVec 32 := 0
def SCANNER_STATE_REQUEST : BitVec 32 := 1
def DEMOD_REQUEST : BitVec 32 := 2
def LOCKOUT_REQUEST : BitVec 32 := 3

def init : ClientToServer := { type := 0, content := .notSet }

/-! The getters return an empty message where another member is set. -/

def generalRequest (m : ClientToServer) : GeneralRequest :=
  match m.content with
  | .generalRequest r => r
  | _ => .init

def scanStateRequest (m : ClientToServer) : ScannerStateRequest :=
  match m.content with
  | .scanStateRequest r => r
  | _ => .init

def demodRequest (m : ClientToServer) : DemodRequest :=
  match m.content with
  | .demodRequest r => r
  | _ => .init

def lockoutRequest (m : ClientToServer) : LockoutRequest :=
  match m.content with
  | .lockoutRequest r => r
  | _ => .init

def contentFields : Content → List Field
  | .notSet => []
  | .generalRequest r => [⟨2, .len (Wire.encode r.fields)⟩]
  | .scanStateRequest r => [⟨3, .len (Wire.encode r.fields)⟩]
  | .demodRequest r => [⟨4, .len (Wire.encode r.fields)⟩]
  | .lockoutRequest r => [⟨5, .len (Wire.encode r.fields)⟩]

def fields (m : ClientToServer) : List Field :=
  scalar 1 (m.type.signExtend 64) ++ contentFields m.content

def encode (m : ClientToServer) : Bytes := Wire.encode m.fields

/-- The bytes of a member of the `oneof`, merged into it if it is set already. -/
def mergeContent (m : ClientToServer) (num : Nat) (bs : Bytes) : ClientToServer × Bool :=
  match num with
  | 2 => let (r, ok) := m.generalRequest.parse bs; ({ m with content := .generalRequest r }, ok)
  | 3 => let (r, ok) := m.scanStateRequest.parse bs; ({ m with content := .scanStateRequest r }, ok)
  | 4 => let (r, ok) := m.demodRequest.parse bs; ({ m with content := .demodRequest r }, ok)
  | 5 => let (r, ok) := m.lockoutRequest.parse bs; ({ m with content := .lockoutRequest r }, ok)
  | _ => (m, true)

def merge (m : ClientToServer) (f : Field) : ClientToServer × Bool :=
  match f with
  | ⟨1, .varint n⟩ => ({ m with type := n.setWidth 32 }, true)
  | ⟨num, .len bs⟩ => m.mergeContent num bs
  | _ => (m, true)

/-- `ParseFromArray` into a new message. -/
def parse (bs : Bytes) : ClientToServer × Bool :=
  parseInto merge (fun m num bs => (m.mergeContent num bs).1) init bs

end ClientToServer

/-! ## Round trips -/

/-- A 32-bit number as a varint, into the field that `set` sets. -/
theorem mergeAll_int32 {α : Type*} {f : α → Field → α × Bool} {n : Nat} {m : α}
    {x : BitVec 32} (set : BitVec 32 → α) (h0 : m = set 0)
    (h : ∀ k : BitVec 64, f m ⟨n, .varint k⟩ = (set (k.setWidth 32), true)) :
    mergeAll f m (scalar n (x.signExtend 64)) = (set x, true) := by
  refine mergeAll_fieldUnless ?_ ?_
  · intro hx
    rw [eq_zero_of_signExtend hx, h0]
  · rw [h, setWidth_signExtend]

theorem mergeAll_text {α : Type*} {f : α → Field → α × Bool} {n : Nat} {m : α}
    {s : String} (set : String → α) (h0 : m = set "")
    (h : ∀ bs s, readText bs = some s → f m ⟨n, .len bs⟩ = (set s, true)) :
    mergeAll f m (text n s) = (set s, true) := by
  refine mergeAll_fieldUnless ?_ (h _ _ (readText_textBytes s))
  intro hs
  rw [eq_of_beq hs, h0]

theorem mergeAll_scalar {α : Type*} {f : α → Field → α × Bool} {n : Nat} {m : α}
    {x : BitVec 64} (set : BitVec 64 → α) (h0 : m = set 0)
    (h : ∀ k : BitVec 64, f m ⟨n, .varint k⟩ = (set k, true)) :
    mergeAll f m (scalar n x) = (set x, true) := by
  refine mergeAll_fieldUnless ?_ (h x)
  intro hx
  rw [eq_of_beq hx, h0]

theorem GeneralRequest.mergeAll_fields (m : GeneralRequest) :
    mergeAll merge .init m.fields = (m, true) := by
  have h₁ := mergeAll_int32 (f := merge) (n := 1) (m := .init) (x := m.handle)
    (fun x => ⟨x, 0⟩) rfl fun _ => rfl
  have h₂ := mergeAll_int32 (f := merge) (n := 2) (m := ⟨m.handle, 0⟩) (x := m.type)
    (fun x => ⟨m.handle, x⟩) rfl fun _ => rfl
  exact mergeAll_step h₁ h₂

theorem ScannerStateRequest.mergeAll_fields (m : ScannerStateRequest) :
    mergeAll merge .init m.fields = (m, true) := by
  have h₁ := mergeAll_int32 (f := merge) (n := 1) (m := .init) (x := m.handle)
    (fun x => ⟨x, 0, 0, "", ""⟩) rfl fun _ => rfl
  have h₂ := mergeAll_int32 (f := merge) (n := 2) (m := ⟨m.handle, 0, 0, "", ""⟩)
    (x := m.state) (fun x => ⟨m.handle, x, 0, "", ""⟩) rfl fun _ => rfl
  have h₃ := mergeAll_scalar (f := merge) (n := 3) (m := ⟨m.handle, m.state, 0, "", ""⟩)
    (x := m.manFreq) (fun x => ⟨m.handle, m.state, x, "", ""⟩) rfl fun _ => rfl
  have h₄ := mergeAll_text (f := merge) (n := 4)
    (m := ⟨m.handle, m.state, m.manFreq, "", ""⟩) (s := m.manModulation)
    (fun s => ⟨m.handle, m.state, m.manFreq, s, ""⟩) rfl fun bs s h => by simp [merge, h]
  have h₅ := mergeAll_text (f := merge) (n := 5)
    (m := ⟨m.handle, m.state, m.manFreq, m.manModulation, ""⟩) (s := m.holdIndex)
    (fun s => ⟨m.handle, m.state, m.manFreq, m.manModulation, s⟩) rfl
    fun bs s h => by simp [merge, h]
  exact mergeAll_step (mergeAll_step (mergeAll_step (mergeAll_step h₁ h₂) h₃) h₄) h₅

theorem DemodRequest.mergeAll_fields (m : DemodRequest) :
    mergeAll merge .init m.fields = (m, true) := by
  have h₁ := mergeAll_int32 (f := merge) (n := 1) (m := .init) (x := m.handle)
    (fun x => ⟨x, 0, 0⟩) rfl fun _ => rfl
  have h₂ := mergeAll_int32 (f := merge) (n := 2) (m := ⟨m.handle, 0, 0⟩) (x := m.type)
    (fun x => ⟨m.handle, x, 0⟩) rfl fun _ => rfl
  have h₃ : mergeAll merge ⟨m.handle, m.type, 0⟩ (float 3 m.level) = (m, true) := by
    refine mergeAll_fieldUnless ?_ rfl
    intro h
    rw [← eq_of_beq h]
  exact mergeAll_step (mergeAll_step h₁ h₂) h₃

theorem LockoutRequest.mergeAll_fields (m : LockoutRequest) :
    mergeAll merge .init m.fields = (m, true) := by
  have h₁ := mergeAll_text (f := merge) (n := 1) (m := .init) (s := m.entryIndex)
    (fun s => ⟨s, 0, 0⟩) rfl fun bs s h => by simp [merge, h, init]
  have h₂ := mergeAll_int32 (f := merge) (n := 2) (m := ⟨m.entryIndex, 0, 0⟩)
    (x := m.lockoutType) (fun x => ⟨m.entryIndex, x, 0⟩) rfl fun _ => rfl
  have h₃ := mergeAll_int32 (f := merge) (n := 3) (m := ⟨m.entryIndex, m.lockoutType, 0⟩)
    (x := m.lockoutDuration) (fun x => ⟨m.entryIndex, m.lockoutType, x⟩) rfl fun _ => rfl
  exact mergeAll_step (mergeAll_step h₁ h₂) h₃

/-! The field numbers are those of the format. -/

theorem GeneralRequest.numbered_fields (m : GeneralRequest) : Numbered m.fields :=
  (numbered_fieldUnless (by decide)).append (numbered_fieldUnless (by decide))

theorem ScannerStateRequest.numbered_fields (m : ScannerStateRequest) : Numbered m.fields :=
  ((((numbered_fieldUnless (by decide)).append (numbered_fieldUnless (by decide))).append
    (numbered_fieldUnless (by decide))).append (numbered_fieldUnless (by decide))).append
    (numbered_fieldUnless (by decide))

theorem DemodRequest.numbered_fields (m : DemodRequest) : Numbered m.fields :=
  ((numbered_fieldUnless (by decide)).append (numbered_fieldUnless (by decide))).append
    (numbered_fieldUnless (by decide))

theorem LockoutRequest.numbered_fields (m : LockoutRequest) : Numbered m.fields :=
  ((numbered_fieldUnless (by decide)).append (numbered_fieldUnless (by decide))).append
    (numbered_fieldUnless (by decide))

theorem ClientToServer.numbered_fields (m : ClientToServer) : Numbered m.fields := by
  refine (numbered_fieldUnless (by decide)).append ?_
  unfold contentFields
  split
  · exact fun f hf => by simp at hf
  · exact numbered_singleton (by decide)
  · exact numbered_singleton (by decide)
  · exact numbered_singleton (by decide)
  · exact numbered_singleton (by decide)

/-! The members of the `oneof` are read back. -/

theorem GeneralRequest.parse_encode (m : GeneralRequest) (h : (encode m.fields).length < 2 ^ 31) :
    GeneralRequest.init.parse (encode m.fields) = (m, true) :=
  parseInto_encode (valid_of_length m.numbered_fields h) m.mergeAll_fields

theorem ScannerStateRequest.parse_encode (m : ScannerStateRequest) (h : (encode m.fields).length < 2 ^ 31) :
    ScannerStateRequest.init.parse (encode m.fields) = (m, true) :=
  parseInto_encode (valid_of_length m.numbered_fields h) m.mergeAll_fields

theorem DemodRequest.parse_encode (m : DemodRequest) (h : (encode m.fields).length < 2 ^ 31) :
    DemodRequest.init.parse (encode m.fields) = (m, true) :=
  parseInto_encode (valid_of_length m.numbered_fields h) m.mergeAll_fields

theorem LockoutRequest.parse_encode (m : LockoutRequest) (h : (encode m.fields).length < 2 ^ 31) :
    LockoutRequest.init.parse (encode m.fields) = (m, true) :=
  parseInto_encode (valid_of_length m.numbered_fields h) m.mergeAll_fields

theorem ClientToServer.mergeAll_contentFields (type : BitVec 32) (c : Content)
    (h : (Wire.encode (contentFields c)).length < 2 ^ 31) :
    mergeAll merge ⟨type, .notSet⟩ (contentFields c) = (⟨type, c⟩, true) := by
  cases c with
  | notSet => rfl
  | generalRequest r =>
    have hr := r.parse_encode
      (Nat.lt_of_le_of_lt (length_le_encode (List.mem_singleton_self _)) h)
    simp [contentFields, mergeAll, merge, mergeContent, generalRequest, hr]
  | scanStateRequest r =>
    have hr := r.parse_encode
      (Nat.lt_of_le_of_lt (length_le_encode (List.mem_singleton_self _)) h)
    simp [contentFields, mergeAll, merge, mergeContent, scanStateRequest, hr]
  | demodRequest r =>
    have hr := r.parse_encode
      (Nat.lt_of_le_of_lt (length_le_encode (List.mem_singleton_self _)) h)
    simp [contentFields, mergeAll, merge, mergeContent, demodRequest, hr]
  | lockoutRequest r =>
    have hr := r.parse_encode
      (Nat.lt_of_le_of_lt (length_le_encode (List.mem_singleton_self _)) h)
    simp [contentFields, mergeAll, merge, mergeContent, lockoutRequest, hr]

/-- **A message that a client encoded is read back as it was.** -/
theorem ClientToServer.parse_encode (m : ClientToServer) (h : m.encode.length < 2 ^ 31) :
    ClientToServer.parse m.encode = (m, true) := by
  have hcontent : (Wire.encode (contentFields m.content)).length < 2 ^ 31 := by
    refine Nat.lt_of_le_of_lt ?_ h
    simp [encode, fields, Wire.encode]
  have h₁ := mergeAll_int32 (f := merge) (n := 1) (m := .init) (x := m.type)
    (fun x => ⟨x, .notSet⟩) rfl fun _ => rfl
  exact parseInto_encode (valid_of_length m.numbered_fields h)
    (mergeAll_step h₁ (mergeAll_contentFields m.type m.content hcontent))

/-- A message cut down to one byte is read as an empty message. -/
theorem ClientToServer.parse_single (b : UInt8) : ClientToServer.parse [b] = (.init, false) :=
  parseInto_single _ b

end PiScan.Server

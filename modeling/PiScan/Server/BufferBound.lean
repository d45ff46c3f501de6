import PiScan.Lib.WireSize
import PiScan.Server.WriteBuffer

/-!
# The bound of the write buffer

What the calls of `server/connection/SocketConnection.cpp` hand to `_startWrite`:
each ends in `msg.SerializeToArray(_writeBuffer, WRITE_BUFFER_LENGTH)`, whose
answer nobody looks at, and `_startWrite(_writeBuffer, msg.ByteSize())`.
`SerializeToArray` is a parameter, with what its documentation promises
(`Serializes`).

* `length_encode`: the encoding of an update, counted from the lengths of its texts;
* `sent_whole_iff`: what is sent lies inside the buffer, and is the message,
  exactly for the updates that these lengths leave room for;
* `scannerContext_fits`: they do for a context with short texts.
-/

namespace PiScan.Server

open Wire Machine

/-! ## The size of an update -/

def int32Size (num : Nat) (n : Int) : Nat :=
  scalarSize num ((BitVec.ofInt 32 n).signExtend 64)

/-- The `Entry` of a scanner context. -/
def entrySize (context : ScannerContext) : Nat :=
  scalarSize 1 (BitVec.ofInt 64 context.frequency) + textSize 2 context.systemTag.utf8ByteSize +
    textSize 3 context.entryTag.utf8ByteSize + textSize 4 context.modulation.utf8ByteSize +
    textSize 5 (cStr context.entryIndex).utf8ByteSize

namespace Update

/-- The size of the `oneof content`. -/
def contentSize : Update → Nat
  | scannerContext context =>
    memberSize 3 (int32Size 1 (stateNumber context.state) + memberSize 2 (entrySize context))
  | demodContext context => memberSize 4 (int32Size 1 context.squelch + floatSize 2 context.gain)
  | systemMessage message =>
    memberSize 5 (int32Size 1 (typeNumber message.type) + textSize 2 message.content.utf8ByteSize)
  | systemInfo info =>
    memberSize 6 (textSize 1 info.version.utf8ByteSize + int32Size 2 info.buildNumber +
      int32Size 3 info.squelchRange.1 + int32Size 4 info.squelchRange.2 +
      (info.supportedModulations.map fun s => memberSize 5 s.utf8ByteSize).sum)
  | signalLevel level => memberSize 7 (int32Size 1 level)

/-- The size of the message, from the lengths of its texts and its numbers. -/
def encodedSize (u : Update) : Nat := int32Size 2 u.type + u.contentSize

end Update

theorem length_int32 (num : Nat) (n : Int) :
    (Wire.encode (int32 num n)).length = int32Size num n := length_scalar _ _

theorem length_member (num : Nat) (fields : List Field) :
    (Wire.encode (member num fields)).length = memberSize num (Wire.encode fields).length :=
  length_len _ _

theorem length_entryFields (context : ScannerContext) :
    (Wire.encode (entryFields context)).length = entrySize context := by
  simp only [entryFields, length_encode_append, length_scalar, length_text, entrySize]

/-- The names of the modulations, each a field of its own. -/
theorem length_modulations (num : Nat) (names : List String) :
    (Wire.encode (names.map fun s => ⟨num, .len (textBytes s)⟩)).length =
      (names.map fun s => memberSize num s.utf8ByteSize).sum := by
  induction names with
  | nil => rfl
  | cons s names ih =>
    have hcons : ((s :: names).map fun s => (⟨num, .len (textBytes s)⟩ : Field)) =
        [⟨num, .len (textBytes s)⟩] ++ names.map fun s => ⟨num, .len (textBytes s)⟩ := rfl
    rw [hcons, length_encode_append, length_len, ih, length_textBytes, List.map_cons, List.sum_cons]

theorem Update.length_content (u : Update) :
    (Wire.encode u.content).length = u.contentSize := by
  cases u with
  | scannerContext context =>
    simp only [content, contentSize, length_member, length_encode_append, length_int32,
      length_entryFields]
  | demodContext context =>
    simp only [content, contentSize, length_member, length_encode_append, length_int32,
      length_float]
  | systemMessage message =>
    simp only [content, contentSize, length_member, length_encode_append, length_int32, length_text]
  | systemInfo info =>
    simp only [content, contentSize, length_member, length_encode_append, length_int32, length_text,
      length_modulations]
  | signalLevel level => simp only [content, contentSize, length_member, length_int32]

/-- **The length of a message.** -/
theorem Update.length_encode (u : Update) : u.encode.length = u.encodedSize := by
  rw [encode, length_encode_append, length_int32, length_content, encodedSize]

namespace SocketConnection

/-! ## What is handed over -/

/-- `SerializeToArray(_writeBuffer, WRITE_BUFFER_LENGTH)` of protobuf: the message
is written to the front of the buffer if it fits, and else the call fails. -/
structure Serializes (serializeToArray : Bytes → WriteBuffer → WriteBuffer × Bool) : Prop where
  fits : ∀ msg b, msg.length ≤ WRITE_BUFFER_LENGTH →
    msg <+: (serializeToArray msg b).1.bytes ∧ (serializeToArray msg b).2 = true
  tooLong : ∀ msg b, WRITE_BUFFER_LENGTH < msg.length → (serializeToArray msg b).2 = false

/-- `_startWrite(buffer, length)`. -/
structure StartWrite where
  buffer : WriteBuffer
  length : Nat

/-- The end of a call for the message `msg`: the answer of `SerializeToArray` is
not looked at, and `ByteSize` is the length of the whole message. -/
def send (serializeToArray : Bytes → WriteBuffer → WriteBuffer × Bool) (msg : Bytes)
    (writeBuffer : WriteBuffer) : Option StartWrite :=
  some { buffer := (serializeToArray msg writeBuffer).1, length := msg.length }

/-- `contextUpdate`, `handleSystemMessage`, `handleSystemInfo` and
`handleSignalLevel`. -/
def handle (serializeToArray : Bytes → WriteBuffer → WriteBuffer × Bool) (u : Update)
    (writeBuffer : WriteBuffer) : Option StartWrite :=
  send serializeToArray u.encode writeBuffer

/-- Nothing is sent, or the bytes are inside the buffer and are the message. -/
def SentWhole (u : Update) (sent : Option StartWrite) : Prop :=
  ∀ w ∈ sent, w.length ≤ WRITE_BUFFER_LENGTH ∧ w.buffer.bytes.take w.length = u.encode

variable {serializeToArray : Bytes → WriteBuffer → WriteBuffer × Bool}

/-- A message that is too long is sent from beyond the buffer. -/
theorem length_le_of_sentWhole {u : Update} {b : WriteBuffer}
    (h : SentWhole u (handle serializeToArray u b)) : u.encode.length ≤ WRITE_BUFFER_LENGTH :=
  (h _ rfl).1

/-- **What is sent** is the message, from inside the buffer, just where the texts
and numbers of the update take no more bytes than the buffer has. -/
theorem sent_whole_iff (h : Serializes serializeToArray) (u : Update) (b : WriteBuffer) :
    SentWhole u (handle serializeToArray u b) ↔ u.encodedSize ≤ WRITE_BUFFER_LENGTH := by
  rw [← u.length_encode]
  constructor
  · exact length_le_of_sentWhole
  · intro hle w hw
    obtain rfl := Option.some.inj hw
    obtain ⟨rest, hrest⟩ := (h.fits u.encode b hle).1
    refine ⟨hle, ?_⟩
    show (serializeToArray u.encode b).1.bytes.take u.encode.length = u.encode
    rw [← hrest, List.take_left]

/-- The texts of a scanner context may take 973 bytes together. -/
theorem scannerContext_fits {context : ScannerContext}
    (h : context.systemTag.utf8ByteSize + context.entryTag.utf8ByteSize +
      context.modulation.utf8ByteSize + (cStr context.entryIndex).utf8ByteSize ≤ 973) :
    (Update.scannerContext context).encodedSize ≤ WRITE_BUFFER_LENGTH := by
  have hsystem : textSize 2 context.systemTag.utf8ByteSize ≤ context.systemTag.utf8ByteSize + 3 :=
    textSize_le (by omega) (by omega)
  have hentry : textSize 3 context.entryTag.utf8ByteSize ≤ context.entryTag.utf8ByteSize + 3 :=
    textSize_le (by omega) (by omega)
  have hmodulation : textSize 4 context.modulation.utf8ByteSize ≤
      context.modulation.utf8ByteSize + 3 := textSize_le (by omega) (by omega)
  have hindex : textSize 5 (cStr context.entryIndex).utf8ByteSize ≤
      (cStr context.entryIndex).utf8ByteSize + 3 := textSize_le (by omega) (by omega)
  have hfreq : scalarSize 1 (BitVec.ofInt 64 context.frequency) ≤ 11 := scalarSize_le (by omega) _
  have hstate : int32Size 1 (stateNumber context.state) ≤ 11 := scalarSize_le (by omega) _
  have htype : int32Size 2 (Update.scannerContext context).type ≤ 11 := scalarSize_le (by omega) _
  -- the entry inside the context inside the message
  have hinner : entrySize context ≤ 973 + 12 + 11 := by
    rw [entrySize]
    omega
  have hmember : memberSize 2 (entrySize context) ≤ entrySize context + 3 :=
    memberSize_le (by omega) (by omega)
  have hcontent : memberSize 3 (int32Size 1 (stateNumber context.state) +
      memberSize 2 (entrySize context)) ≤
        int32Size 1 (stateNumber context.state) + memberSize 2 (entrySize context) + 3 :=
    memberSize_le (by omega) (by omega)
  have hlength : WRITE_BUFFER_LENGTH = 1024 := rfl
  rw [Update.encodedSize, Update.contentSize]
  omega

/-! ## A serializer -/

/-- The bytes of a message that fits over the front of the buffer. -/
def overwrite (msg : Bytes) (b : WriteBuffer) (h : msg.length ≤ WRITE_BUFFER_LENGTH) :
    WriteBuffer where
  bytes := msg ++ b.bytes.drop msg.length
  size := by
    have hb := b.size
    rw [List.length_append, List.length_drop]
    omega

def serializeOrFail (msg : Bytes) (b : WriteBuffer) : WriteBuffer × Bool :=
  if h : msg.length ≤ WRITE_BUFFER_LENGTH then (overwrite msg b h, true) else (b, false)

theorem serializes_serializeOrFail : Serializes serializeOrFail := by
  constructor
  case fits =>
    intro msg b hle
    simp only [serializeOrFail, dif_pos hle]
    exact ⟨⟨_, rfl⟩, trivial⟩
  case tooLong =>
    intro msg b hlt
    have hnot : ¬ msg.length ≤ WRITE_BUFFER_LENGTH := by omega
    simp only [serializeOrFail, dif_neg hnot]

/-- A tag of `n` letters. -/
def tag (n : Nat) : String := String.ofList (List.replicate n 'a')

theorem utf8ByteSize_tag (n : Nat) : (tag n).utf8ByteSize = n := by
  induction n with
  | zero => rfl
  | succ n ih =>
    have hsnoc : tag (n + 1) = tag n ++ "a" := by
      rw [tag, List.replicate_succ', String.ofList_append]
      rfl
    rw [hsnoc, String.utf8ByteSize_append, ih]
    rfl

/-- A channel with a system tag and an entry tag of `n` letters each. -/
def tagged (n : Nat) : Update :=
  .scannerContext
    { state := .SCAN, systemTag := tag n, entryTag := tag n, frequency := 155475000,
      modulation := "FM", entryIndex := "0-0", delayMS := 2000, lockout := false }

theorem encodedSize_tagged (n : Nat) :
    (tagged n).encodedSize =
      2 + memberSize 3 (2 + memberSize 2 (5 + textSize 2 n + textSize 3 n + 4 + 5)) := by
  simp only [tagged, Update.encodedSize, Update.contentSize, entrySize, utf8ByteSize_tag]
  rfl

theorem sent_whole_tagged :
    SentWhole (tagged 400) (handle serializeOrFail (tagged 400) Sending.zeroed) := by
  apply (sent_whole_iff serializes_serializeOrFail (tagged 400) Sending.zeroed).mpr
  rw [encodedSize_tagged]
  decide

/-- Two tags that are each shorter than the buffer: more bytes are handed over
than the buffer has. -/
theorem sent_beyond_buffer :
    Serializes serializeOrFail ∧
      ¬ SentWhole (tagged 600) (handle serializeOrFail (tagged 600) Sending.zeroed) := by
  refine ⟨serializes_serializeOrFail, ?_⟩
  intro h
  have hle := length_le_of_sentWhole h
  rw [Update.length_encode, encodedSize_tagged] at hle
  exact absurd hle (by decide)

end SocketConnection

end PiScan.Server

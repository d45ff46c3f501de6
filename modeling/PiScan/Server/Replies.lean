import PiScan.Lib.Wire
import PiScan.Machine.ScannerSM

/-!
# Server messages

The calls with which the server updates a client, the `ServerToClient` message
that `SocketConnection` builds for each of them, and its wire encoding
(`proto/messages.proto`, `proto/context.proto`).  Fields that the code never
sets keep their defaults and are not written.
-/

namespace PiScan.Server

open Wire Machine

/-- `context::DemodContext`; the gain is the 32 bits of the float. -/
structure DemodContext where
  gain : BitVec 32
  squelch : Int
  deriving DecidableEq, Repr, Inhabited

/-- `GeneralMessage::MessageType`. -/
inductive MessageType
  | INFO
  | WARNING
  | ERROR
  deriving DecidableEq, Repr, Inhabited

/-- `context::GeneralMessage`. -/
structure GeneralMessage where
  type : MessageType
  content : String
  deriving DecidableEq, Repr, Inhabited

/-- `context::SystemInfo`. -/
structure SystemInfo where
  version : String
  buildNumber : Int
  squelchRange : Int × Int
  supportedModulations : List String
  deriving DecidableEq, Repr, Inhabited

/-- The calls of a connection that send a message. -/
inductive Update
  | scannerContext (context : ScannerContext)
  | demodContext (context : DemodContext)
  | systemMessage (message : GeneralMessage)
  | systemInfo (info : SystemInfo)
  | signalLevel (level : Int)
  deriving DecidableEq, Repr

/-- An `int32` field, or an enumeration. -/
def int32 (num : Nat) (n : Int) : List Field := scalar num ((BitVec.ofInt 32 n).signExtend 64)

/-- A member that is a message is written even when it is empty. -/
def member (num : Nat) (fields : List Field) : List Field := [⟨num, .len (Wire.encode fields)⟩]

/-- `c_str()`: the text up to its first null character. -/
def cStr (s : String) : String := String.ofList (s.toList.takeWhile (· ≠ '\x00'))

/-- `ScannerContext_State`. -/
def stateNumber : ContextState → Int
  | .OTHER_STATE => 0
  | .SCAN => 1
  | .HOLD => 2
  | .RECEIVE => 3

/-- `GeneralMessage_Type`. -/
def typeNumber : MessageType → Int
  | .INFO => 0
  | .WARNING => 1
  | .ERROR => 2

/-- The `Entry` of a scanner context. -/
def entryFields (context : ScannerContext) : List Field :=
  scalar 1 (BitVec.ofInt 64 context.frequency) ++ text 2 context.systemTag ++
    text 3 context.entryTag ++ text 4 context.modulation ++ text 5 (cStr context.entryIndex)

namespace Update

/-- `ServerToClient_Type`. -/
def type : Update → Int
  | systemInfo _ => 0
  | scannerContext _ => 1
  | demodContext _ => 2
  | systemMessage _ => 3
  | signalLevel _ => 4

/-- The `oneof content`. -/
def content : Update → List Field
  | scannerContext context =>
    member 3 (int32 1 (stateNumber context.state) ++ member 2 (entryFields context))
  | demodContext context => member 4 (int32 1 context.squelch ++ float 2 context.gain)
  | systemMessage message =>
    member 5 (int32 1 (typeNumber message.type) ++ text 2 message.content)
  | systemInfo info =>
    member 6 (text 1 info.version ++ int32 2 info.buildNumber ++ int32 3 info.squelchRange.1 ++
      int32 4 info.squelchRange.2 ++
      info.supportedModulations.map fun s => ⟨5, .len (textBytes s)⟩)
  | signalLevel level => member 7 (int32 1 level)

/-- The message that `SocketConnection` serialises for a call. -/
def encode (u : Update) : Bytes := Wire.encode (int32 2 u.type ++ u.content)

end Update

end PiScan.Server

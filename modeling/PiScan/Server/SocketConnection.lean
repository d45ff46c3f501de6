import PiScan.Server.Messages

/-!
# Reads of a socket connection

`_handleRead` of `server/connection/SocketConnection.cpp` and the request
handlers it calls.  Every read is parsed as one message of its own, and what the
parser made of it is dispatched whether or not the parse succeeded.

* `serve_whole`: reads that are whole messages dispatch the requests of these
  messages;
* `serve_single`: a stream in single bytes dispatches one `getScannerContext`
  for each byte;
* `segmentation_iff`: so no message sequence but the empty one is served the
  same under every segmentation.
-/

namespace PiScan.Server

open Wire

/-! ## Dispatch -/

/-- The requests of `Connection`.  `scanManualEntry` comes with the default of
its second parameter; levels are the floats that were sent. -/
inductive Request
  | getScannerContext
  | getDemodContext
  | getSystemInfo
  | scanStart
  | scanHold
  | scanManualEntry (freq : BitVec 64) (mode : String)
  | setDemodSquelch (level : BitVec 32)
  | setDemodGain (level : BitVec 32)
  deriving DecidableEq, Repr

namespace SocketConnection

def READ_BUFFER_LENGTH : Nat := 1024

/-- `SocketConnection::_handleGeneralRequest`. -/
def handleGeneralRequest (rq : GeneralRequest) : Option Request :=
  if rq.type = GeneralRequest.SCANNER_CONTEXT then some .getScannerContext
  else if rq.type = GeneralRequest.DEMOD_CONTEXT then some .getDemodContext
  else if rq.type = GeneralRequest.SYSTEM_INFO then some .getSystemInfo
  else none

/-- `SocketConnection::_handleScanStateRequest`. -/
def handleScanStateRequest (rq : ScannerStateRequest) : Option Request :=
  if rq.state = ScannerStateRequest.SCAN then some .scanStart
  else if rq.state = ScannerStateRequest.HOLD then some .scanHold
  else if rq.state = ScannerStateRequest.MANUAL then some (.scanManualEntry rq.manFreq "FM")
  else none

/-- `SocketConnection::_handleDemodRequest`. -/
def handleDemodRequest (rq : DemodRequest) : Option Request :=
  if rq.type = DemodRequest.SET_SQUELCH then some (.setDemodSquelch rq.level)
  else if rq.type = DemodRequest.SET_GAIN then some (.setDemodGain rq.level)
  else none

/-- The `switch` of `_handleRead`. -/
def dispatch (msg : ClientToServer) : Option Request :=
  if msg.type = ClientToServer.GENERAL_REQUEST then handleGeneralRequest msg.generalRequest
  else if msg.type = ClientToServer.SCANNER_STATE_REQUEST then handleScanStateRequest msg.scanStateRequest
  else if msg.type = ClientToServer.DEMOD_REQUEST then handleDemodRequest msg.demodRequest
  else none

/-- `SocketConnection::_handleRead` without an error; the result of
`ParseFromArray` is not looked at. -/
def handleRead (bytes : Bytes) : Option Request := dispatch (ClientToServer.parse bytes).1

/-- What a sequence of reads dispatches. -/
def serve (reads : List Bytes) : List Request := reads.filterMap handleRead

/-- A way in which a stream arrives. -/
structure Segmentation (stream : Bytes) (reads : List Bytes) : Prop where
  whole : reads.flatten = stream
  nonempty : ∀ read ∈ reads, 1 ≤ read.length
  fits : ∀ read ∈ reads, read.length ≤ READ_BUFFER_LENGTH

/-! ## Reads that are whole messages -/

theorem serve_whole {ms : List ClientToServer} (h : ∀ m ∈ ms, m.encode.length < 2 ^ 31) :
    serve (ms.map ClientToServer.encode) = ms.filterMap dispatch := by
  rw [serve, List.filterMap_map]
  refine List.filterMap_congr fun m hm => ?_
  simp only [Function.comp_apply, handleRead, m.parse_encode (h m hm)]

/-! ## Reads of single bytes -/

theorem handleRead_single (b : UInt8) : handleRead [b] = some .getScannerContext := by
  rw [handleRead, ClientToServer.parse_single]
  rfl

theorem serve_single (bs : Bytes) :
    serve (bs.map fun b => [b]) = List.replicate bs.length .getScannerContext := by
  induction bs with
  | nil => rfl
  | cons b bs ih =>
    rw [List.map_cons, serve, List.filterMap_cons_some (handleRead_single b), List.length_cons,
      List.replicate_succ, ← ih]
    rfl

theorem segmentation_single (bs : Bytes) : Segmentation bs (bs.map fun b => [b]) := by
  refine ⟨?_, ?_, ?_⟩
  · induction bs with
    | nil => rfl
    | cons b bs ih => simp [ih]
  · intro read hread
    obtain ⟨b, -, rfl⟩ := List.mem_map.mp hread
    simp
  · intro read hread
    obtain ⟨b, -, rfl⟩ := List.mem_map.mp hread
    simp [READ_BUFFER_LENGTH]

theorem length_serve_le (reads : List Bytes) : (serve reads).length ≤ reads.length :=
  List.length_filterMap_le ..

/-- A message that takes no bytes is the empty one, which asks for the context. -/
theorem dispatch_of_encode_nil {m : ClientToServer} (h : m.encode = []) :
    dispatch m = some .getScannerContext := by
  have hm := m.parse_encode (by rw [h]; decide)
  rw [h] at hm
  obtain rfl : ClientToServer.init = m := congrArg Prod.fst hm
  rfl

/-- **Segmentation.**  Only the empty sequence of messages is served the same in
every segmentation of its stream; reads that are the messages one by one are
served right for every sequence. -/
theorem segmentation_iff (ms : List ClientToServer) :
    ((∀ reads, Segmentation (ms.flatMap ClientToServer.encode) reads →
        serve reads = ms.filterMap dispatch) ↔ ms = []) ∧
      ∀ reads, Segmentation (ms.flatMap ClientToServer.encode) reads →
        reads = ms.map ClientToServer.encode → serve reads = ms.filterMap dispatch := by
  refine ⟨⟨fun h => ?_, ?_⟩, ?_⟩
  · match hstream : ms.flatMap ClientToServer.encode with
    | [] =>
      -- every message is empty, and none of them arrives
      rw [hstream] at h
      have hnone := h [] ⟨rfl, by simp, by simp⟩
      have hall := List.flatMap_eq_nil_iff.mp hstream
      cases ms with
      | nil => rfl
      | cons m ms =>
        rw [List.filterMap_cons_some (dispatch_of_encode_nil (hall m (List.mem_cons_self ..)))]
          at hnone
        cases hnone
    | [b] =>
      -- a single byte is no message
      obtain ⟨m, hm, hb⟩ := List.mem_flatMap.mp (show b ∈ ms.flatMap ClientToServer.encode by
        rw [hstream]; exact List.mem_singleton_self b)
      have hsub : m.encode.Sublist [b] := by
        rw [← hstream, List.flatMap_def]
        exact List.sublist_flatten_of_mem (List.mem_map_of_mem hm)
      have hencode : m.encode = [b] := by
        rcases List.sublist_singleton.mp hsub with hnil | hone
        · rw [hnil] at hb
          cases hb
        · exact hone
      have hparse := m.parse_encode (by rw [hencode]; simp)
      rw [hencode, ClientToServer.parse_single] at hparse
      cases congrArg Prod.snd hparse
    | a :: b :: rest =>
      -- single bytes dispatch more than the same bytes with the first two in one read
      rw [hstream] at h
      have hsingle := h _ (segmentation_single (a :: b :: rest))
      have hrest := segmentation_single rest
      have htwo := h ([a, b] :: rest.map fun b => [b]) ⟨by simp [hrest.whole],
        List.forall_mem_cons.mpr ⟨by simp, hrest.nonempty⟩,
        List.forall_mem_cons.mpr ⟨by simp [READ_BUFFER_LENGTH], hrest.fits⟩⟩
      rw [serve_single] at hsingle
      have hlen := length_serve_le ([a, b] :: rest.map fun b => [b])
      rw [htwo, ← hsingle] at hlen
      simp only [List.length_replicate, List.length_cons, List.length_map] at hlen
      omega
  · rintro rfl reads ⟨hwhole, hne, -⟩
    cases reads with
    | nil => rfl
    | cons read reads =>
      have hread := hne read (List.mem_cons_self ..)
      rw [List.flatMap_nil, List.flatten_eq_nil_iff] at hwhole
      rw [hwhole read (List.mem_cons_self ..)] at hread
      cases hread
  · rintro reads hseg rfl
    refine serve_whole fun m hm => ?_
    exact Nat.lt_of_le_of_lt (hseg.fits _ (List.mem_map_of_mem hm)) (by decide)

/-- The message of `hold()` in the client. -/
def holdMessage : ClientToServer :=
  { type := ClientToServer.SCANNER_STATE_REQUEST
    content := .scanStateRequest { ScannerStateRequest.init with state := ScannerStateRequest.HOLD } }

/-- A hold request that arrives in two reads starts the scan. -/
theorem hold_in_two_reads :
    Segmentation ([holdMessage].flatMap ClientToServer.encode) [[8, 1], [26, 2, 16, 1]] ∧
      serve [[8, 1], [26, 2, 16, 1]] = [.scanStart, .getScannerContext] ∧
      [holdMessage].filterMap dispatch = [.scanHold] := by
  refine ⟨⟨by decide, by decide, by decide⟩, by decide, by decide⟩

end SocketConnection

end PiScan.Server

import PiScan.Lib.Run
import PiScan.Server.Replies

/-!
# Writes of a socket connection

The sending side of `server/connection/SocketConnection.cpp`.  Every call
serialises its message into the one `_writeBuffer` and starts an asynchronous
write of that many bytes of it.  A write reads the buffer when the socket takes
the bytes, which can be after later calls, and `_handleWrite` does not look at
how many bytes were taken.  The writes of one socket are served in the order in
which they were started.

* `transfers`: what the peer has received is one piece for each served message,
  none longer than its message;
* `delivered_iff`: the stream is that of the messages exactly in the runs in which
  every write is served whole, with the bytes of its message in the buffer.
-/

namespace PiScan.Server

open Wire Runs

namespace SocketConnection

def WRITE_BUFFER_LENGTH : Nat := 1024

/-- A message that fits in the write buffer. -/
structure Message where
  update : Update
  fits : update.encode.length ≤ WRITE_BUFFER_LENGTH

def Message.encode (m : Message) : Bytes := m.update.encode

theorem Message.length_encode_le (m : Message) : m.encode.length ≤ WRITE_BUFFER_LENGTH := m.fits

/-- `_writeBuffer`. -/
structure WriteBuffer where
  bytes : Bytes
  size : bytes.length = WRITE_BUFFER_LENGTH

/-- `SerializeToArray`: the bytes behind the message stay what they were. -/
def WriteBuffer.serialize (b : WriteBuffer) (m : Message) : WriteBuffer where
  bytes := m.encode ++ b.bytes.drop m.encode.length
  size := by
    have hm := m.length_encode_le
    have hb := b.size
    rw [List.length_append, List.length_drop]
    omega

/-- The buffer, the messages whose write has not completed, and what the peer
has received. -/
structure Sending where
  writeBuffer : WriteBuffer
  pending : List Message
  received : Bytes

/-- A call of the connection, or the socket taking `n` bytes for the first
pending write. -/
inductive SendEvent
  | call (m : Message)
  | transfer (n : Nat)

namespace Sending

def idle (b : WriteBuffer) : Sending := ⟨b, [], []⟩

/-- `contextUpdate` and its siblings: `SerializeToArray`, then `_startWrite`. -/
def call (s : Sending) (m : Message) : Sending :=
  { s with writeBuffer := s.writeBuffer.serialize m, pending := s.pending ++ [m] }

/-- The write takes what is in the buffer now; `_handleWrite` does nothing. -/
def transfer (s : Sending) (n : Nat) : Option Sending :=
  match s.pending with
  | [] => none
  | m :: pending =>
    if 1 ≤ n ∧ n ≤ m.encode.length then
      some { s with pending := pending, received := s.received ++ s.writeBuffer.bytes.take n }
    else none

def next (s : Sending) : SendEvent → Option Sending
  | .call m => some (s.call m)
  | .transfer n => s.transfer n

def Step (s : Sending) (e : SendEvent) (t : Sending) : Prop := s.next e = some t

/-- A transfer takes all of the pending message, and the buffer still starts
with it. -/
def Whole (s : Sending) : SendEvent → Prop
  | .call _ => True
  | .transfer n => ∀ m ∈ s.pending.head?, n = m.encode.length ∧ m.encode <+: s.writeBuffer.bytes

/-- The messages of the calls, in their order. -/
def calls (es : List SendEvent) : List Message :=
  es.filterMap fun
    | .call m => some m
    | .transfer _ => none

/-- What the peer has received, and the messages it still waits for, make the
stream of all messages; with no write pending it has received just that. -/
def Delivered (es : List SendEvent) (s : Sending) : Prop :=
  s.received ++ s.pending.flatMap Message.encode = (calls es).flatMap Message.encode

@[simp] theorem calls_nil : calls [] = [] := rfl

@[simp] theorem calls_call (m : Message) (es : List SendEvent) :
    calls (.call m :: es) = m :: calls es := rfl

@[simp] theorem calls_transfer (n : Nat) (es : List SendEvent) :
    calls (.transfer n :: es) = calls es := rfl

/-! ## What a step does -/

theorem transfer_cases {s t : Sending} {n : Nat} (h : s.transfer n = some t) :
    ∃ m, s.pending = m :: t.pending ∧ n ≤ m.encode.length ∧
      t.received = s.received ++ s.writeBuffer.bytes.take n := by
  unfold transfer at h
  split at h
  · cases h
  · next m pending hpending =>
    split at h
    · next hn =>
      cases h
      exact ⟨m, hpending, hn.2, rfl⟩
    · cases h

/-- A guarded run does its first step within the condition. -/
theorem guarded_cons {s t u : Sending} {e : SendEvent} {es : List SendEvent}
    (hs : Step s e t) :
    Run (Guarded Step Whole) s (e :: es) u ↔
      Whole s e ∧ Run (Guarded Step Whole) t es u := by
  constructor
  · intro h
    cases h with
    | cons hg hr =>
      obtain rfl := Option.some.inj (hs.symm.trans hg.1)
      exact ⟨hg.2, hr⟩
  · rintro ⟨hw, hr⟩
    exact .cons ⟨hs, hw⟩ hr

/-- The piece of the stream that a transfer makes is the message just when the
transfer is whole. -/
theorem whole_transfer_iff {s : Sending} {n : Nat} {m : Message} {ms : List Message}
    (hpending : s.pending = m :: ms) (hn : n ≤ m.encode.length) :
    Whole s (.transfer n) ↔ s.writeBuffer.bytes.take n = m.encode := by
  have hsize := s.writeBuffer.size
  have hfits := m.length_encode_le
  simp only [Whole, hpending, List.head?_cons, Option.mem_some_iff, forall_eq']
  constructor
  · rintro ⟨rfl, hprefix⟩
    exact (List.prefix_iff_eq_take.mp hprefix).symm
  · intro htake
    have hlen := congrArg List.length htake
    rw [List.length_take, hsize] at hlen
    obtain rfl : n = m.encode.length := by omega
    exact ⟨rfl, List.prefix_iff_eq_take.mpr htake.symm⟩

/-! ## What a run does -/

/-- Every served message has its piece of the stream, no longer than the
message, and the run was whole just when the pieces are the messages. -/
theorem transfers {s t : Sending} {es : List SendEvent} (h : Run Step s es t) :
    ∃ (served : List Message) (pieces : List Bytes),
      s.pending ++ calls es = served ++ t.pending ∧
      t.received = s.received ++ pieces.flatten ∧
      List.Forall₂ (fun m piece => piece.length ≤ m.encode.length) served pieces ∧
      (Run (Guarded Step Whole) s es t ↔ pieces = served.map Message.encode) := by
  induction h with
  | nil s =>
    refine ⟨[], [], by simp, by simp, .nil, ?_⟩
    simp only [List.map_nil, iff_true]
    exact .nil s
  | @cons s t u e es hs _ ih =>
    obtain ⟨served, pieces, hqueue, hreceived, hlen, hwhole⟩ := ih
    rw [guarded_cons hs, hwhole]
    cases e with
    | call m =>
      cases hs
      refine ⟨served, pieces, ?_, hreceived, hlen, by simp [Whole]⟩
      rw [← hqueue]
      simp [call]
    | transfer n =>
      obtain ⟨m, hpending, hn, ht⟩ := transfer_cases hs
      refine ⟨m :: served, s.writeBuffer.bytes.take n :: pieces, ?_, ?_, ?_, ?_⟩
      · simp [hpending, hqueue]
      · rw [hreceived, ht, List.flatten_cons, List.append_assoc]
      · refine .cons ?_ hlen
        exact (List.length_take_le ..).trans hn
      · rw [whole_transfer_iff hpending hn, List.map_cons, List.cons.injEq]

/-- Pieces that are no longer than their messages make up the stream of the
messages only when each is its message. -/
theorem pieces_eq_of_flatten_eq {ms : List Message} {pieces : List Bytes}
    (hlen : List.Forall₂ (fun m piece => piece.length ≤ m.encode.length) ms pieces)
    (h : pieces.flatten = ms.flatMap Message.encode) : pieces = ms.map Message.encode := by
  induction hlen with
  | nil => rfl
  | @cons m piece ms pieces hpiece hrest ih =>
    have hshort : pieces.flatten.length ≤ (ms.flatMap Message.encode).length := by
      clear ih h
      induction hrest with
      | nil => simp
      | cons hp _ ih =>
        simp only [List.flatten_cons, List.flatMap_cons, List.length_append]
        omega
    rw [List.flatten_cons, List.flatMap_cons] at h
    have htotal := congrArg List.length h
    rw [List.length_append, List.length_append] at htotal
    obtain ⟨hhead, htail⟩ := List.append_inj h (by omega)
    rw [hhead, ih htail, List.map_cons]

/-- **Outgoing stream.**  From an idle connection the peer gets the stream of the
messages exactly in the runs whose transfers are all whole. -/
theorem delivered_iff {b : WriteBuffer} {es : List SendEvent} {t : Sending}
    (h : Run Step (idle b) es t) :
    Delivered es t ↔ Run (Guarded Step Whole) (idle b) es t := by
  obtain ⟨served, pieces, hqueue, hreceived, hlen, hwhole⟩ := transfers h
  replace hqueue : calls es = served ++ t.pending := by simpa [idle] using hqueue
  replace hreceived : t.received = pieces.flatten := by simpa [idle] using hreceived
  rw [hwhole, Delivered, hqueue, hreceived, List.flatMap_append, List.append_left_inj]
  constructor
  · exact pieces_eq_of_flatten_eq hlen
  · rintro rfl
    rw [List.flatMap_def]

/-! ## Two levels before the socket is writable -/

def zeroed : WriteBuffer := ⟨List.replicate WRITE_BUFFER_LENGTH 0, List.length_replicate⟩

def level5 : Message := ⟨.signalLevel 5, by decide⟩

def level7 : Message := ⟨.signalLevel 7, by decide⟩

/-- A level that is sent before the next call arrives. -/
theorem delivered_level :
    ∃ t, Run Step (idle zeroed) [.call level5, .transfer 6] t ∧ t.received = level5.encode ∧
      (Delivered [.call level5, .transfer 6] t ↔
        Run (Guarded Step Whole) (idle zeroed) [.call level5, .transfer 6] t) := by
  have hrun : Run Step (idle zeroed) [.call level5, .transfer 6]
      ⟨zeroed.serialize level5, [], level5.encode⟩ := .cons rfl (.single rfl)
  exact ⟨_, hrun, rfl, delivered_iff hrun⟩

/-- Two levels whose writes are both pending: the peer gets the second one twice,
and the first one never. -/
theorem level_overwritten :
    ∃ t, Run Step (idle zeroed) [.call level5, .call level7, .transfer 6, .transfer 6] t ∧
      t.pending = [] ∧ t.received = level7.encode ++ level7.encode ∧
      t.received ≠ level5.encode ++ level7.encode := by
  refine ⟨⟨(zeroed.serialize level5).serialize level7, [], level7.encode ++ level7.encode⟩, ?_,
    rfl, rfl, by decide⟩
  exact .cons rfl (.cons rfl (.cons rfl (.single rfl)))

end Sending

end SocketConnection

end PiScan.Server

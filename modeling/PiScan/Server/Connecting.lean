import PiScan.Server.Connections

/-!
# Connecting and disconnecting

The queue thread inside `_addConnection` and the I/O thread that completes the
read which `connect()` armed, with an error (`server/connection/SocketConnection.cpp`).
The client is published in its slot only after `connect()`; the I/O thread closes
the socket and looks the client up in that slot.

* `Racing`: the shared variables as the stages of the two threads determine them;
* `race_iff`: the lookup finds the client, and no closed connection stays behind,
  in just the runs where the client is published before the lookup.
-/

namespace PiScan.Server

open Runs SlotTable

/-- What the queue thread does next in `_addConnection`. -/
inductive QueueStage
  | assignHandle
  | assignServerManager
  | connect
  | publish
  | finished
  deriving DecidableEq, Repr

/-- What the I/O thread does next.  It waits for the armed read, closes the socket
(`disconnect`), looks up the slot of its handle and clears it (`giveRequest`). -/
inductive IoStage
  | unarmed
  | reading
  | disconnect
  | lookup (source : Int)
  | release (slot : Fin MAX_CONNECTIONS)
  | finished
  | faulted
  deriving DecidableEq, Repr

/-- The read is armed. -/
def QueueStage.armed : QueueStage → Bool
  | .publish | .finished => true
  | _ => false

/-- The socket is closed. -/
def IoStage.closed : IoStage → Bool
  | .lookup _ | .release _ | .finished => true
  | _ => false

/-- A table with a free slot, in which all connections are open, and a new client
from the connection queue. -/
structure Arrival where
  manager : ServerManager
  isOpen : Client → Bool
  client : Client
  slot : Fin MAX_CONNECTIONS
  free : free? manager.connections = some slot
  new : ∀ i, manager.connections i ≠ some client
  opened : isOpen client = true
  allOpen : ∀ i c, manager.connections i = some c → isOpen c = true

theorem Arrival.empty (a : Arrival) : a.manager.connections a.slot = none := by
  have hslot := List.find?_some a.free
  exact Option.isNone_iff_eq_none.mp hslot

/-- The shared variables, and the stages of the two threads; `serverManager` says
that the client's pointer is assigned. -/
structure Connecting where
  manager : ServerManager
  isOpen : Client → Bool
  serverManager : Bool
  queueThread : QueueStage
  ioThread : IoStage

inductive Thread
  | queue
  | io
  deriving DecidableEq, Repr

namespace Connecting

variable (a : Arrival)

def start : Connecting := ⟨a.manager, a.isOpen, false, .assignHandle, .unarmed⟩

/-- `ServerManager::_addConnection` from the free slot on; `connect()` arms the
read. -/
def queueStep (s : Connecting) : Option Connecting :=
  match s.queueThread with
  | .assignHandle =>
    some
      { s with
        manager :=
          { s.manager with handle := Function.update s.manager.handle a.client a.slot }
        queueThread := .assignServerManager }
  | .assignServerManager => some { s with serverManager := true, queueThread := .connect }
  | .connect => some { s with ioThread := .reading, queueThread := .publish }
  | .publish =>
    some
      { s with
        manager :=
          { s.manager with
            connections := Function.update s.manager.connections a.slot (some a.client) }
        queueThread := .finished }
  | .finished => none

/-- The read fails; `SocketConnection::disconnect` closes the socket and makes the
request with the client's handle; `giveRequest` follows the pointer in the slot,
then clears the slot. -/
def ioStep (s : Connecting) : Option Connecting :=
  match s.ioThread with
  | .unarmed => none
  | .reading => some { s with ioThread := .disconnect }
  | .disconnect =>
    if s.isOpen a.client then
      some
        { s with
          isOpen := Function.update s.isOpen a.client false
          ioThread :=
            if s.serverManager then .lookup (s.manager.handle a.client) else .faulted }
    else some { s with ioThread := .finished }
  | .lookup source =>
    match ServerManager.slotOf source with
    | none => some { s with ioThread := .faulted }
    | some i =>
      match s.manager.connections i with
      | none => some { s with ioThread := .faulted }
      | some client =>
        if client.level.toNat < notifyDisconnectedLevel then some { s with ioThread := .finished }
        else some { s with ioThread := .release i }
  | .release i =>
    some
      { s with
        manager :=
          { s.manager with connections := Function.update s.manager.connections i none }
        ioThread := .finished }
  | .finished => none
  | .faulted => none

def next (s : Connecting) : Thread → Option Connecting
  | .queue => s.queueStep a
  | .io => s.ioStep a

def Step (s : Connecting) (thread : Thread) (t : Connecting) : Prop := s.next a thread = some t

/-- A lookup finds the connection that makes the request. -/
def FindsItself (s : Connecting) : Thread → Prop
  | .queue => True
  | .io => ∀ source, s.ioThread = .lookup source →
      ∃ i, ServerManager.slotOf source = some i ∧ s.manager.connections i = some a.client

/-- A lookup comes after the queue thread has published the client. -/
def Published (s : Connecting) : Thread → Prop
  | .queue => True
  | .io => ∀ source, s.ioThread = .lookup source → s.queueThread = .finished

/-- No closed connection is in the table. -/
def AllOpen (s : Connecting) : Prop :=
  ∀ i c, s.manager.connections i = some c → s.isOpen c = true

/-! ## The shared variables -/

/-- The shared variables as the two stages determine them, with the client
published before it is looked up. -/
structure Racing (s : Connecting) : Prop where
  unarmed : s.queueThread.armed = false ↔ s.ioThread = .unarmed
  healthy : s.ioThread ≠ .faulted
  handle : s.queueThread ≠ .assignHandle → s.manager.handle a.client = a.slot
  serverManager : s.queueThread ≠ .assignHandle → s.queueThread ≠ .assignServerManager →
    s.serverManager = true
  lookup : ∀ source, s.ioThread = .lookup source → source = a.slot
  release : ∀ i, s.ioThread = .release i → i = a.slot ∧ s.queueThread = .finished
  finished : s.ioThread = .finished → s.queueThread = .finished
  isOpen : s.isOpen =
    if s.ioThread.closed then Function.update a.isOpen a.client false else a.isOpen
  connections : s.manager.connections =
    if s.queueThread = .finished ∧ s.ioThread ≠ .finished then
      Function.update a.manager.connections a.slot (some a.client)
    else a.manager.connections

variable {a} {s t : Connecting}

theorem racing_start : Racing a (start a) where
  unarmed := by simp [start, QueueStage.armed]
  healthy := by simp [start]
  handle h := absurd rfl h
  serverManager h := absurd rfl h
  lookup source h := by simp [start] at h
  release i h := by simp [start] at h
  finished h := by simp [start] at h
  isOpen := rfl
  connections := rfl

namespace Racing

/-- Where the client's slot is empty or holds it. -/
theorem slot (h : Racing a s) (hio : s.ioThread ≠ .finished) :
    s.manager.connections a.slot =
      if s.queueThread = .finished then some a.client else none := by
  rw [h.connections]
  by_cases hqueue : s.queueThread = .finished
  · rw [if_pos ⟨hqueue, hio⟩, if_pos hqueue, Function.update_self]
  · rw [if_neg (fun hc => hqueue hc.1), if_neg hqueue, a.empty]

/-- The stages in which the queue thread has not armed the read. -/
theorem unarmed_of (h : Racing a s) (hqueue : s.queueThread.armed = false) :
    s.ioThread = .unarmed ∧ s.manager.connections = a.manager.connections ∧
      s.isOpen = a.isOpen := by
  have hio := h.unarmed.mp hqueue
  have hne : s.queueThread ≠ .finished := by
    intro hq
    rw [hq] at hqueue
    cases hqueue
  refine ⟨hio, ?_, ?_⟩
  · rw [h.connections, if_neg (fun hc => hne hc.1)]
  · rw [h.isOpen, hio]
    rfl

theorem queueStep (h : Racing a s) (hstep : s.queueStep a = some t) : Racing a t := by
  unfold Connecting.queueStep at hstep
  split at hstep
  · next hqueue =>
    obtain ⟨hio, hconn, hopen⟩ := h.unarmed_of (by rw [hqueue]; rfl)
    cases hstep
    exact ⟨by simp [hio, QueueStage.armed], by simp [hio], by simp, by simp, by simp [hio],
      by simp [hio], by simp [hio], by simp [hio, hopen, IoStage.closed], by simpa using hconn⟩
  · next hqueue =>
    obtain ⟨hio, hconn, hopen⟩ := h.unarmed_of (by rw [hqueue]; rfl)
    have hhandle := h.handle (by simp [hqueue])
    cases hstep
    exact ⟨by simp [hio, QueueStage.armed], by simp [hio], fun _ => hhandle, by simp,
      by simp [hio], by simp [hio], by simp [hio], by simp [hio, hopen, IoStage.closed],
      by simpa using hconn⟩
  · next hqueue =>
    obtain ⟨hio, hconn, hopen⟩ := h.unarmed_of (by rw [hqueue]; rfl)
    have hhandle := h.handle (by simp [hqueue])
    have hmanager := h.serverManager (by simp [hqueue]) (by simp [hqueue])
    cases hstep
    exact ⟨by simp [QueueStage.armed], by simp, fun _ => hhandle, fun _ _ => hmanager,
      by simp, by simp, by simp, by simp [hopen, IoStage.closed], by simpa using hconn⟩
  · next hqueue =>
    have hhandle := h.handle (by simp [hqueue])
    have hmanager := h.serverManager (by simp [hqueue]) (by simp [hqueue])
    have hio : s.ioThread ≠ .unarmed := by
      rw [ne_eq, ← h.unarmed, hqueue]
      simp [QueueStage.armed]
    have hnot : s.ioThread ≠ .finished := by
      intro hc
      have := h.finished hc
      simp [hqueue] at this
    have hconn : s.manager.connections = a.manager.connections := by
      rw [h.connections, if_neg (by simp [hqueue])]
    cases hstep
    refine ⟨by simp [QueueStage.armed, hio], h.healthy, fun _ => hhandle, fun _ _ => hmanager,
      h.lookup, fun i hi => ⟨(h.release i hi).1, rfl⟩, fun _ => rfl, h.isOpen, ?_⟩
    rw [if_pos ⟨rfl, hnot⟩, hconn]
  · cases hstep

theorem ioStep (h : Racing a s) (hstep : s.ioStep a = some t) (hok : Published s .io) :
    Racing a t := by
  unfold Connecting.ioStep at hstep
  split at hstep
  · cases hstep
  · next hio =>
    have harmed := h.unarmed
    have hconn := h.connections
    have hopen := h.isOpen
    simp only [hio, reduceCtorEq, iff_false, ne_eq, not_false_eq_true, and_true] at harmed hconn
    rw [hio] at hopen
    cases hstep
    exact ⟨by simp [harmed], by simp, h.handle, h.serverManager, by simp, by simp, by simp,
      hopen, by simpa using hconn⟩
  · next hio =>
    have harmed := h.unarmed
    have hconn := h.connections
    have hopen := h.isOpen
    simp only [hio, reduceCtorEq, iff_false, ne_eq, not_false_eq_true, and_true] at harmed hconn
    replace hopen : s.isOpen = a.isOpen := by simpa [hio, IoStage.closed] using hopen
    have hpast : s.queueThread ≠ .assignHandle ∧ s.queueThread ≠ .assignServerManager := by
      constructor <;> intro hq <;> simp [hq, QueueStage.armed] at harmed
    have hmanager := h.serverManager hpast.1 hpast.2
    have hhandle := h.handle hpast.1
    rw [if_pos (by rw [hopen]; exact a.opened), hmanager, if_pos rfl, hhandle, hopen] at hstep
    cases hstep
    exact ⟨by simp [harmed], by simp, h.handle, fun _ _ => rfl, by simp, by simp, by simp,
      by simp [IoStage.closed], by simpa using hconn⟩
  · next source hio =>
    have hqueue := hok source hio
    obtain rfl := h.lookup source hio
    have hslot := h.slot (by simp [hio])
    have hconn := h.connections
    have hopen := h.isOpen
    rw [hio] at hopen
    simp only [hqueue, hio, reduceCtorEq, ne_eq, not_false_eq_true, and_self, if_true] at hconn hslot
    simp only [ServerManager.slotOf_coe, hslot, notifyDisconnectedLevel, Nat.not_lt_zero,
      if_false] at hstep
    cases hstep
    refine ⟨by simp [hqueue, QueueStage.armed], by simp, h.handle, h.serverManager, by simp, ?_,
      by simp, hopen, by simp [hqueue, hconn]⟩
    rintro i hi
    cases hi
    exact ⟨rfl, hqueue⟩
  · next i hio =>
    obtain ⟨rfl, hqueue⟩ := h.release i hio
    have hconn := h.connections
    have hopen := h.isOpen
    rw [hio] at hopen
    simp only [hqueue, hio, reduceCtorEq, ne_eq, not_false_eq_true, and_self, if_true] at hconn
    cases hstep
    refine ⟨by simp [hqueue, QueueStage.armed], by simp, h.handle, h.serverManager, by simp,
      by simp, fun _ => hqueue, hopen, ?_⟩
    simp only [ne_eq, not_true_eq_false, and_false, if_false, hconn]
    rw [Function.update_idem, ← a.empty, Function.update_eq_self]
  · cases hstep
  · cases hstep

theorem step {thread : Thread} (h : Racing a s) (hstep : Step a s thread t)
    (hok : Published s thread) : Racing a t := by
  cases thread with
  | queue => exact h.queueStep hstep
  | io => exact h.ioStep hstep hok

/-- Only the publication makes the lookup find the client. -/
theorem published_iff (h : Racing a s) (thread : Thread) :
    Published s thread ↔ FindsItself a s thread := by
  cases thread with
  | queue => exact Iff.rfl
  | io =>
    refine forall_congr' fun source => forall_congr' fun hio => ?_
    obtain rfl := h.lookup source hio
    have hslot := h.slot (by simp [hio])
    simp only [ServerManager.slotOf_coe, Option.some.injEq, exists_eq_left', hslot]
    by_cases hqueue : s.queueThread = .finished <;> simp [hqueue]

/-- With both threads finished, the table is as it was before. -/
theorem allOpen (h : Racing a s) (hio : s.ioThread = .finished) : AllOpen s := by
  intro i c hi
  have hconn := h.connections
  have hopen := h.isOpen
  simp only [hio, ne_eq, not_true_eq_false, and_false, if_false] at hconn
  simp only [hio, IoStage.closed, if_true] at hopen
  rw [hconn] at hi
  have hc : c ≠ a.client := by
    rintro rfl
    exact a.new i hi
  rw [hopen, Function.update_of_ne hc]
  exact a.allOpen i c hi

end Racing

/-- **Connecting against disconnecting.**  Every lookup finds the connection that
disconnects, and no closed connection stays in the table, in just the runs where
the client is published before its slot is looked up. -/
theorem race_iff (a : Arrival) (threads : List Thread) (t : Connecting) :
    (Run (Guarded (Step a) (FindsItself a)) (start a) threads t ∧
        (t.queueThread = .finished → t.ioThread = .finished → AllOpen t)) ↔
      Run (Guarded (Step a) Published) (start a) threads t := by
  have hsame : Run (Guarded (Step a) Published) (start a) threads t ↔
      Run (Guarded (Step a) (FindsItself a)) (start a) threads t :=
    Run.guarded_congr (fun s thread t hs hstep hok => hs.step hstep hok)
      (fun s thread t hs _ => hs.published_iff thread) racing_start
  constructor
  · rintro ⟨hfinds, -⟩
    exact hsame.mpr hfinds
  · intro hpublished
    have hracing : Racing a t :=
      hpublished.invariant (fun s thread t hs hg => hs.step hg.1 hg.2) racing_start
    exact ⟨hsame.mp hpublished, fun _ hio => hracing.allOpen hio⟩

/-! ## A client that is gone before it is published -/

/-- A client of an empty table. -/
def firstArrival : Arrival where
  manager := ServerManager.start
  isOpen _ := true
  client := ⟨0, .FULL_CONTROL⟩
  slot := ⟨0, by decide⟩
  free := rfl
  new i h := by cases h
  opened := rfl
  allOpen _ _ _ := rfl

/-- The read fails right after it is armed: the I/O thread follows the pointer of
an empty slot, and the process ends. -/
theorem lookup_before_publish :
    ∃ s t, Run (Step firstArrival) (start firstArrival) [.queue, .queue, .queue, .io, .io] s ∧
      s.queueThread = .publish ∧ ¬ FindsItself firstArrival s .io ∧
      Step firstArrival s .io t ∧ t.ioThread = .faulted := by
  have hrun : Run (Step firstArrival) (start firstArrival) [.queue, .queue, .queue, .io, .io] _ :=
    .cons rfl <| .cons rfl <| .cons rfl <| .cons rfl <| .single rfl
  refine ⟨_, _, hrun, rfl, ?_, rfl, rfl⟩
  intro hfinds
  obtain ⟨i, hi, hclient⟩ := hfinds 0 rfl
  cases hi
  cases hclient

end Connecting

end PiScan.Server

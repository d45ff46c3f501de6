import PiScan.Lib.Run
import PiScan.Lib.SlotTable

/-!
# The connection table

Admission of clients in `ServerManager.cpp`: `requestConnection` decides by a
counter, `_addConnection` places a client in the first free slot, and
`giveRequest` frees the slot of a client that disconnected.

* `Seated.step`: while every request finds fewer than `MAX_CONNECTIONS` clients,
  the queue and the slots together hold the accepted clients;
* `admits_iff`: admission is as it should be in just these runs, since the
  counter is never changed and no client is ever denied.
-/

namespace PiScan.Server

open Runs SlotTable

def MAX_CONNECTIONS : Nat := 5

inductive ConnectionLevel
  | RECEIVE_ONLY
  | VIEWER
  | FULL_CONTROL
  deriving DecidableEq, Repr

def ConnectionLevel.toNat : ConnectionLevel → Nat
  | RECEIVE_ONLY => 0
  | VIEWER => 1
  | FULL_CONTROL => 2

/-- A `Connection` object; `id` tells two of them apart. -/
structure Client where
  id : Nat
  level : ConnectionLevel
  deriving DecidableEq, Repr

inductive RequestResponse
  | RQ_ACCEPTED
  | RQ_DENIED
  | RQ_INSUFFICIENT_PERMISSION
  | RQ_INVALID_HANDLE
  deriving DecidableEq, Repr

/-- The entry of `permissionMap` for `NOTIFY_DISCONNECTED`. -/
def notifyDisconnectedLevel : Nat := 0

abbrev Table := Fin MAX_CONNECTIONS → Option Client

/-- The members of `ServerManager` that admission uses, and the `_handle` of every
connection. -/
structure ServerManager where
  activeConnections : Int
  connectionQueue : List Client
  connections : Table
  handle : Client → Int

namespace ServerManager

def HANDLE_NULL : Int := -1

def start : ServerManager := ⟨0, [], fun _ => none, fun _ => HANDLE_NULL⟩

/-- `ServerManager::requestConnection`. -/
def requestConnection (s : ServerManager) (client : Client) : ServerManager × RequestResponse :=
  if s.activeConnections < MAX_CONNECTIONS then
    ({ s with connectionQueue := s.connectionQueue ++ [client] }, .RQ_ACCEPTED)
  else (s, .RQ_DENIED)

/-- `ServerManager::_addConnection`, where `connect()` succeeds.  With no free slot
the client is dropped. -/
def addConnection (s : ServerManager) (client : Client) : ServerManager :=
  match free? s.connections with
  | none => s
  | some i =>
    { s with
      handle := Function.update s.handle client i
      connections := Function.update s.connections i (some client) }

/-- One turn of the loop of `_queueThreadFunc` over `_connectionQueue`. -/
def dequeue (s : ServerManager) : Option ServerManager :=
  match s.connectionQueue with
  | [] => none
  | client :: rest => some ({ s with connectionQueue := rest }.addConnection client)

/-- The slot `_connections[rq->source]`. -/
def slotOf (source : Int) : Option (Fin MAX_CONNECTIONS) :=
  if h : 0 ≤ source ∧ source.toNat < MAX_CONNECTIONS then some ⟨source.toNat, h.2⟩ else none

theorem slotOf_coe (i : Fin MAX_CONNECTIONS) : slotOf i = some i := by
  have hi : 0 ≤ (i : Int) ∧ (i : Int).toNat < MAX_CONNECTIONS := by
    have := i.isLt
    omega
  rw [slotOf, dif_pos hi]
  exact congrArg some (Fin.ext (by simp))

/-- `ServerManager::giveRequest` for `NOTIFY_DISCONNECTED`; `none` where it
follows the pointer of an empty slot, or reads beyond the table. -/
def giveRequest (s : ServerManager) (source : Int) : Option ServerManager :=
  match slotOf source with
  | none => none
  | some i =>
    match s.connections i with
    | none => none
    | some client =>
      if client.level.toNat < notifyDisconnectedLevel then some s
      else some { s with connections := Function.update s.connections i none }

end ServerManager

/-! ## Admission -/

/-- The manager, and the clients that were accepted and have not disconnected. -/
structure Admission where
  manager : ServerManager
  accepted : List Client
  created : Nat

/-- A request with its answer, a turn of the queue thread, and a client that goes. -/
inductive AdmissionEvent
  | request (client : Client) (response : RequestResponse)
  | addConnection
  | disconnect (client : Client)
  deriving DecidableEq, Repr

namespace Admission

def start : Admission := ⟨.start, [], 0⟩

def request (s : Admission) (client : Client) : Admission where
  manager := (s.manager.requestConnection client).1
  accepted :=
    if (s.manager.requestConnection client).2 = .RQ_ACCEPTED then s.accepted ++ [client]
    else s.accepted
  created := s.created + 1

/-- Every request comes with a new connection; a client that has a slot can
disconnect. -/
inductive Step (s : Admission) : AdmissionEvent → Admission → Prop
  | request (client : Client) (hnew : client.id = s.created) :
      Step s (.request client (s.manager.requestConnection client).2) (s.request client)
  | addConnection {manager : ServerManager} (h : s.manager.dequeue = some manager) :
      Step s .addConnection { s with manager := manager }
  | disconnect {client : Client} {manager : ServerManager} {i : Fin MAX_CONNECTIONS}
      (hi : s.manager.connections i = some client)
      (h : s.manager.giveRequest (s.manager.handle client) = some manager) :
      Step s (.disconnect client)
        { s with manager := manager, accepted := s.accepted.erase client }

/-- Every accepted client has one slot, its handle is the number of that slot, and
the slots hold nothing else. -/
structure Placed (s : Admission) : Prop where
  slot : ∀ c ∈ s.accepted, ∃ i : Fin MAX_CONNECTIONS,
    s.manager.handle c = i ∧ ∀ j, s.manager.connections j = some c ↔ j = i
  accepted : ∀ i c, s.manager.connections i = some c → c ∈ s.accepted

/-- A client is denied exactly when `MAX_CONNECTIONS` clients are accepted. -/
def Answered (s : Admission) : AdmissionEvent → Prop
  | .request _ response => response = .RQ_DENIED ↔ s.accepted.length = MAX_CONNECTIONS
  | _ => True

/-- A request finds fewer than `MAX_CONNECTIONS` accepted clients. -/
def Room (s : Admission) : AdmissionEvent → Prop
  | .request _ _ => s.accepted.length < MAX_CONNECTIONS
  | _ => True

/-- The slots and the queue together hold the accepted clients. -/
structure Seated (s : Admission) : Prop where
  counter : s.manager.activeConnections = 0
  few : s.accepted.length ≤ MAX_CONNECTIONS
  nodup : s.accepted.Nodup
  old : ∀ c ∈ s.accepted, c.id < s.created
  seats : ∃ seated, Holds s.manager.handle s.manager.connections seated ∧
    (seated ++ s.manager.connectionQueue).Perm s.accepted

theorem seated_start : Seated start where
  counter := rfl
  few := Nat.zero_le _
  nodup := List.nodup_nil
  old c hc := by cases hc
  seats := by
    refine ⟨[], ⟨?_, ?_⟩, .nil⟩
    · intro c
      simp [start, ServerManager.start]
    · intro i c hi
      cases hi

namespace Seated

variable {s t : Admission} {client : Client} {manager : ServerManager}

/-- The counter is never changed, so no client is denied. -/
theorem response (h : Seated s) (client : Client) :
    s.manager.requestConnection client =
      ({ s.manager with connectionQueue := s.manager.connectionQueue ++ [client] },
        .RQ_ACCEPTED) := by
  rw [ServerManager.requestConnection, if_pos]
  rw [h.counter]
  decide

theorem request (h : Seated s) (hnew : client.id = s.created)
    (hroom : s.accepted.length < MAX_CONNECTIONS) : Seated (s.request client) := by
  obtain ⟨seated, hseats, hperm⟩ := h.seats
  have hclient : client ∉ s.accepted := by
    intro hc
    have := h.old client hc
    omega
  simp only [Admission.request, h.response client, if_true]
  refine ⟨h.counter, ?_, ?_, ?_, seated, hseats, ?_⟩
  · rw [List.length_append, List.length_singleton]
    omega
  · exact h.nodup.append (List.nodup_singleton _) (by simpa using hclient)
  · intro c hc
    rcases List.mem_append.mp hc with hc | hc
    · exact Nat.lt_succ_of_lt (h.old c hc)
    · obtain rfl := List.mem_singleton.mp hc
      rw [hnew]
      exact Nat.lt_succ_self _
  · rw [← List.append_assoc]
    exact hperm.append_right _

/-- The first client of the queue finds a slot. -/
theorem dequeue (h : Seated s) (hstep : s.manager.dequeue = some manager) :
    Seated { s with manager := manager } := by
  obtain ⟨seated, hseats, hperm⟩ := h.seats
  unfold ServerManager.dequeue at hstep
  split at hstep
  · cases hstep
  · next client rest hqueue =>
    rw [hqueue] at hperm
    have hlen := hperm.length_eq
    have hfew := h.few
    rw [List.length_append, List.length_cons] at hlen
    obtain ⟨i, hfree, hi⟩ := hseats.exists_free (by omega)
    have hnew : client ∉ seated := by
      intro hc
      have hnodup := hperm.nodup_iff.mpr h.nodup
      exact List.disjoint_of_nodup_append hnodup hc (List.mem_cons_self ..)
    rw [ServerManager.addConnection, hfree] at hstep
    cases hstep
    exact ⟨h.counter, h.few, h.nodup, h.old, client :: seated, hseats.place hi hnew,
      List.perm_middle.symm.trans hperm⟩

/-- A client that disconnects finds itself in the slot of its handle. -/
theorem giveRequest (h : Seated s) {i : Fin MAX_CONNECTIONS}
    (hi : s.manager.connections i = some client) :
    s.manager.giveRequest (s.manager.handle client) =
      some { s.manager with connections := Function.update s.manager.connections i none } := by
  obtain ⟨seated, hseats, -⟩ := h.seats
  rw [hseats.handle_eq i client hi, ServerManager.giveRequest, ServerManager.slotOf_coe]
  simp only [hi]
  exact if_neg (Nat.not_lt_zero _)

theorem disconnect (h : Seated s) {i : Fin MAX_CONNECTIONS}
    (hi : s.manager.connections i = some client) :
    Seated
      { s with
        manager := { s.manager with connections := Function.update s.manager.connections i none }
        accepted := s.accepted.erase client } := by
  obtain ⟨seated, hseats, hperm⟩ := h.seats
  have hnodup := hperm.nodup_iff.mpr h.nodup
  refine ⟨h.counter, ?_, h.nodup.erase _, ?_, seated.erase client,
    hseats.clear hi (List.Nodup.of_append_left hnodup), ?_⟩
  · exact (List.length_erase_le ..).trans h.few
  · intro c hc
    exact h.old c (List.mem_of_mem_erase hc)
  · rw [← List.erase_append_left _ ((hseats.mem_iff client).mpr ⟨i, hi⟩)]
    exact hperm.erase client

theorem step {e : AdmissionEvent} (h : Seated s) (hstep : Step s e t) (hroom : Room s e) :
    Seated t := by
  cases hstep with
  | request client hnew => exact h.request hnew hroom
  | addConnection hdequeue => exact h.dequeue hdequeue
  | disconnect hi hgive =>
    rw [h.giveRequest hi] at hgive
    cases hgive
    exact h.disconnect hi

/-- Answers that are right leave room: a client is never denied. -/
theorem room_iff {e : AdmissionEvent} (h : Seated s) (hstep : Step s e t) :
    Room s e ↔ Answered s e := by
  cases hstep with
  | request client hnew =>
    have hfew := h.few
    simp only [Room, Answered, h.response client, reduceCtorEq, false_iff]
    omega
  | addConnection hdequeue => exact Iff.rfl
  | disconnect hi hgive => exact Iff.rfl

theorem placed (h : Seated s) (hdrained : s.manager.connectionQueue = []) : Placed s := by
  obtain ⟨seated, hseats, hperm⟩ := h.seats
  rw [hdrained, List.append_nil] at hperm
  constructor
  · intro c hc
    obtain ⟨i, hi⟩ := (hseats.mem_iff c).mp (hperm.mem_iff.mpr hc)
    refine ⟨i, hseats.handle_eq i c hi, fun j => ⟨fun hj => hseats.slot_unique hj hi, ?_⟩⟩
    rintro rfl
    exact hi
  · intro i c hi
    exact hperm.mem_iff.mp ((hseats.mem_iff c).mpr ⟨i, hi⟩)

end Seated

/-- **Admission.**  Answers are right, and a drained queue leaves every accepted
client in its slot, in just the runs where each request finds room. -/
theorem admits_iff (es : List AdmissionEvent) (t : Admission) :
    (Run (Guarded Step Answered) start es t ∧
        (t.manager.connectionQueue = [] → Placed t)) ↔
      Run (Guarded Step Room) start es t := by
  have hsame : Run (Guarded Step Room) start es t ↔ Run (Guarded Step Answered) start es t :=
    Run.guarded_congr (fun s e t hs hstep hroom => hs.step hstep hroom)
      (fun s e t hs hstep => hs.room_iff hstep) seated_start
  constructor
  · rintro ⟨hanswered, -⟩
    exact hsame.mpr hanswered
  · intro hroom
    have hseated : Seated t :=
      hroom.invariant (fun s e t hs hg => hs.step hg.1 hg.2) seated_start
    exact ⟨hsame.mp hroom, hseated.placed⟩

/-! ## The sixth client -/

def clients : List Client := (List.range 6).map fun id => ⟨id, .FULL_CONTROL⟩

/-- Six clients that connect, and the turns of the queue thread. -/
def sixClients : List AdmissionEvent :=
  (clients.map fun c => .request c .RQ_ACCEPTED) ++ List.replicate 6 .addConnection

/-- The sixth client is accepted like the others, and no slot holds it. -/
theorem sixth_dropped :
    ∃ t, Run Step start sixClients t ∧ t.manager.connectionQueue = [] ∧
      t.accepted = clients ∧ ∀ i, t.manager.connections i ≠ some ⟨5, .FULL_CONTROL⟩ := by
  have hrun : Run Step start sixClients _ :=
    .cons (.request ⟨0, .FULL_CONTROL⟩ rfl) <| .cons (.request ⟨1, .FULL_CONTROL⟩ rfl) <|
    .cons (.request ⟨2, .FULL_CONTROL⟩ rfl) <| .cons (.request ⟨3, .FULL_CONTROL⟩ rfl) <|
    .cons (.request ⟨4, .FULL_CONTROL⟩ rfl) <| .cons (.request ⟨5, .FULL_CONTROL⟩ rfl) <|
    .cons (.addConnection rfl) <| .cons (.addConnection rfl) <| .cons (.addConnection rfl) <|
    .cons (.addConnection rfl) <| .cons (.addConnection rfl) <| .single (.addConnection rfl)
  exact ⟨_, hrun, rfl, rfl, by decide⟩

end Admission

end PiScan.Server

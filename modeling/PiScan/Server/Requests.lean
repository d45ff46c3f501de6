import PiScan.Server.ContextUpdates
import PiScan.Server.Replies

/-!
# The message queue of the server manager

`giveRequest` wraps the requests of the clients, and the application its
updates, into the message classes of `messages.h`; all of them go to the one
`_queue`, and `_handleMessage` takes them from there.

* `Manager.Step.serverMessages_iff`: a step brings no message of another class
  into the queue just when its request is not one that is wrapped for another
  module;
* `handlesAll_iff`: so in just the runs without such requests every queued
  message is one that `_handleMessage` handles.
-/

namespace PiScan.Server.Itc

open Runs
open Machine (ScannerContext)
open ServerManager (slotOf)
open Hub (firstSlot controller)

/-! ## Messages -/

/-- The sources and destinations of messages. -/
inductive Endpoint
  | SYSTEM_CONTROL
  | SCANNER_SM
  | DEMOD
  | SERVER_MAN
  | AUDIO_MAN
  | CLIENT
  | ALL
  deriving DecidableEq, Repr

inductive RequestType
  | NOTIFY_DISCONNECTED
  | SYSTEM_FUNCTION
  | SCANNER_FUNCTION
  | DATABASE_RETRIEVE
  | DATABASE_MODIFY
  | CONFIG_RETRIEVE
  | CONFIG_MODIFY
  | DEMOD_CONFIGURE
  | GET_CONTEXT
  deriving DecidableEq, Repr

/-- The context requests. -/
def SCANNER_CONTEXT : Int := 0
def DEMOD_CONTEXT : Int := 1

/-- The system functions. -/
def SYSTEM_STOP : Int := 0

/-- What the server manager reads of a `ClientRequest`; `source` is the handle of
its connection. -/
structure ClientRequest where
  source : Int
  type : RequestType
  subType : Int
  rqHandle : Int
  deriving DecidableEq, Repr

/-- What `pData` points to. -/
inductive Payload
  | request (rq : ClientRequest)
  | scannerContext (context : ScannerContext)
  | demodContext (context : DemodContext)
  | generalMessage (message : GeneralMessage)
  | level (level : Int)
  deriving DecidableEq, Repr

inductive ControllerMessageType
  | NOTIFY_READY
  | NOTIFY_STOPPED
  | CLIENT_REQUEST
  deriving DecidableEq, Repr

inductive ScannerMessageType
  | CLIENT_REQUEST
  | STATE_CHANGE
  | STOP
  deriving DecidableEq, Repr

inductive DemodMessageType
  | CLIENT_REQUEST
  | SET_SQUELCH
  | SET_GAIN
  | OPEN_AUDIO
  | STOP
  deriving DecidableEq, Repr

inductive AudioMessageType
  | ENABLE_OUTPUT
  | DISABLE_OUTPUT
  | STOP
  deriving DecidableEq, Repr

inductive ServerMessageType
  | CONTEXT_UPDATE
  | SIGNAL_LEVEL
  | NOTIFY_ALL_CLIENTS
  | NOTIFY_USERS
  | NOTIFY_VIEWERS
  | STOP
  deriving DecidableEq, Repr

/-- The subclasses of `Message`; the constructor of each fixes its destination. -/
inductive Message
  | ControllerMessage (source : Endpoint) (type : ControllerMessageType) (pData : Payload)
  | ScannerMessage (source : Endpoint) (type : ScannerMessageType) (pData : Payload)
  | DemodMessage (source : Endpoint) (type : DemodMessageType) (pData : Payload)
  | AudioMessage (source : Endpoint) (type : AudioMessageType) (pData : Payload)
  | ServerMessage (source : Endpoint) (type : ServerMessageType) (pData : Payload)
  deriving DecidableEq, Repr

def Message.destination : Message → Endpoint
  | ControllerMessage .. => .SYSTEM_CONTROL
  | ScannerMessage .. => .SCANNER_SM
  | DemodMessage .. => .DEMOD
  | AudioMessage .. => .AUDIO_MAN
  | ServerMessage .. => .SERVER_MAN

/-- `dynamic_pointer_cast<ServerMessage>`. -/
def Message.asServerMessage : Message → Option (Endpoint × ServerMessageType × Payload)
  | ServerMessage source type pData => some (source, type, pData)
  | _ => none

/-! ## The server manager -/

def permissionMap : RequestType → ConnectionLevel
  | .NOTIFY_DISCONNECTED => .RECEIVE_ONLY
  | .SYSTEM_FUNCTION => .FULL_CONTROL
  | .SCANNER_FUNCTION => .FULL_CONTROL
  | .DATABASE_RETRIEVE => .VIEWER
  | .DATABASE_MODIFY => .FULL_CONTROL
  | .CONFIG_RETRIEVE => .VIEWER
  | .CONFIG_MODIFY => .FULL_CONTROL
  | .DEMOD_CONFIGURE => .FULL_CONTROL
  | .GET_CONTEXT => .RECEIVE_ONLY

/-- The members of `ServerManager` that messages use, and what the calls of each
connection have been passed. -/
structure Manager where
  queue : List Message
  connections : Table
  allowConnections : Bool
  run : Bool
  updates : Client → List Update

/-- What `_handleMessage` does not check in a release build. -/
inductive MessageFault
  | assertion
  | nullCast
  | badCast
  deriving DecidableEq, Repr

namespace Manager

def start : Manager := ⟨[], fun _ => none, false, true, fun _ => []⟩

def giveMessage (s : Manager) (message : Message) : Manager :=
  { s with queue := s.queue ++ [message] }

/-- `ServerManager::_makeContextRequest`. -/
def makeContextRequest (rq : ClientRequest) : Option Message :=
  if rq.subType = SCANNER_CONTEXT then
    some (.ScannerMessage .CLIENT .CLIENT_REQUEST (.request rq))
  else if rq.subType = DEMOD_CONTEXT then
    some (.DemodMessage .CLIENT .CLIENT_REQUEST (.request rq))
  else none

/-- The message of the `switch` of `giveRequest`. -/
def requestMessage (rq : ClientRequest) : Option Message :=
  match rq.type with
  | .SYSTEM_FUNCTION => some (.ControllerMessage .CLIENT .CLIENT_REQUEST (.request rq))
  | .SCANNER_FUNCTION => some (.ScannerMessage .CLIENT .CLIENT_REQUEST (.request rq))
  | .DEMOD_CONFIGURE => some (.DemodMessage .CLIENT .CLIENT_REQUEST (.request rq))
  | .GET_CONTEXT => makeContextRequest rq
  | _ => none

/-- `RQ_INSUFFICIENT_PERMISSION`, as an `int`. -/
def RQ_INSUFFICIENT_PERMISSION : Int := 2

/-- `ServerManager::giveRequest`; `none` where it follows the pointer of an empty
slot, or reads beyond the table.  It returns `rqHandle` even of a request that it
has deleted. -/
def giveRequest (s : Manager) (rq : ClientRequest) : Option (Manager × Int) :=
  match slotOf rq.source with
  | none => none
  | some i =>
    match s.connections i with
    | none => none
    | some client =>
      if client.level.toNat < (permissionMap rq.type).toNat then
        some (s, RQ_INSUFFICIENT_PERMISSION)
      else
        let s := if rq.type = .NOTIFY_DISCONNECTED then
            { s with connections := Function.update s.connections i none }
          else s
        match requestMessage rq with
        | none => some (s, rq.rqHandle)
        | some message => some (s.giveMessage message, rq.rqHandle)

/-- The loops over `_connections` that make one call for each client from a level on. -/
def broadcast (s : Manager) (level : Nat) (update : Update) : Manager :=
  { s with
    updates := (List.finRange MAX_CONNECTIONS).foldl (fun updates i =>
      match s.connections i with
      | none => updates
      | some client =>
        if level ≤ client.level.toNat then
          Function.update updates client (updates client ++ [update])
        else updates) s.updates }

/-- `ServerManager::_broadcastGeneralMessage`. -/
def broadcastGeneralMessage (s : Manager) (group : ServerMessageType) (message : GeneralMessage) :
    Manager :=
  let connectionLevel : ConnectionLevel :=
    match group with
    | .NOTIFY_ALL_CLIENTS => .RECEIVE_ONLY
    | .NOTIFY_USERS => .FULL_CONTROL
    | .NOTIFY_VIEWERS => .VIEWER
    | _ => .VIEWER
  s.broadcast connectionLevel.toNat (.systemMessage message)

/-- `ServerManager::disconnectClients`; every connection notifies that it is gone. -/
def disconnectClients (s : Manager) : Manager :=
  { s with allowConnections := false, connections := fun _ => none }

/-- `ServerManager::_handleMessage`. -/
def handleMessage (s : Manager) (message : Message) : Except MessageFault Manager :=
  if message.destination ≠ .SERVER_MAN then .error .assertion
  else
    match message.asServerMessage with
    | none => .error .nullCast
    | some (source, type, pData) =>
      match type with
      | .CONTEXT_UPDATE =>
        match source, pData with
        | .SCANNER_SM, .scannerContext context =>
          .ok (s.broadcast 0 (.scannerContext context.copy))
        | .DEMOD, .demodContext context => .ok (s.broadcast 0 (.demodContext context))
        | .SCANNER_SM, _ => .error .badCast
        | .DEMOD, _ => .error .badCast
        | _, _ => .ok s
      | .SIGNAL_LEVEL =>
        match pData with
        | .level level => .ok (s.broadcast 0 (.signalLevel level))
        | _ => .error .badCast
      | .STOP => .ok { s.disconnectClients with run := false }
      | group =>
        match pData with
        | .generalMessage message => .ok (s.broadcastGeneralMessage group message)
        | _ => .error .badCast

/-! ## Runs -/

/-- `app::server::scannerContextUpdate`. -/
def scannerUpdate (context : ScannerContext) : Message :=
  .ServerMessage .SCANNER_SM .CONTEXT_UPDATE (.scannerContext (scannerContextUpdate context))

/-- `app::server::demodContextUpdate`. -/
def demodUpdate (context : DemodContext) : Message :=
  .ServerMessage .DEMOD .CONTEXT_UPDATE (.demodContext context)

/-- `app::server::signalLevelUpdate`. -/
def levelUpdate (level : Int) : Message :=
  .ServerMessage .DEMOD .SIGNAL_LEVEL (.level level)

/-- A client that comes, a request, an update of the application, and a message
that the queue thread takes. -/
inductive Event
  | allowConnections
  | connect (i : Fin MAX_CONNECTIONS) (client : Client)
  | giveRequest (rq : ClientRequest)
  | scannerContextUpdate (context : ScannerContext)
  | demodContextUpdate (context : DemodContext)
  | signalLevelUpdate (level : Int)
  | handleMessage (i : Nat)
  deriving DecidableEq, Repr

/-- One event; a fault of `_handleMessage` ends the program. -/
def next (s : Manager) : Event → Option Manager
  | .allowConnections => some { s with allowConnections := true }
  | .connect i client =>
    if s.allowConnections ∧ s.connections i = none then
      some { s with connections := Function.update s.connections i (some client) }
    else none
  | .giveRequest rq => (s.giveRequest rq).map Prod.fst
  | .scannerContextUpdate context => some (s.giveMessage (scannerUpdate context))
  | .demodContextUpdate context => some (s.giveMessage (demodUpdate context))
  | .signalLevelUpdate level => some (s.giveMessage (levelUpdate level))
  | .handleMessage i =>
    match s.queue[i]? with
    | none => none
    | some message =>
      match handleMessage { s with queue := s.queue.eraseIdx i } message with
      | .error _ => none
      | .ok t => some t

def Step (s : Manager) (e : Event) (t : Manager) : Prop := s.next e = some t

/-- Every queued message is a `ServerMessage` for the server manager, so that
`_handleMessage` passes its assertion, and it handles the message. -/
structure HandlesAll (s : Manager) : Prop where
  serverMessage : ∀ m ∈ s.queue, m.destination = .SERVER_MAN ∧ m.asServerMessage.isSome
  handled : ∀ m ∈ s.queue, ∃ t, s.handleMessage m = .ok t

/-- A request that is wrapped into a message for another module. -/
def ForOtherModule (rq : ClientRequest) : Prop :=
  rq.type = .SYSTEM_FUNCTION ∨ rq.type = .SCANNER_FUNCTION ∨ rq.type = .DEMOD_CONFIGURE ∨
    (rq.type = .GET_CONTEXT ∧ (rq.subType = SCANNER_CONTEXT ∨ rq.subType = DEMOD_CONTEXT))

/-- The level of the connection is below that of the request. -/
def Refused (s : Manager) (rq : ClientRequest) : Prop :=
  ∃ i client, slotOf rq.source = some i ∧ s.connections i = some client ∧
    client.level.toNat < (permissionMap rq.type).toNat

/-- The request is refused, or not for another module. -/
def Harmless (s : Manager) : Event → Prop
  | .giveRequest rq => s.Refused rq ∨ ¬ForOtherModule rq
  | _ => True

/-! ## One step -/

/-- The three classes that a request is wrapped into. -/
theorem requestMessage_cases {rq : ClientRequest} {m : Message} (h : requestMessage rq = some m) :
    m = .ControllerMessage .CLIENT .CLIENT_REQUEST (.request rq) ∨
      m = .ScannerMessage .CLIENT .CLIENT_REQUEST (.request rq) ∨
      m = .DemodMessage .CLIENT .CLIENT_REQUEST (.request rq) := by
  unfold requestMessage at h
  cases htype : rq.type with
  | GET_CONTEXT =>
    simp only [htype, makeContextRequest] at h
    split at h
    · exact .inr (.inl (Option.some.inj h).symm)
    · split at h
      · exact .inr (.inr (Option.some.inj h).symm)
      · cases h
  | SYSTEM_FUNCTION => simp_all
  | SCANNER_FUNCTION => simp_all
  | DEMOD_CONFIGURE => simp_all
  | _ => simp [htype] at h

/-- No request is wrapped into a `ServerMessage`. -/
theorem destination_requestMessage {rq : ClientRequest} {m : Message}
    (h : requestMessage rq = some m) : m.destination ≠ .SERVER_MAN := by
  rcases requestMessage_cases h with rfl | rfl | rfl <;> simp [Message.destination]

theorem requestMessage_eq_none_iff (rq : ClientRequest) :
    requestMessage rq = none ↔ ¬ForOtherModule rq := by
  unfold requestMessage ForOtherModule makeContextRequest
  cases rq.type with
  | GET_CONTEXT =>
    by_cases hscanner : rq.subType = SCANNER_CONTEXT
    · simp [hscanner]
    · by_cases hdemod : rq.subType = DEMOD_CONTEXT
      · simp [hdemod, show DEMOD_CONTEXT ≠ SCANNER_CONTEXT by decide]
      · simp [hscanner, hdemod]
  | _ => simp

/-- **A request**: it is refused, or what it is wrapped into is queued. -/
theorem giveRequest_queue {s t : Manager} {rq : ClientRequest} {response : Int}
    (h : s.giveRequest rq = some (t, response)) :
    (s.Refused rq ∧ t.queue = s.queue) ∨
      (¬s.Refused rq ∧ t.queue = s.queue ++ (requestMessage rq).toList) := by
  unfold giveRequest at h
  split at h
  · cases h
  · rename_i i hi
    split at h
    · cases h
    · rename_i client hclient
      split at h
      · rename_i hlevel
        obtain ⟨rfl, -⟩ := Prod.mk.inj (Option.some.inj h)
        exact .inl ⟨⟨i, client, hi, hclient, hlevel⟩, rfl⟩
      · rename_i hlevel
        have hnot : ¬s.Refused rq := by
          rintro ⟨j, client', hj, hclient', hlow⟩
          obtain rfl : i = j := Option.some.inj (hi.symm.trans hj)
          obtain rfl : client = client' := Option.some.inj (hclient.symm.trans hclient')
          exact hlevel hlow
        refine .inr ⟨hnot, ?_⟩
        simp only at h
        split at h
        · rename_i hm
          obtain ⟨rfl, -⟩ := Prod.mk.inj (Option.some.inj h)
          rw [hm]
          split <;> simp
        · rename_i m hm
          obtain ⟨rfl, -⟩ := Prod.mk.inj (Option.some.inj h)
          rw [hm]
          simp only [giveMessage]
          split <;> simp

/-- A message is handled without looking at the queue. -/
theorem handleMessage_queue {s t : Manager} {m : Message} (h : s.handleMessage m = .ok t) :
    t.queue = s.queue := by
  unfold handleMessage at h
  split at h
  · cases h
  · split at h
    · cases h
    · split at h
      · split at h
        · exact (Except.ok.inj h) ▸ rfl
        · exact (Except.ok.inj h) ▸ rfl
        · cases h
        · cases h
        · exact (Except.ok.inj h) ▸ rfl
      · split at h
        · exact (Except.ok.inj h) ▸ rfl
        · cases h
      · exact (Except.ok.inj h) ▸ rfl
      · split at h
        · exact (Except.ok.inj h) ▸ rfl
        · cases h

/-- The messages for the server manager are those of the application. -/
def FromApplication (s : Manager) : Prop :=
  ∀ m ∈ s.queue, m.destination = .SERVER_MAN →
    (∃ context, m = scannerUpdate context) ∨ (∃ context, m = demodUpdate context) ∨
      ∃ level, m = levelUpdate level

/-- Every queued message is for the server manager. -/
def ForServer (s : Manager) : Prop := ∀ m ∈ s.queue, m.destination = .SERVER_MAN

/-- An update of the application is handled. -/
theorem handlesAll_iff_forServer {s : Manager} (h : s.FromApplication) :
    s.HandlesAll ↔ s.ForServer := by
  constructor
  · intro hall m hm
    exact (hall.serverMessage m hm).1
  · intro hall
    constructor
    · intro m hm
      refine ⟨hall m hm, ?_⟩
      rcases h m hm (hall m hm) with ⟨context, rfl⟩ | ⟨context, rfl⟩ | ⟨level, rfl⟩ <;> rfl
    · intro m hm
      rcases h m hm (hall m hm) with ⟨context, rfl⟩ | ⟨context, rfl⟩ | ⟨level, rfl⟩ <;>
        exact ⟨_, rfl⟩

/-- What an event puts into the queue. -/
inductive Sent (s : Manager) : Event → List Message → Prop
  | allowConnections : Sent s .allowConnections []
  | connect (i : Fin MAX_CONNECTIONS) (client : Client) : Sent s (.connect i client) []
  | refused {rq : ClientRequest} (h : s.Refused rq) : Sent s (.giveRequest rq) []
  | request {rq : ClientRequest} (h : ¬s.Refused rq) :
      Sent s (.giveRequest rq) (requestMessage rq).toList
  | scannerContextUpdate (context : ScannerContext) :
      Sent s (.scannerContextUpdate context) [scannerUpdate context]
  | demodContextUpdate (context : DemodContext) :
      Sent s (.demodContextUpdate context) [demodUpdate context]
  | signalLevelUpdate (level : Int) : Sent s (.signalLevelUpdate level) [levelUpdate level]
  | handleMessage (i : Nat) : Sent s (.handleMessage i) []

/-- **One event** takes messages from the queue and puts some behind the others. -/
theorem Step.queue {s t : Manager} {e : Event} (h : s.Step e t) :
    ∃ kept sent, t.queue = kept ++ sent ∧ (∀ m ∈ kept, m ∈ s.queue) ∧ s.Sent e sent := by
  unfold Step next at h
  cases e with
  | allowConnections =>
    obtain rfl := Option.some.inj h
    exact ⟨s.queue, [], by simp, fun m hm => hm, .allowConnections⟩
  | connect i client =>
    simp only at h
    split at h
    · obtain rfl := Option.some.inj h
      exact ⟨s.queue, [], by simp, fun m hm => hm, .connect i client⟩
    · cases h
  | giveRequest rq =>
    obtain ⟨⟨t', response⟩, hgive, rfl⟩ := Option.map_eq_some_iff.mp h
    rcases giveRequest_queue hgive with ⟨hrefused, hqueue⟩ | ⟨hnot, hqueue⟩
    · exact ⟨s.queue, [], by simp [hqueue], fun m hm => hm, .refused hrefused⟩
    · exact ⟨s.queue, _, hqueue, fun m hm => hm, .request hnot⟩
  | scannerContextUpdate context =>
    obtain rfl := Option.some.inj h
    exact ⟨s.queue, _, rfl, fun m hm => hm, .scannerContextUpdate context⟩
  | demodContextUpdate context =>
    obtain rfl := Option.some.inj h
    exact ⟨s.queue, _, rfl, fun m hm => hm, .demodContextUpdate context⟩
  | signalLevelUpdate level =>
    obtain rfl := Option.some.inj h
    exact ⟨s.queue, _, rfl, fun m hm => hm, .signalLevelUpdate level⟩
  | handleMessage i =>
    simp only at h
    split at h
    · cases h
    · rename_i message _
      split at h
      · cases h
      · rename_i t' hhandle
        obtain rfl := Option.some.inj h
        have hqueue : t'.queue = s.queue.eraseIdx i := handleMessage_queue hhandle
        refine ⟨s.queue.eraseIdx i, [], by simp [hqueue], ?_, .handleMessage i⟩
        intro m hm
        exact List.mem_of_mem_eraseIdx hm

theorem Step.fromApplication {s t : Manager} {e : Event} (h : s.Step e t)
    (hs : s.FromApplication) : t.FromApplication := by
  obtain ⟨kept, sent, hqueue, hkept, hsent⟩ := h.queue
  intro m hm hdest
  rw [hqueue] at hm
  rcases List.mem_append.mp hm with hm | hm
  · exact hs m (hkept m hm) hdest
  · cases hsent with
    | @request rq hnot =>
      have hmessage : requestMessage rq = some m := by simpa using hm
      exact absurd hdest (destination_requestMessage hmessage)
    | scannerContextUpdate context => exact .inl ⟨context, by simpa using hm⟩
    | demodContextUpdate context => exact .inr (.inl ⟨context, by simpa using hm⟩)
    | signalLevelUpdate level => exact .inr (.inr ⟨level, by simpa using hm⟩)
    | _ => simp at hm

/-- **One event** brings no message for another module just when it is harmless. -/
theorem Step.forServer_iff {s t : Manager} {e : Event} (h : s.Step e t) (hs : s.ForServer) :
    t.ForServer ↔ s.Harmless e := by
  obtain ⟨kept, sent, hqueue, hkept, hsent⟩ := h.queue
  have hall : t.ForServer ↔ ∀ m ∈ sent, m.destination = .SERVER_MAN := by
    unfold ForServer
    rw [hqueue]
    constructor
    · intro ht m hm
      exact ht m (List.mem_append_right kept hm)
    · intro ht m hm
      rcases List.mem_append.mp hm with hm | hm
      · exact hs m (hkept m hm)
      · exact ht m hm
  rw [hall]
  cases hsent with
  | refused hrefused => simp [Harmless, hrefused]
  | @request rq hnot =>
    simp only [Harmless, hnot, false_or, ← requestMessage_eq_none_iff]
    cases hmessage : requestMessage rq with
    | none => simp
    | some m => simpa using destination_requestMessage hmessage
  | _ => simp [Harmless, scannerUpdate, demodUpdate, levelUpdate, Message.destination]

theorem Step.unique (s : Manager) (e : Event) (t t' : Manager) (h : s.Step e t)
    (h' : s.Step e t') : t = t' :=
  Option.some.inj (h.symm.trans h')

/-- **What is queued can be handled** in every state of a run if and only if no
request of the run that is accepted is wrapped for another module. -/
theorem handlesAll_iff {es : List Event} {t : Manager} (hrun : Run Step start es t) :
    Throughout Step HandlesAll start es ↔ Run (Guarded Step Harmless) start es t := by
  have hstart : start.FromApplication := by
    intro m hm
    cases hm
  apply hrun.throughout_iff Step.unique (I := FromApplication) ?_ ?_ hstart
  · rw [handlesAll_iff_forServer hstart]
    intro m hm
    cases hm
  · intro s e t hs hstep
    exact hstep.fromApplication hs
  · intro s e t hs hall hstep
    rw [handlesAll_iff_forServer (hstep.fromApplication hs)]
    exact hstep.forServer_iff ((handlesAll_iff_forServer hs).mp hall)

/-- A controlling client in the first slot gets a signal level. -/
def levelHandled : List Event :=
  [.allowConnections, .connect firstSlot controller, .signalLevelUpdate 50, .handleMessage 0]

/-- It stops the system. -/
def systemStop : ClientRequest :=
  { source := 0, type := .SYSTEM_FUNCTION, subType := SYSTEM_STOP, rqHandle := 0 }

/-- The table with the client in the first slot. -/
def connected : Manager :=
  { start with
    allowConnections := true
    connections := Function.update (fun _ => none) firstSlot (some controller) }

theorem handlesAll_level : ∃ t, Run Step start levelHandled t ∧
    Throughout Step HandlesAll start levelHandled := by
  have hrun : Run (Guarded Step Harmless) start levelHandled
      (connected.broadcast 0 (.signalLevel 50)) :=
    .cons ⟨rfl, trivial⟩ (.cons ⟨rfl, trivial⟩ (.cons ⟨rfl, trivial⟩
      (.cons ⟨rfl, trivial⟩ (.nil _))))
  exact ⟨_, hrun.of_guarded, (handlesAll_iff hrun.of_guarded).mpr hrun⟩

/-- The request to stop is queued as a `ControllerMessage`. -/
theorem stop_not_handled : ∃ t,
    Run Step start [.allowConnections, .connect firstSlot controller, .giveRequest systemStop] t ∧
      ¬t.HandlesAll ∧ ∃ m ∈ t.queue, t.handleMessage m = .error .assertion := by
  refine ⟨connected.giveMessage (.ControllerMessage .CLIENT .CLIENT_REQUEST (.request systemStop)),
    .cons rfl (.cons rfl (.cons rfl (.nil _))), ?_, _, List.mem_singleton_self _, rfl⟩
  intro h
  have hdest := (h.serverMessage _ (List.mem_singleton_self _)).1
  cases hdest

end Manager

/-- For a client that is gone, the manager frees its slot as admission has it. -/
theorem giveRequest_notifyDisconnected (s : Manager) (m : ServerManager)
    (h : m.connections = s.connections) (source subType rqHandle : Int) :
    (s.giveRequest ⟨source, .NOTIFY_DISCONNECTED, subType, rqHandle⟩).map
        (fun result => result.1.connections) =
      (m.giveRequest source).map ServerManager.connections := by
  simp only [Manager.giveRequest, ServerManager.giveRequest, h]
  cases slotOf source with
  | none => rfl
  | some i =>
    simp only
    cases s.connections i with
    | none => rfl
    | some client =>
      simp [permissionMap, ConnectionLevel.toNat, notifyDisconnectedLevel,
        Manager.requestMessage]

end PiScan.Server.Itc

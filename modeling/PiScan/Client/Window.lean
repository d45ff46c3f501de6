import PiScan.Client.Messages
import PiScan.Server.ContextUpdates
import PiScan.Server.WriteBuffer

/-!
# The window of a client

`handleReceived` and `decodeMessage` of `client/py/client.py`, `updateScanContext` and
`updateSignalIndicator` of `client/py/scanner.py`.  Every read is parsed as one message
of its own.  How a frequency is written in megahertz is a parameter; the sliders, which a
demodulator context moves, are left out here.

* `shows_readAll`: reads that are the messages one by one leave the window with the last
  scanner context among them;
* `window_follows`: from the state machine over the queue of the server, the write buffer
  of the connection and the reads of the client, the window shows the current entry.
-/

namespace PiScan.Client

open Wire Server

inductive WindowMode
  | CONNECT
  | SCANNER
  | DIALOG
  deriving DecidableEq, Repr

inductive ScanPage
  | scanPage
  | holdPage
  deriving DecidableEq, Repr

structure Window where
  mode : WindowMode
  contextWait : Bool
  scanContext : ScanPage
  sigStrengthBar : Int
  entryNumLabel : String
  systemTagLabel : String
  entryTagLabel : String
  frequencyLabel : String
  modulationLabel : String
  windowTitle : String
  modulations : List String
  deriving DecidableEq, Repr

namespace Window

/-- `setValue` of the progress bar: a value out of its range is not shown. -/
def setBar (w : Window) (value : Int) : Window :=
  if 0 ≤ value ∧ value ≤ 100 then { w with sigStrengthBar := value } else w

/-- `setWindowTitleInfo`. -/
def setWindowTitleInfo (w : Window) (message : String) : Window :=
  { w with windowTitle := "PiScan | " ++ message }

variable (megahertz : BitVec 64 → String)

/-- The labels that `updateScanContext` sets outside a scan. -/
def setEntry (w : Window) (entry : Entry) : Window :=
  setWindowTitleInfo { w with
    entryNumLabel := entry.entryIndex
    systemTagLabel := entry.systemTag
    entryTagLabel := entry.entryTag
    frequencyLabel := megahertz entry.freq ++ " MHz"
    modulationLabel := entry.modulation } (entry.entryIndex ++ ": " ++ entry.entryTag)

/-- `Scanner.updateScanContext`. -/
def updateScanContext (w : Window) (context : ScannerContext) : Window :=
  if context.state = ScannerContext.SCAN then
    ({ w with scanContext := .scanPage }.setBar 0).setWindowTitleInfo "Scanning"
  else
    let w := w.setEntry megahertz (context.entryData.getD .init)
    if context.state = ScannerContext.HOLD then { w.setBar 0 with scanContext := .holdPage }
    else if context.state = ScannerContext.RECEIVE then { w with scanContext := .holdPage }
    else w

/-- `Scanner.updateSignalIndicator`. -/
def updateSignalIndicator (w : Window) (level : BitVec 32) : Window := w.setBar level.toInt

/-- The first scanner context after a connection opens the window. -/
def endContextWait (w : Window) : Window :=
  if w.contextWait then { w with mode := .SCANNER, contextWait := false } else w

/-- `PiScanClient.decodeMessage`. -/
def decodeMessage (w : Window) (message : ServerToClient) : Window :=
  match message.content with
  | .systemInfo info => { w with modulations := w.modulations ++ info.supportedModulations }
  | content =>
    if message.type = ServerToClient.SCANNER_CONTEXT then
      (w.updateScanContext megahertz content.getScannerContext).endContextWait
    else if message.type = ServerToClient.DEMOD_CONTEXT then w
    else
      match content with
      | .signalLevel m => w.updateSignalIndicator m.level
      | _ => w

/-- `PiScanClient.handleReceived`: a read that is no message raises an exception. -/
def handleReceived (w : Window) (data : Bytes) : Window :=
  let (message, ok) := ServerToClient.parse data
  if ok then w.decodeMessage megahertz message else w

/-- The reads of `receive`, one after the other. -/
def readAll (w : Window) (reads : List Bytes) : Window :=
  reads.foldl (handleReceived megahertz) w

/-! ## What the window shows -/

/-- The page of the context and, unless scanning, the labels of its entry. -/
structure Shows (context : Machine.ScannerContext) (w : Window) : Prop where
  scan : context.state = .SCAN → w.scanContext = .scanPage ∧ w.windowTitle = "PiScan | Scanning"
  page : context.state = .HOLD ∨ context.state = .RECEIVE → w.scanContext = .holdPage
  entry : context.state ≠ .SCAN →
    w.systemTagLabel = context.systemTag ∧ w.entryTagLabel = context.entryTag ∧
      w.frequencyLabel = megahertz (BitVec.ofInt 64 context.frequency) ++ " MHz" ∧
      w.modulationLabel = context.modulation ∧ w.entryNumLabel = cStr context.entryIndex ∧
      w.windowTitle = "PiScan | " ++ (cStr context.entryIndex ++ ": " ++ context.entryTag)

variable {megahertz} {w : Window} {context : Machine.ScannerContext}

@[simp] theorem setBar_scanContext (w : Window) (value : Int) :
    (w.setBar value).scanContext = w.scanContext := by
  unfold setBar
  split <;> rfl

/-- The signal bar is not part of what the context shows. -/
theorem Shows.setBar (h : w.Shows megahertz context) (value : Int) :
    (w.setBar value).Shows megahertz context := by
  unfold Window.setBar
  split
  · exact ⟨h.scan, h.page, h.entry⟩
  · exact h

theorem Shows.endContextWait (h : w.Shows megahertz context) :
    w.endContextWait.Shows megahertz context := by
  unfold Window.endContextWait
  split
  · exact ⟨h.scan, h.page, h.entry⟩
  · exact h

/-- The labels are those of the entry. -/
theorem shows_setEntry (w : Window) (hX : context.state ≠ .SCAN)
    (hpage : context.state = .HOLD ∨ context.state = .RECEIVE → w.scanContext = .holdPage) :
    (w.setEntry megahertz (.ofContext context)).Shows megahertz context :=
  ⟨fun h => absurd h hX, hpage, fun _ => ⟨rfl, rfl, rfl, rfl, rfl, rfl⟩⟩

theorem shows_updateScanContext (w : Window) (context : Machine.ScannerContext) :
    (w.updateScanContext megahertz (.ofContext context)).Shows megahertz context := by
  have hstate : (ScannerContext.ofContext context).state =
      BitVec.ofInt 32 (stateNumber context.state) := rfl
  unfold updateScanContext
  cases hX : context.state with
  | SCAN =>
    rw [if_pos (by rw [hstate, hX]; decide)]
    refine ⟨fun _ => ⟨?_, rfl⟩, fun h => ?_, fun h => absurd hX h⟩
    · simp [setWindowTitleInfo]
    · rw [hX] at h
      rcases h with h | h <;> cases h
  | HOLD =>
    rw [if_neg (by rw [hstate, hX]; decide), if_pos (by rw [hstate, hX]; decide)]
    have hne : context.state ≠ .SCAN := by
      rw [hX]
      decide
    rw [Window.setBar, if_pos (by decide)]
    exact shows_setEntry { w with sigStrengthBar := 0, scanContext := .holdPage } hne fun _ => rfl
  | RECEIVE =>
    rw [if_neg (by rw [hstate, hX]; decide), if_neg (by rw [hstate, hX]; decide),
      if_pos (by rw [hstate, hX]; decide)]
    have hne : context.state ≠ .SCAN := by
      rw [hX]
      decide
    exact shows_setEntry { w with scanContext := .holdPage } hne fun _ => rfl
  | OTHER_STATE =>
    rw [if_neg (by rw [hstate, hX]; decide), if_neg (by rw [hstate, hX]; decide),
      if_neg (by rw [hstate, hX]; decide)]
    refine shows_setEntry w (by rw [hX]; decide) fun h => ?_
    rw [hX] at h
    rcases h with h | h <;> cases h

theorem shows_scannerContext (w : Window) (context : Machine.ScannerContext) :
    (w.decodeMessage megahertz (messageOf (.scannerContext context))).Shows megahertz context :=
  (shows_updateScanContext w context).endContextWait

/-- Another update leaves the window with the context it shows. -/
theorem Shows.decodeMessage (h : w.Shows megahertz context) {u : Update}
    (hu : ∀ c, u ≠ .scannerContext c) :
    (w.decodeMessage megahertz (messageOf u)).Shows megahertz context := by
  cases u with
  | scannerContext c => exact absurd rfl (hu c)
  | demodContext c => exact h
  | systemMessage m => exact h
  | systemInfo info => exact ⟨h.scan, h.page, h.entry⟩
  | signalLevel level => exact h.setBar _

/-! ## Reads that are the messages one by one -/

/-- The scanner contexts among some updates. -/
def contexts (us : List Update) : List Machine.ScannerContext :=
  us.filterMap fun
    | .scannerContext context => some context
    | _ => none

theorem readAll_encode (w : Window) (us : List Update) (h : ∀ u ∈ us, u.encode.length < 2 ^ 31) :
    w.readAll megahertz (us.map Update.encode) =
      us.foldl (fun w u => w.decodeMessage megahertz (messageOf u)) w := by
  induction us generalizing w with
  | nil => rfl
  | cons u us ih =>
    have hread : w.handleReceived megahertz u.encode = w.decodeMessage megahertz (messageOf u) := by
      rw [handleReceived, ServerToClient.parse_update u (h u (List.mem_cons_self ..))]
      rfl
    rw [List.map_cons, readAll, List.foldl_cons, hread, List.foldl_cons]
    exact ih _ fun u' hu' => h u' (List.mem_cons_of_mem u hu')

/-- **The last context** among the messages is what the window shows. -/
theorem shows_readAll (w : Window) {us : List Update} (h : ∀ u ∈ us, u.encode.length < 2 ^ 31)
    (hlast : (contexts us).getLast? = some context) :
    (w.readAll megahertz (us.map Update.encode)).Shows megahertz context := by
  rw [readAll_encode w us h]
  clear h
  induction us using List.reverseRecOn with
  | nil => cases hlast
  | append_singleton us u ih =>
    rw [List.foldl_append, List.foldl_cons, List.foldl_nil]
    have hsnoc : contexts (us ++ [u]) = contexts us ++ contexts [u] := List.filterMap_append ..
    rw [hsnoc] at hlast
    cases u with
    | scannerContext c =>
      obtain rfl : c = context := by simpa [contexts] using hlast
      exact shows_scannerContext _ c
    | _ =>
      refine (ih ?_).decodeMessage fun c hc => by cases hc
      simpa [contexts] using hlast

/-! ## From the scanner to the window -/

section Follows

open Machine (ContextState activations States)
open Runs
open SocketConnection (Sending WriteBuffer Message SendEvent)

variable {file : Scan.SystemsFile} {demod : Sigproc.Demodulator} {table : Table}
  {ls : List HubLabel} {s : Hub} {i : Fin MAX_CONNECTIONS} {client : Client} {a : States}
  {X : ContextState} {b : WriteBuffer} {es : List SendEvent} {t : Sending}

/-- The parts of a stream are known by their lengths. -/
theorem reads_eq {reads : List Bytes}
    (hsend : Run (Guarded Sending.Step Sending.Whole) (Sending.idle b) es t)
    (hdone : t.pending = []) (hreads : reads.flatten = t.received)
    (haligned : reads.map List.length = (Sending.calls es).map fun m => m.encode.length) :
    reads = ((Sending.calls es).map Message.update).map Update.encode := by
  obtain ⟨served, pieces, hqueue, hreceived, -, hwhole⟩ := Sending.transfers hsend.of_guarded
  rw [hwhole.mp hsend] at hreceived
  have hserved : Sending.calls es = served := by
    rw [hdone, List.append_nil] at hqueue
    simpa [Sending.idle] using hqueue
  have hencode : ((Sending.calls es).map Message.update).map Update.encode =
      served.map Message.encode := by
    rw [hserved, List.map_map]
    rfl
  rw [hencode]
  refine List.eq_iff_flatten_eq.mpr ⟨?_, ?_⟩
  · rw [hreads, hreceived]
    simp [Sending.idle]
  · rw [haligned, hserved, List.map_map]
    rfl

variable (megahertz) in
/-- **The window follows the scanner.**  After every `ST_Scan`, `ST_Hold` and `ST_Receive`
of an atomic run over a database in which no index is taken in manual mode, once the queue
of the server is empty, the connection has written every message whole and the client has
read them one by one, the window shows the state of the scanner and, unless it scans, its
current entry with the labels of that entry. -/
theorem window_follows
    (h : Run (Guarded Hub.Step fun s l => s.Atomic l ∧ s.IndexFree l)
      (Hub.start file demod table) ls s)
    (hi : table i = some client) (hstay : .disconnect i ∉ ls) (hidle : s.world.pc = .idle)
    (ha : (activations (machineLabels ls)).getLast? = some a) (hX : a.context? = some X)
    (hsize : s.world.sm.data.systems.size ≠ 0) (hq : s.queue = [])
    (hsend : Run (Guarded Sending.Step Sending.Whole) (Sending.idle b) es t)
    (hdone : t.pending = [])
    (hcalls : contexts ((Sending.calls es).map Message.update) = s.updates client)
    {reads : List Bytes} (hreads : reads.flatten = t.received)
    (haligned : reads.map List.length = (Sending.calls es).map fun m => m.encode.length)
    (w : Window) :
    ∃ context, (w.readAll megahertz reads).Shows megahertz context ∧ context.state = X ∧
      (X ≠ .SCAN → ∃ e, s.world.sm.data.entry = .ok e ∧ context.frequency = e.freq ∧
        context.modulation = e.modulation ∧ s.world.sm.data.LabelsOf e context) := by
  have htold := Hub.told_run hi h hstay
  have hshown := htold.context.done hidle a X ha hX fun _ => hsize
  have hsent : s.world.sm.data.sent ≠ [] := by
    intro hnil
    have hlast := hshown.sent
    rw [hnil] at hlast
    cases hlast
  have hlast : (contexts ((Sending.calls es).map Message.update)).getLast? =
      some s.world.sm.data.currentContext.copy := by
    rw [hcalls, htold.told hq hsent, hshown.sent, Option.map_some]
  have hfits : ∀ u ∈ (Sending.calls es).map Message.update, u.encode.length < 2 ^ 31 := by
    intro u hu
    obtain ⟨m, -, rfl⟩ := List.mem_map.mp hu
    exact Nat.lt_of_le_of_lt m.fits (by decide)
  rw [reads_eq hsend hdone hreads haligned]
  refine ⟨_, shows_readAll w hfits hlast, hshown.state, fun hne => ?_⟩
  obtain ⟨e, he⟩ := hshown.tells hne
  exact ⟨e, he.entry, he.frequency, he.modulation,
    he.tags.labelsOf (htold.mode.mode_at hidle rfl)⟩

/-- The machine runs while the queue fills. -/
theorem machine_run_queue {w w' : Machine.World} {ls : List Machine.Label}
    (h : Run (Guarded Machine.World.Step fun w l => w.Atomic l ∧ w.IndexFree l) w ls w') {s : Hub}
    (hw : s.world = w) :
    ∃ s', Run (Guarded Hub.Step fun s l => s.Atomic l ∧ s.IndexFree l) s (ls.map .machine) s' ∧
      s'.world = w' ∧ s'.connections = s.connections ∧ s'.updates = s.updates ∧
      w.sm.data.sent <+: w'.sm.data.sent ∧ s'.queue = s.queue ++
        (w'.sm.data.sent.drop w.sm.data.sent.length).map scannerContextUpdate := by
  induction h generalizing s with
  | nil w => exact ⟨s, .nil s, hw, rfl, rfl, List.prefix_refl _, by simp⟩
  | @cons w w₁ w' l ls hs _ ih =>
    subst hw
    obtain ⟨hstep, hatomic, hindex⟩ := hs
    obtain ⟨s', hr, hw', hconnections, hupdates, hprefix, hqueue⟩ := ih (s :=
      { s with
        world := w₁
        queue := s.queue ++
          (w₁.sm.data.sent.drop s.world.sm.data.sent.length).map scannerContextUpdate }) rfl
    have hw₁ : Machine.World.step l s.world = some w₁ := hstep
    have hfirst := Machine.World.sent_prefix hstep
    refine ⟨s', .cons ⟨?_, hatomic, hindex⟩ hr, hw', hconnections, hupdates,
      hfirst.trans hprefix, ?_⟩
    · simp only [Hub.Step, Hub.step, hw₁, Option.map_some]
    · obtain ⟨t₁, ht₁⟩ := hfirst
      obtain ⟨t₂, ht₂⟩ := hprefix
      rw [hqueue, ← ht₂, ← ht₁]
      simp

/-- A message that is written before the next call. -/
theorem send_whole {s : Sending} (hidle : s.pending = []) (m : Message) (hm : 1 ≤ m.encode.length) :
    ∃ t, Run (Guarded Sending.Step Sending.Whole) s [.call m, .transfer m.encode.length] t ∧
      t.pending = [] ∧ t.received = s.received ++ m.encode := by
  have htransfer : (s.call m).transfer m.encode.length = some { s.call m with
      pending := [], received := s.received ++ m.encode } := by
    simp [Sending.call, Sending.transfer, hidle, hm, WriteBuffer.serialize]
  refine ⟨_, .cons ⟨rfl, trivial⟩ (.single ⟨htransfer, ?_⟩), rfl, rfl⟩
  intro m' hm'
  obtain rfl : m = m' := by simpa [Sending.call, hidle] using hm'
  exact ⟨rfl, List.prefix_append ..⟩

/-- The contexts of a hold on the one channel of a database. -/
def scanned : Machine.ScannerContext := { Machine.ScannerContext.new with state := .SCAN }

def held : Machine.ScannerContext :=
  { state := .HOLD, systemTag := "link", entryTag := "uplink", frequency := 446006250,
    modulation := "NFM", entryIndex := "0-0", delayMS := 2000, lockout := false }

theorem sent_holdChannel :
    ((Machine.World.start Machine.oneChannelFile Machine.tunedDemod).after
      Hub.holdChannel).sm.data.sent = [scanned, held] := by
  decide +kernel

def scannedMessage : Message := ⟨.scannerContext scanned.copy, by decide +kernel⟩

def heldMessage : Message := ⟨.scannerContext held.copy, by decide +kernel⟩

theorem exists_hub_held :
    ∃ ls s, Run (Guarded Hub.Step fun s l => s.Atomic l ∧ s.IndexFree l)
        (Hub.start Machine.oneChannelFile Machine.tunedDemod Hub.oneConnection) ls s ∧
      machineLabels ls = Hub.holdChannel ∧ (∀ i, .disconnect i ∉ ls) ∧ s.queue = [] ∧
      s.world = (Machine.World.start Machine.oneChannelFile Machine.tunedDemod).after
        Hub.holdChannel ∧ s.updates Hub.controller = [scanned.copy, held.copy] := by
  obtain ⟨s₁, h₁, hw₁, hconnections, hupdates, -, hqueue⟩ := machine_run_queue
    Hub.atomic_holdChannel (s := Hub.start Machine.oneChannelFile Machine.tunedDemod
      Hub.oneConnection) rfl
  rw [sent_holdChannel] at hqueue
  replace hqueue : s₁.queue = [scannerContextUpdate scanned, scannerContextUpdate held] := hqueue
  let s₂ : Hub := { s₁ with
    queue := [scannerContextUpdate held]
    updates := broadcastContextUpdate s₁.connections (scannerContextUpdate scanned) s₁.updates }
  let s₃ : Hub := { s₂ with
    queue := []
    updates := broadcastContextUpdate s₁.connections (scannerContextUpdate held) s₂.updates }
  have hstep₁ : Hub.Step s₁ .handleMessage s₂ := by
    simp only [Hub.Step, Hub.step, hqueue]
    rfl
  have hstep₂ : Hub.Step s₂ .handleMessage s₃ := rfl
  refine ⟨_, s₃, (h₁.snoc ⟨hstep₁, trivial, trivial⟩).snoc ⟨hstep₂, trivial, trivial⟩, ?_, ?_, rfl,
    hw₁, ?_⟩
  · rw [List.append_assoc]
    exact Hub.machineLabels_drained Hub.holdChannel 2
  · intro i hi
    simp at hi
  · simp only [s₃, s₂, hconnections, hupdates]
    rfl

/-- A hold on the one channel of a database, the first entry the client is told of. -/
theorem window_follows_hold :
    ∃ (s : Hub) (reads : List Bytes) (context : Machine.ScannerContext),
      (s.updates Hub.controller).length = 2 ∧ context.state = .HOLD ∧
      (Window.readAll (fun n => toString n.toNat) ⟨.CONNECT, true, .scanPage, 24, "", "", "", "", "",
        "PiScan", []⟩ reads).Shows (fun n => toString n.toNat) context := by
  obtain ⟨ls, s, hr, hls, hstay, hq, hw, hupdates⟩ := exists_hub_held
  obtain ⟨t₁, hsend₁, hpending₁, hreceived₁⟩ := send_whole (s := Sending.idle Sending.zeroed) rfl
    scannedMessage (by decide +kernel)
  obtain ⟨t₂, hsend₂, hpending₂, hreceived₂⟩ := send_whole hpending₁ heldMessage (by decide +kernel)
  have hlast : (activations (machineLabels ls)).getLast? = some .ST_HOLD := by
    rw [hls]
    rfl
  have hreads : [scannedMessage.encode, heldMessage.encode].flatten = t₂.received := by
    rw [hreceived₂, hreceived₁]
    simp [Sending.idle]
  obtain ⟨context, hshows, hstate, -⟩ := window_follows (fun n => toString n.toNat) hr
    (show Hub.oneConnection Hub.firstSlot = some Hub.controller from rfl) (hstay Hub.firstSlot)
    (by rw [hw]; decide +kernel) hlast rfl (by rw [hw]; decide +kernel) hq (hsend₁.append hsend₂)
    hpending₂ (by rw [hupdates]; rfl) hreads rfl
    ⟨.CONNECT, true, .scanPage, 24, "", "", "", "", "", "PiScan", []⟩
  exact ⟨s, _, context, by rw [hupdates]; rfl, hstate, hshows⟩

end Follows

end Window

end PiScan.Client

import PiScan.Machine.ManualMode
import PiScan.Server.Connections

/-!
# What the clients are told

A context goes from `_broadcastContextUpdate` of the state machine by value to
`scannerContextUpdate`, as a copy on the heap into the queue of the server, and
as one more copy to every connection.  The copy constructor of `ScannerContext`
leaves out `delayMS` and `lockout`.

* `Posted.step`: between two activations the current context is the last one sent;
* `Told.step`: with an empty queue, a connected client has been passed a copy of it;
* `context_seen_iff`: so after every activation it is the real one just when the
  entry has no delay and is not locked out;
* `delay_not_seen`: a run in which it is not.
-/

namespace PiScan.Machine

open Scan Sigproc Runs

/-- The copy constructor of `ScannerContext`. -/
def ScannerContext.copy (ctx : ScannerContext) : ScannerContext :=
  { ctx with delayMS := 0, lockout := false }

@[simp] theorem ScannerContext.copy_copy (ctx : ScannerContext) : ctx.copy.copy = ctx.copy := rfl

namespace ThreadData

variable {d d' : ThreadData}

/-! ## Contexts are only added -/

theorem onlyIf_sent {c : Bool} {f : ThreadData → Except Fault ThreadData}
    (hf : ∀ {d d' : ThreadData}, f d = .ok d' → d.sent <+: d'.sent) (h : d.onlyIf c f = .ok d') :
    d.sent <+: d'.sent := by
  unfold onlyIf at h
  split at h
  · exact hf h
  · rw [← Except.ok.inj h]

theorem broadcastContextUpdate_sent (h : d.broadcastContextUpdate = .ok d') :
    d.sent <+: d'.sent := by
  obtain ⟨ctx, -, rfl⟩ := broadcastContextUpdate_spec h
  exact List.prefix_append _ _

theorem enterState_sent {audio update : Bool} {X : ContextState}
    (h : d.enterState audio X update = .ok d') : d.sent <+: d'.sent := by
  simp only [enterState, bind_eq_ok] at h
  obtain ⟨d₁, h₁, h₂⟩ := h
  rw [← enableAudioOut_sent h₁]
  exact onlyIf_sent (d := { d₁ with currentContext := { d₁.currentContext with state := X } })
    broadcastContextUpdate_sent h₂

theorem holdEntry_sent {update signal found : Bool}
    (h : d.holdEntry update signal = .ok (found, d')) : d.sent <+: d'.sent := by
  simp only [holdEntry, bind_eq_ok] at h
  obtain ⟨d₁, h₁, d₂, h₂, h₃⟩ := h
  rw [entrySignal_sent h₃, ← skipDummies_sent h₁]
  exact enterState_sent h₂

theorem scanEntry_sent {changed signal : Bool} {next : States}
    (h : d.scanEntry changed signal = .ok (next, d')) : d.sent <+: d'.sent := by
  simp only [scanEntry, bind_eq_ok, Prod.exists] at h
  obtain ⟨d₁, h₁, d₂, h₂, found, d₃, h₃, h₄⟩ := h
  have hnext : d₁.sent <+: d₂.sent := onlyIf_sent (fun h => by rw [nextEntry_sent h]) h₂
  have hd₃ : d.sent <+: d₃.sent := by
    rw [entrySignal_sent h₃]
    exact (onlyIf_sent broadcastContextUpdate_sent h₁).trans hnext
  split at h₄
  · obtain ⟨-, rfl⟩ := Prod.mk.inj (Except.ok.inj h₄)
    exact hd₃
  · obtain ⟨-, rfl⟩ := Prod.mk.inj (Except.ok.inj h₄)
    exact hd₃

end ThreadData

namespace World

variable {w w' : World} {l : Label}

/-- **No context is taken back.** -/
theorem sent_prefix (hs : Step w l w') : w.sm.data.sent <+: w'.sm.data.sent := by
  cases moves_of_step hs with
  | load hdue hd =>
    simp only [ThreadData.load, bind_eq_ok, pure_eq_ok] at hd
    obtain ⟨sl, -, sl', -, rfl⟩ := hd
    exact List.prefix_refl _
  | scan hdue hsome hd =>
    simp only [ThreadData.scanStart, bind_eq_ok, pure_eq_ok] at hd
    obtain ⟨d₁, hd₁, rfl⟩ := hd
    change _ <+: d₁.sent
    rw [ThreadData.enableAudioOut_sent hd₁]
    exact List.prefix_refl w.sm.data.sent
  | holdIndex hdue hflag hindex hd =>
    simp only [ThreadData.indexEntry, bind_eq_ok, pure_eq_ok, Prod.exists] at hd
    obtain ⟨p, sl, -, rfl⟩ := hd
    exact List.prefix_refl _
  | receive hdue he hd => exact ThreadData.enterState_sent hd
  | saveAll hdue hd =>
    obtain ⟨state, -, rfl⟩ := ThreadData.saveAll_spec hd
    exact List.prefix_refl _
  | scanEnd hpc hd => exact ThreadData.scanEntry_sent hd
  | holdEntry hpc hd => exact ThreadData.holdEntry_sent hd
  | @receiveEnd r next d hpc hd =>
    change _ <+: d.sent
    rw [ThreadData.receiveEntry_sent hd]
  | _ => exact List.prefix_refl _

/-- The current context is the last one sent, if any was; inside `ST_Scan` it may
not have been sent yet. -/
def Posted (w : World) : Prop :=
  w.pc ≠ .scan → (∀ f, w.pc ≠ .crashed f) → w.sm.data.sent ≠ [] →
    w.sm.data.sent.getLast? = some w.sm.data.currentContext

theorem Posted.posted_at (h : w.Posted) {pc : Pc} (hpc : w.pc = pc) (hst : pc.steady = true)
    (hsent : w.sm.data.sent ≠ []) :
    w.sm.data.sent.getLast? = some w.sm.data.currentContext := by
  subst hpc
  exact h (Pc.steady_ne hst).1 (Pc.steady_ne hst).2 hsent

theorem Posted.step {pre : List Label} (h : w.Posted) (hctx : w.InContext pre)
    (hctx' : w'.InContext (pre ++ [l])) (hs : Step w l w') : w'.Posted := by
  cases moves_of_step hs with
  | load hdue hd =>
    simp only [ThreadData.load, bind_eq_ok, pure_eq_ok] at hd
    obtain ⟨sl, -, sl', -, rfl⟩ := hd
    exact fun _ _ => h.posted_at hdue.1 rfl
  | scanEmpty hdue hempty => exact fun _ _ => h.posted_at hdue.1 rfl
  | scan hdue hsome hd => exact fun hno => absurd rfl hno
  | holdIndex hdue hflag hindex hd =>
    simp only [ThreadData.indexEntry, bind_eq_ok, pure_eq_ok, Prod.exists] at hd
    obtain ⟨p, sl, -, rfl⟩ := hd
    exact fun _ _ => h.posted_at hdue.1 rfl
  | hold hdue hno => exact fun _ _ => h.posted_at hdue.1 rfl
  | receive hdue he hd => exact fun _ _ _ => (hctx'.receive rfl).sent
  | manual hdue hdata => exact fun _ _ => h.posted_at hdue.1 rfl
  | saveAll hdue hd =>
    obtain ⟨state, -, rfl⟩ := ThreadData.saveAll_spec hd
    exact fun _ _ => h.posted_at hdue.1 rfl
  | stopped hdue => exact fun _ _ => h.posted_at hdue.1 rfl
  | scanEnd hpc hd =>
    obtain ⟨hstate, hquiet⟩ := hctx.scan hpc
    exact fun _ _ _ => (ThreadData.scanEntry_shown hd hstate hquiet).sent
  | @holdEntry r update found d hpc hd =>
    exact fun _ _ _ => (hctx'.held found none (.inl rfl)).sent
  | receiveEnd hpc hd =>
    exact fun _ _ _ => (ThreadData.receiveEntry_shown hd (hctx.receive hpc)).sent
  | crash hfault => exact fun _ hcr => absurd rfl (hcr _)
  | holdDecision hpc hd => exact fun _ _ => h.posted_at hpc rfl
  | holdEvent hpc => exact fun _ _ => h.posted_at hpc rfl
  | holdQuiet hpc => exact fun _ _ => h.posted_at hpc rfl
  | manualEnd hpc => exact fun _ _ => h.posted_at hpc rfl
  | saveAllEnd hpc => exact fun _ _ => h.posted_at hpc rfl
  | begin hc => exact h
  | storeFlag hc => exact h
  | storeIndex hc => exact h
  | lookup hc => exact h
  | ignore hc => exact h
  | commit hc hu => exact h

end World

end PiScan.Machine

namespace PiScan.Server

open Runs

open Machine (States Label ScannerContext ContextState World ThreadData activations)

/-! ## From the scanner to the connections -/

/-- `app::server::scannerContextUpdate`: the parameter, and the copy that is queued. -/
def scannerContextUpdate (ctx : ScannerContext) : ScannerContext := ctx.copy.copy

/-- What `contextUpdate` of each connection has been passed. -/
abbrev Updates := Client → List ScannerContext

def contextUpdate (client : Client) (ctx : ScannerContext) (updates : Updates) : Updates :=
  Function.update updates client (updates client ++ [ctx])

/-- One round of the loop of `ServerManager::_broadcastContextUpdate`. -/
def updateSlot (table : Table) (ctx : ScannerContext) (updates : Updates)
    (i : Fin MAX_CONNECTIONS) : Updates :=
  match table i with
  | none => updates
  | some client => contextUpdate client ctx.copy updates

/-- `ServerManager::_broadcastContextUpdate`. -/
def broadcastContextUpdate (table : Table) (ctx : ScannerContext) (updates : Updates) : Updates :=
  (List.finRange MAX_CONNECTIONS).foldl (updateSlot table ctx) updates

theorem getLast?_contextUpdate (client client' : Client) (ctx : ScannerContext)
    {updates : Updates} (h : (updates client).getLast? = some ctx ∨ client' = client) :
    (contextUpdate client' ctx updates client).getLast? = some ctx := by
  unfold contextUpdate
  by_cases hc : client = client'
  · subst hc
    simp
  · rw [Function.update_of_ne hc]
    exact h.resolve_right fun he => hc he.symm

/-- **A connection in one of the slots** is passed a copy. -/
theorem getLast?_updateSlots {table : Table} {client : Client} {i : Fin MAX_CONNECTIONS}
    (hi : table i = some client) (ctx : ScannerContext) (is : List (Fin MAX_CONNECTIONS))
    {updates : Updates} (h : (updates client).getLast? = some ctx.copy ∨ i ∈ is) :
    (is.foldl (updateSlot table ctx) updates client).getLast? = some ctx.copy := by
  induction is generalizing updates with
  | nil =>
    rcases h with h | h
    · exact h
    · cases h
  | cons j is ih =>
    refine ih ?_
    rcases h with h | h
    · refine .inl ?_
      unfold updateSlot
      cases table j with
      | none => exact h
      | some client' => exact getLast?_contextUpdate _ _ _ (.inl h)
    · rcases List.mem_cons.mp h with rfl | h
      · refine .inl ?_
        unfold updateSlot
        rw [hi]
        exact getLast?_contextUpdate _ _ _ (.inr rfl)
      · exact .inr h

theorem getLast?_broadcastContextUpdate {table : Table} {client : Client}
    {i : Fin MAX_CONNECTIONS} (hi : table i = some client) (ctx : ScannerContext)
    (updates : Updates) :
    (broadcastContextUpdate table ctx updates client).getLast? = some ctx.copy :=
  getLast?_updateSlots hi ctx _ (.inr (List.mem_finRange i))

/-- The machine, the context updates in the queue of the server, its connections
and what these have been passed. -/
structure Hub where
  world : World
  queue : List ScannerContext
  connections : Table
  updates : Updates

/-- A step of the machine, of the queue thread, of the connection table, or a
request for the current context. -/
inductive HubLabel
  | machine (l : Label)
  | handleMessage
  | connect (i : Fin MAX_CONNECTIONS) (client : Client)
  | disconnect (i : Fin MAX_CONNECTIONS)
  | getScannerContext (client : Client)
  deriving DecidableEq

/-- The steps of the machine in a run. -/
def machineLabels (ls : List HubLabel) : List Label :=
  ls.filterMap fun
    | .machine l => some l
    | _ => none

namespace Hub

def step (l : HubLabel) (s : Hub) : Option Hub :=
  match l with
  | .machine l => (World.step l s.world).map fun world =>
    { s with
      world
      queue := s.queue ++
        (world.sm.data.sent.drop s.world.sm.data.sent.length).map scannerContextUpdate }
  | .handleMessage =>
    match s.queue with
    | [] => none
    | ctx :: rest => some
      { s with queue := rest, updates := broadcastContextUpdate s.connections ctx s.updates }
  | .connect i client =>
    if s.connections i = none then
      some { s with connections := Function.update s.connections i (some client) }
    else none
  | .disconnect i => some { s with connections := Function.update s.connections i none }
  | .getScannerContext client => some
    { s with updates := contextUpdate client s.world.sm.data.currentContext.copy s.updates }

def Step (s : Hub) (l : HubLabel) (s' : Hub) : Prop := step l s = some s'

/-- Calls and requests come between two activations. -/
def Atomic (s : Hub) : HubLabel → Prop
  | .machine l => s.world.Atomic l
  | .getScannerContext _ => s.world.pc.Unlocked
  | _ => True

/-- In manual mode, `ST_Hold` finds no index to take. -/
def IndexFree (s : Hub) : HubLabel → Prop
  | .machine l => s.world.IndexFree l
  | _ => True

/-- Over a database, with some clients connected. -/
def start (file : Scan.SystemsFile) (demod : Sigproc.Demodulator) (connections : Table) : Hub :=
  { world := .start file demod, queue := [], connections, updates := fun _ => [] }

/-- What a connected client knows: with an empty queue, a copy of the last context
that was sent. -/
structure Told (i : Fin MAX_CONNECTIONS) (client : Client) (pre : List HubLabel) (s : Hub) :
    Prop where
  seat : s.connections i = some client
  tail : s.queue ≠ [] →
    s.queue.getLast? = s.world.sm.data.sent.getLast?.map scannerContextUpdate
  told : s.queue = [] → s.world.sm.data.sent ≠ [] →
    (s.updates client).getLast? = s.world.sm.data.sent.getLast?.map ScannerContext.copy
  posted : s.world.Posted
  context : s.world.InContext (machineLabels pre)
  calm : s.world.Calm
  mode : s.world.InMode
  inventory : s.world.Inventory
  sane : s.world.control.Sane

variable {i : Fin MAX_CONNECTIONS} {client : Client} {s s' : Hub} {l : HubLabel}

theorem machineLabels_append (ls ls' : List HubLabel) :
    machineLabels (ls ++ ls') = machineLabels ls ++ machineLabels ls' := List.filterMap_append ..

/-- A step of the server. -/
theorem Told.server {pre : List HubLabel} (h : Told i client pre s)
    (hl : machineLabels [l] = []) (hw : s'.world = s.world) (hseat : s'.connections i = some client)
    (htail : s'.queue ≠ [] →
      s'.queue.getLast? = s.world.sm.data.sent.getLast?.map scannerContextUpdate)
    (htold : s'.queue = [] → s.world.sm.data.sent ≠ [] →
      (s'.updates client).getLast? = s.world.sm.data.sent.getLast?.map ScannerContext.copy) :
    Told i client (pre ++ [l]) s' := by
  refine ⟨hseat, hw ▸ htail, hw ▸ htold, hw ▸ h.posted, ?_, hw ▸ h.calm, hw ▸ h.mode,
    hw ▸ h.inventory, hw ▸ h.sane⟩
  rw [machineLabels_append, hl, List.append_nil, hw]
  exact h.context

/-- A step of the machine, whose new contexts are queued. -/
theorem Told.machine {pre : List HubLabel} {l : Label} (h : Told i client pre s)
    (hs : Step s (.machine l) s') (hatomic : s.Atomic (.machine l))
    (hindex : s.IndexFree (.machine l)) : Told i client (pre ++ [.machine l]) s' := by
  simp only [Step, Hub.step] at hs
  obtain ⟨world, hw, rfl⟩ := Option.map_eq_some_iff.mp hs
  obtain ⟨t, ht⟩ := World.sent_prefix hw
  have hnew : world.sm.data.sent.drop s.world.sm.data.sent.length = t := by
    rw [← ht, List.drop_left]
  have hctx := h.context.step h.calm hw
  refine ⟨h.seat, fun hne => ?_, fun hnil hsent => ?_, h.posted.step h.context hctx hw, ?_,
    h.calm.step hw hatomic, h.mode.step h.inventory h.calm h.context hw hindex,
    h.inventory.step h.sane hw, h.sane.step (Machine.World.control_step hw)⟩
  · simp only [hnew] at hne ⊢
    cases t with
    | nil =>
      rw [List.append_nil] at ht
      rw [List.map_nil, List.append_nil, ← ht]
      exact h.tail (by simpa using hne)
    | cons c t =>
      rw [← ht, List.getLast?_append_of_ne_nil _ (by simp),
        List.getLast?_append_of_ne_nil _ (by simp), List.getLast?_map]
  · simp only [hnew, List.append_eq_nil_iff, List.map_eq_nil_iff] at hnil
    obtain ⟨hq, rfl⟩ := hnil
    rw [List.append_nil] at ht
    simp only [← ht] at hsent ⊢
    exact h.told hq hsent
  · rw [machineLabels_append]
    exact hctx

/-- The queue thread takes an update and sends it to every client. -/
theorem Told.handleMessage {pre : List HubLabel} (h : Told i client pre s)
    (hs : Step s .handleMessage s') : Told i client (pre ++ [.handleMessage]) s' := by
  simp only [Step, Hub.step] at hs
  split at hs
  · cases hs
  · next ctx rest hq =>
    obtain rfl := Option.some.inj hs
    have htail := h.tail (by rw [hq]; exact List.cons_ne_nil _ _)
    rw [hq] at htail
    refine h.server rfl rfl h.seat (fun hne => ?_) fun hnil _ => ?_
    · obtain ⟨c, rest, rfl⟩ := List.exists_cons_of_ne_nil hne
      rw [← htail, List.getLast?_cons_cons]
    · obtain rfl : rest = [] := hnil
      obtain ⟨last, hlast, hctx⟩ := Option.map_eq_some_iff.mp htail.symm
      rw [hlast, Option.map_some]
      obtain rfl : ctx = scannerContextUpdate last := hctx.symm
      exact getLast?_broadcastContextUpdate h.seat _ s.updates

theorem Told.step {pre : List HubLabel} (h : Told i client pre s) (hs : Step s l s')
    (hatomic : s.Atomic l) (hindex : s.IndexFree l) (hstay : l ≠ .disconnect i) :
    Told i client (pre ++ [l]) s' := by
  cases l with
  | machine l => exact h.machine hs hatomic hindex
  | handleMessage => exact h.handleMessage hs
  | connect j client' =>
    simp only [Step, Hub.step] at hs
    split at hs
    · next hfree =>
      obtain rfl := Option.some.inj hs
      have hne : i ≠ j := by
        rintro rfl
        exact absurd (h.seat.symm.trans hfree) (by rintro ⟨⟩)
      refine h.server rfl rfl ?_ h.tail h.told
      simp only [Function.update_of_ne hne, h.seat]
    · cases hs
  | disconnect j =>
    obtain rfl := Option.some.inj hs
    have hne : i ≠ j := by
      rintro rfl
      exact hstay rfl
    refine h.server rfl rfl ?_ h.tail h.told
    simp only [Function.update_of_ne hne, h.seat]
  | getScannerContext client' =>
    obtain rfl := Option.some.inj hs
    refine h.server rfl rfl h.seat h.tail fun hq hsent => ?_
    have hidle : s.world.pc.Unlocked := hatomic
    have hlast : s.world.sm.data.sent.getLast? = some s.world.sm.data.currentContext := by
      rcases hidle with hpc | hpc
      · exact h.posted.posted_at hpc rfl hsent
      · exact h.posted.posted_at hpc rfl hsent
    rw [hlast, Option.map_some]
    refine getLast?_contextUpdate _ _ _ ?_
    by_cases hc : client' = client
    · exact .inr hc
    · refine .inl ?_
      rw [h.told hq hsent, hlast, Option.map_some]

theorem told_start (file : Scan.SystemsFile) (demod : Sigproc.Demodulator) {table : Table}
    (hi : table i = some client) : Told i client [] (start file demod table) :=
  ⟨hi, fun h => absurd rfl h, fun _ h => absurd rfl h, fun _ _ h => absurd rfl h,
    Machine.World.inContext_start file demod, Machine.World.calm_start file demod,
    Machine.World.inMode_start file demod, Machine.World.inventory_start file demod,
    Machine.World.sane_start file demod⟩

theorem told_run {file : Scan.SystemsFile} {demod : Sigproc.Demodulator} {table : Table}
    {ls : List HubLabel} (hi : table i = some client)
    (h : Run (Guarded Step fun s l => s.Atomic l ∧ s.IndexFree l) (start file demod table) ls s)
    (hstay : .disconnect i ∉ ls) : Told i client ls s := by
  have htold := h.history (I := fun pre s => Told i client pre s) (P := fun l => l ≠ .disconnect i)
    (fun _ _ _ _ hl ht hs => ht.step hs.1 hs.2.1 hs.2.2 hl)
    (fun l hl he => hstay (he ▸ hl)) (told_start file demod hi)
  simpa using htold

end Hub

end PiScan.Server

namespace PiScan.Machine.ThreadData

open Scan

variable {d : ThreadData} {X : ContextState} {ctx : ScannerContext}

/-- The context of the state `X` and, unless scanning, of the current entry, which
the manual entry has its own tags for. -/
structure Real (d : ThreadData) (X : ContextState) (ctx : ScannerContext) : Prop where
  state : ctx.state = X
  entry : X ≠ .SCAN → ∃ e, d.entry = .ok e ∧ ctx.frequency = e.freq ∧
    ctx.modulation = e.modulation ∧ ctx.delayMS = e.delayMS ∧ ctx.lockout = e.isLockedOut ∧
    (d.OnManual → ctx.systemTag = "Manual" ∧ ctx.entryTag = "Manual entry" ∧
      ctx.entryIndex = "MAN") ∧
    (¬d.OnManual → ∃ s, d.systems.systems[e.sysIndex]? = some s ∧ ctx.systemTag = s.tag ∧
      ctx.entryTag = e.tag ∧
      ctx.entryIndex = toString e.sysIndex ++ "-" ++ toString e.entryIndex)

/-- **A copy is real** just when what it leaves out has its default value. -/
theorem Shown.real_copy (h : d.Shown X) (hmode : d.manualMode = true ↔ d.OnManual) :
    d.Real X d.currentContext.copy ↔
      X = .SCAN ∨ ∃ e, d.entry = .ok e ∧ e.delayMS = 0 ∧ e.isLockedOut = false := by
  constructor
  · intro hreal
    by_cases hX : X = .SCAN
    · exact .inl hX
    · obtain ⟨e, he, -, -, hdelay, hlock, -⟩ := hreal.entry hX
      exact .inr ⟨e, he, hdelay.symm, hlock.symm⟩
  · intro hplain
    refine ⟨h.state, fun hX => ?_⟩
    obtain ⟨e, he, hdelay, hlock⟩ := hplain.resolve_left hX
    obtain ⟨e', he'⟩ := h.tells hX
    obtain rfl := Except.ok.inj (he.symm.trans he'.entry)
    exact ⟨e, he, he'.frequency, he'.modulation, hdelay.symm, hlock.symm,
      he'.tags.labelsOf hmode⟩

end PiScan.Machine.ThreadData

namespace PiScan.Server.Hub

open Runs

open Machine (ContextState activations oneChannelFile tunedDemod silence)

/-! ## Runs with an empty queue -/

/-- The machine runs without the server. -/
theorem machine_run {w w' : Machine.World} {ls : List Machine.Label}
    (h : Run (Guarded Machine.World.Step fun w l => w.Atomic l ∧ w.IndexFree l) w ls w') {s : Hub}
    (hw : s.world = w) :
    ∃ s', Run (Guarded Step fun s l => s.Atomic l ∧ s.IndexFree l) s (ls.map .machine) s' ∧
      s'.world = w' := by
  induction h generalizing s with
  | nil => exact ⟨s, .nil s, hw⟩
  | @cons w w₁ w' l ls hs _ ih =>
    subst hw
    obtain ⟨hstep, hatomic, hindex⟩ := hs
    obtain ⟨s', hr, hw'⟩ := ih (s :=
      { s with
        world := w₁
        queue := s.queue ++
          (w₁.sm.data.sent.drop s.world.sm.data.sent.length).map scannerContextUpdate }) rfl
    refine ⟨s', .cons ⟨?_, hatomic, hindex⟩ hr, hw'⟩
    have hw₁ : Machine.World.step l s.world = some w₁ := hstep
    simp only [Step, step, hw₁, Option.map_some]

/-- The queue thread empties the queue. -/
theorem exists_drained (s : Hub) :
    ∃ n s', Run (Guarded Step fun s l => s.Atomic l ∧ s.IndexFree l) s
      (List.replicate n .handleMessage) s' ∧ s'.queue = [] ∧ s'.world = s.world := by
  induction hq : s.queue generalizing s with
  | nil => exact ⟨0, s, .nil s, hq, rfl⟩
  | cons ctx rest ih =>
    obtain ⟨n, s', hr, hempty, hw⟩ := ih
      { s with queue := rest, updates := broadcastContextUpdate s.connections ctx s.updates } rfl
    refine ⟨n + 1, s', .cons ⟨?_, trivial, trivial⟩ hr, hempty, hw⟩
    simp only [Step, step, hq]

theorem machineLabels_drained (ls : List Machine.Label) (n : Nat) :
    machineLabels (ls.map .machine ++ List.replicate n .handleMessage) = ls := by
  induction ls with
  | nil => simp [machineLabels]
  | cons l ls ih => simp [machineLabels]

/-- **Any atomic run of the machine** can be followed until the queue is empty. -/
theorem exists_run {file : Scan.SystemsFile} {demod : Sigproc.Demodulator} {ls : List Machine.Label}
    {w : Machine.World} (table : Table)
    (h : Run (Guarded Machine.World.Step fun w l => w.Atomic l ∧ w.IndexFree l)
      (.start file demod) ls w) :
    ∃ ls' s,
      Run (Guarded Step fun s l => s.Atomic l ∧ s.IndexFree l) (start file demod table) ls' s ∧
      machineLabels ls' = ls ∧ (∀ i, .disconnect i ∉ ls') ∧ s.queue = [] ∧ s.world = w := by
  obtain ⟨s₁, h₁, hw₁⟩ := machine_run h (s := start file demod table) rfl
  obtain ⟨n, s₂, h₂, hq, hw₂⟩ := exists_drained s₁
  refine ⟨_, s₂, h₁.append h₂, machineLabels_drained ls n, fun i hi => ?_, hq, hw₂.trans hw₁⟩
  rcases List.mem_append.mp hi with hi | hi
  · obtain ⟨l, -, hl⟩ := List.mem_map.mp hi
    cases hl
  · cases List.eq_of_mem_replicate hi

/-- **What a client sees is real** after every `ST_Scan`, `ST_Hold` and `ST_Receive`,
once the queue is empty, if and only if it is a scan or the entry has no delay
and is not locked out; in atomic runs over a database, with no index taken in
manual mode. -/
theorem context_seen_iff {file : Scan.SystemsFile} {demod : Sigproc.Demodulator} {table : Table}
    {ls : List HubLabel} {s : Hub} {i : Fin MAX_CONNECTIONS} {client : Client} {a : Machine.States}
    {X : ContextState}
    (h : Run (Guarded Step fun s l => s.Atomic l ∧ s.IndexFree l) (start file demod table) ls s)
    (hi : table i = some client) (hstay : .disconnect i ∉ ls) (hidle : s.world.pc = .idle)
    (ha : (activations (machineLabels ls)).getLast? = some a) (hX : a.context? = some X)
    (hsize : s.world.sm.data.systems.size ≠ 0) (hq : s.queue = []) :
    ∃ ctx, (s.updates client).getLast? = some ctx ∧
      (s.world.sm.data.Real X ctx ↔
        X = .SCAN ∨ ∃ e, s.world.sm.data.entry = .ok e ∧ e.delayMS = 0 ∧ e.isLockedOut = false) := by
  have htold := told_run hi h hstay
  have hshown := htold.context.done hidle a X ha hX fun _ => hsize
  have hsent : s.world.sm.data.sent ≠ [] := by
    intro hnil
    have hlast := hshown.sent
    rw [hnil] at hlast
    cases hlast
  refine ⟨s.world.sm.data.currentContext.copy, ?_, ?_⟩
  · rw [htold.told hq hsent, hshown.sent, Option.map_some]
  · exact hshown.real_copy (htold.mode.mode_at hidle rfl)

theorem max_connections_pos : 0 < MAX_CONNECTIONS := by decide

def firstSlot : Fin MAX_CONNECTIONS := ⟨0, max_connections_pos⟩

/-- A client with full control. -/
def controller : Client := ⟨0, .FULL_CONTROL⟩

/-- One client, in the first slot. -/
def oneConnection : Table := fun i => if i = firstSlot then some controller else none

/-- A scan of the database. -/
def oneScan : List Machine.Label :=
  [.activate .ST_LOAD, .begin 0 .startScan, .lookup 0, .commit 0, .activate .ST_SCAN,
    .resume (silence 10000)]

/-- Then a hold on its channel, which has a delay of two seconds. -/
def holdChannel : List Machine.Label :=
  oneScan ++ [.begin 0 (.holdScan [0, 0]), .storeFlag 0, .storeIndex 0, .lookup 0, .commit 0,
    .activate .ST_HOLD, .resume (silence 10000), .resume (silence 10000), .resume (silence 10000)]

theorem atomic_oneScan :
    Run (Guarded Machine.World.Step fun w l => w.Atomic l ∧ w.IndexFree l)
      (.start oneChannelFile tunedDemod) oneScan
      ((Machine.World.start oneChannelFile tunedDemod).after oneScan) :=
  Machine.World.atomic_of_alone (Machine.World.guarded_run_after (by decide +kernel)) fun _ => rfl

theorem atomic_holdChannel :
    Run (Guarded Machine.World.Step fun w l => w.Atomic l ∧ w.IndexFree l)
      (.start oneChannelFile tunedDemod) holdChannel
      ((Machine.World.start oneChannelFile tunedDemod).after holdChannel) :=
  Machine.World.atomic_of_alone (Machine.World.guarded_run_after (by decide +kernel)) fun _ => rfl

theorem context_seen_oneScan :
    ∃ ls s ctx, Run (Guarded Step fun s l => s.Atomic l ∧ s.IndexFree l)
        (start oneChannelFile tunedDemod oneConnection) ls s ∧ s.queue = [] ∧
      (s.updates controller).getLast? = some ctx ∧ s.world.sm.data.Real .SCAN ctx := by
  obtain ⟨ls, s, hr, hls, hstay, hq, hw⟩ := exists_run oneConnection atomic_oneScan
  have hscan : (activations (machineLabels ls)).getLast? = some .ST_SCAN := by
    rw [hls]
    rfl
  obtain ⟨ctx, hctx, hiff⟩ := context_seen_iff hr (show oneConnection firstSlot = some controller from
    rfl) (hstay firstSlot) (by rw [hw]; decide +kernel) hscan rfl (by rw [hw]; decide +kernel) hq
  exact ⟨ls, s, ctx, hr, hq, hctx, hiff.mpr (.inl rfl)⟩

/-- **A delay that is not seen**: the client is told a delay of 0. -/
theorem delay_not_seen :
    ∃ ls s ctx, Run (Guarded Step fun s l => s.Atomic l ∧ s.IndexFree l)
        (start oneChannelFile tunedDemod oneConnection) ls s ∧ s.queue = [] ∧
      (∀ i, .disconnect i ∉ ls) ∧ s.world.pc = .idle ∧
      (activations (machineLabels ls)).getLast? = some .ST_HOLD ∧
      (s.updates controller).getLast? = some ctx ∧ ¬s.world.sm.data.Real .HOLD ctx := by
  obtain ⟨ls, s, hr, hls, hstay, hq, hw⟩ := exists_run oneConnection atomic_holdChannel
  have htold := told_run (show oneConnection firstSlot = some controller from rfl) hr
    (hstay firstSlot)
  have hidle : s.world.pc = .idle := by
    rw [hw]
    decide +kernel
  have hlast : (activations (machineLabels ls)).getLast? = some .ST_HOLD := by
    rw [hls]
    rfl
  have hshown := htold.context.done hidle .ST_HOLD .HOLD hlast rfl (by rintro ⟨⟩)
  have hsent : s.world.sm.data.sent ≠ [] := by
    rw [hw]
    decide +kernel
  refine ⟨ls, s, s.world.sm.data.currentContext.copy, hr, hq, hstay, hidle, hlast, ?_, ?_⟩
  · rw [htold.told hq hsent, hshown.sent, Option.map_some]
  · intro hreal
    have hplain := (hshown.real_copy (htold.mode.mode_at hidle rfl)).mp hreal
    obtain ⟨e, he, hdelay, -⟩ := hplain.resolve_left (by rintro ⟨⟩)
    have hentry : s.world.sm.data.entry.map (fun e => e.delayMS) = .ok 2000 := by
      rw [hw]
      decide +kernel
    rw [he] at hentry
    exact absurd (hdelay.symm.trans (Except.ok.inj hentry)) (by decide)

end PiScan.Server.Hub

import Mathlib.Algebra.Order.BigOperators.Group.Finset
import Mathlib.Data.Fintype.BigOperators
import PiScan.Lib.Changes
import PiScan.Lib.Run
import PiScan.Machine.SavedState

/-!
# The squelch between the server and its clients

The squelch slider of `client/py/scanner.py`, the requests that `client/py/client.py`
sends for it, and the way of a request through `Connection::setDemodSquelch` and
`Demodulator::setSquelch` to a context for every client.  `updateDemodContext` sets a
local variable where `onsquelchSlider` looks at the member `squelchFromContext`, so a
context that moves the slider is answered with a request for the level it brought.

The requests of a client arrive in their order, and so do the contexts for it; a read
of the client can take several contexts, which the parser merges into one.  A read of the
server takes one request: `_handleRead` parses all that it has read as one message, and
would merge requests that arrive together, which is left out.  So are the other messages,
and the gain.

* `agree_at_rest`: where every read takes one context and nothing is in flight, every
  slider shows the level of the server;
* `never_rests`: there, once two levels are under way, each of them stays so forever;
* `rests_on_one_level`: there, while at most one level is under way and no slider is moved,
  the exchange comes to rest after a bounded number of steps.

In all three the server's level lies in the range of the sliders when the clients connect.
-/

namespace PiScan.Client

open Changes Decimal Machine Runs TwosComplement

/-! ## Levels -/

/-- The conversion of a `float` to an `int`. -/
def toInt (x : Binary32) : Int := x.value.num.tdiv x.value.den

theorem toInt_toFloat {n : Int} (h : n.natAbs < 2 ^ 24) : toInt (toFloat n) = n := by
  have hvalue : (toFloat n).value = n :=
    value_toFloat ⟨by omega, by omega⟩ ⟨n, 0, h, by omega, by omega, by simp⟩
  rw [toInt, hvalue, Rat.num_intCast, Rat.den_intCast]
  exact Int.tdiv_one n

/-- The range of a slider, of numbers that a `float` holds. -/
structure SliderRange where
  minimum : Int
  maximum : Int
  le : minimum ≤ maximum
  minimum_small : minimum.natAbs < 2 ^ 24
  maximum_small : maximum.natAbs < 2 ^ 24

namespace SliderRange

def Contains (r : SliderRange) (v : Int) : Prop := r.minimum ≤ v ∧ v ≤ r.maximum

/-- `setValue` of the slider bounds the value. -/
def bound (r : SliderRange) (v : Int) : Int := max r.minimum (min v r.maximum)

theorem bound_of_contains {r : SliderRange} {v : Int} (h : r.Contains v) : r.bound v = v := by
  obtain ⟨hmin, hmax⟩ := h
  rw [bound, min_eq_left hmax, max_eq_right hmin]

theorem contains_bound (r : SliderRange) (v : Int) : r.Contains (r.bound v) :=
  ⟨le_max_left .., max_le r.le (min_le_right ..)⟩

/-- A level in the range arrives as it was sent. -/
theorem toInt_toFloat {r : SliderRange} {v : Int} (h : r.Contains v) : toInt (toFloat v) = v := by
  have hmin := r.minimum_small
  have hmax := r.maximum_small
  obtain ⟨hlo, hhi⟩ := h
  exact Client.toInt_toFloat (by omega)

/-- The range in `scan_client.ui`, which is that of a server with the default squelch mode. -/
def squelchSlider : SliderRange where
  minimum := -100
  maximum := 0
  le := by decide
  minimum_small := by decide
  maximum_small := by decide

end SliderRange

/-! ## A client -/

/-- A request of a client about the demodulator. -/
inductive DemodRequest
  | getDemodContext
  | setSquelch (level : Binary32)
  deriving DecidableEq

/-- The slider of a client, its requests in flight, and the levels of the contexts in
flight to it. -/
structure Line where
  squelchSlider : Int
  squelchFromContext : Bool
  requests : List DemodRequest
  updates : List Int

namespace Line

/-- `PiScanClient.setSquelch`. -/
def setSquelch (l : Line) (value : Int) : Line :=
  { l with requests := l.requests ++ [.setSquelch (toFloat value)] }

/-- `Scanner.onsquelchSlider`. -/
def onsquelchSlider (l : Line) : Line :=
  if l.squelchFromContext then { l with squelchFromContext := false }
  else l.setSquelch l.squelchSlider

/-- `setValue`: a slider that does not move tells nobody. -/
def setValue (r : SliderRange) (l : Line) (value : Int) : Line :=
  if r.bound value = l.squelchSlider then l
  else onsquelchSlider { l with squelchSlider := r.bound value }

/-- `Scanner.updateDemodContext`. -/
def updateDemodContext (r : SliderRange) (l : Line) (squelch : Int) : Line := l.setValue r squelch

/-- What the parser makes of several contexts in one read: a level of zero is not
written, so it does not replace the one before it. -/
def merged (levels : List Int) : Int := levels.foldl (fun x v => if v = 0 then x else v) 0

/-- `PiScanClient.handleReceived` of the next `k` contexts. -/
def handleReceived (r : SliderRange) (l : Line) (k : Nat) : Line :=
  updateDemodContext r { l with updates := l.updates.drop k } (merged (l.updates.take k))

/-- The levels of the requests in flight, as the server reads them. -/
def sent (l : Line) : List Int :=
  l.requests.filterMap fun
    | .getDemodContext => none
    | .setSquelch level => some (toInt level)

/-- The levels that are requested, or will be as the contexts arrive. -/
def due (l : Line) (queue : List Int) : List Int :=
  l.sent ++ changes l.squelchSlider (l.updates ++ queue)

end Line

/-! ## The exchange -/

/-- The level of the demodulator, the contexts in the queue of the server, and the
clients. -/
structure Exchange (ι : Type) where
  squelchLevel : Binary32
  queue : List Int
  lines : ι → Line

/-- A user moves a slider; the server reads the next request of a client, and only that,
and handles it; the server sends the next context to all clients; a client reads `k` contexts. -/
inductive ExchangeLabel (ι : Type)
  | move (i : ι) (value : Int)
  | handleRequest (i : ι)
  | broadcastContextUpdate
  | receive (i : ι) (k : Nat)

namespace Exchange

variable {ι : Type} [DecidableEq ι]

/-- The clients have just connected and asked for the context. -/
def connected (squelchLevel : Binary32) (sliders : ι → Int) : Exchange ι where
  squelchLevel := squelchLevel
  queue := []
  lines i := { squelchSlider := sliders i, squelchFromContext := false,
               requests := [.getDemodContext], updates := [] }

/-- `Connection::setDemodSquelch` to `Demodulator::setSquelch`; the context of
`_contextUpdate` goes to the queue. -/
def setDemodSquelch (s : Exchange ι) (level : Int) : Exchange ι :=
  { s with squelchLevel := toFloat level, queue := s.queue ++ [toInt (toFloat level)] }

def setLine (s : Exchange ι) (i : ι) (l : Line) : Exchange ι :=
  { s with lines := Function.update s.lines i l }

/-- `SocketConnection::_handleDemodRequest`, or `Connection::getDemodContext`. -/
def handleRequest (s : Exchange ι) (i : ι) : Option (Exchange ι) :=
  match (s.lines i).requests with
  | [] => none
  | .getDemodContext :: requests =>
    let updates := (s.lines i).updates ++ [toInt s.squelchLevel]
    some (s.setLine i { s.lines i with requests := requests, updates := updates })
  | .setSquelch level :: requests =>
    some ((s.setLine i { s.lines i with requests := requests }).setDemodSquelch (toInt level))

/-- `ServerManager::_broadcastContextUpdate`. -/
def broadcastContextUpdate (s : Exchange ι) : Option (Exchange ι) :=
  match s.queue with
  | [] => none
  | v :: queue =>
    some { s with queue := queue, lines := fun i =>
      { s.lines i with updates := (s.lines i).updates ++ [v] } }

variable (r : SliderRange)

def next (s : Exchange ι) : ExchangeLabel ι → Option (Exchange ι)
  | .move i value => some (s.setLine i ((s.lines i).setValue r value))
  | .handleRequest i => s.handleRequest i
  | .broadcastContextUpdate => s.broadcastContextUpdate
  | .receive i k =>
    if 0 < k ∧ k ≤ (s.lines i).updates.length then
      some (s.setLine i ((s.lines i).handleReceived r k))
    else none

def Step (s : Exchange ι) (l : ExchangeLabel ι) (t : Exchange ι) : Prop := s.next r l = some t

/-- A read takes one context. -/
def OneRead (_ : Exchange ι) : ExchangeLabel ι → Prop
  | .receive _ k => k = 1
  | _ => True

/-- The steps without the user. -/
def Unmoved : ExchangeLabel ι → Prop
  | .move _ _ => False
  | _ => True

/-- A read takes one context, and no slider is moved. -/
def Undisturbed (s : Exchange ι) (l : ExchangeLabel ι) : Prop := s.OneRead l ∧ Unmoved l

/-- Nothing is in flight. -/
def AtRest (s : Exchange ι) : Prop :=
  s.queue = [] ∧ ∀ i, (s.lines i).requests = [] ∧ (s.lines i).updates = []

/-- The level is requested by some client, or will be as the contexts in flight arrive. -/
def UnderWay (s : Exchange ι) (v : Int) : Prop := ∃ i, v ∈ (s.lines i).due s.queue

end Exchange

/-! ## What a step does to a client -/

namespace Line

variable {r : SliderRange} {l : Line} {level v w : Int} {queue : List Int}

/-- The client in order, while the level of the server is `level`. -/
structure Sound (r : SliderRange) (level : Int) (queue : List Int) (l : Line) : Prop where
  slider : r.Contains l.squelchSlider
  updates : ∀ v ∈ l.updates, r.Contains v
  sent : ∀ v ∈ l.sent, r.Contains v
  own : l.squelchFromContext = false
  /-- The last request was for what the slider shows. -/
  last : l.sent.getLastD l.squelchSlider = l.squelchSlider
  /-- The last context in flight brings the level of the server. -/
  latest : (l.updates ++ queue).getLastD level = level
  shown : l.updates ++ queue = [] → l.requests = [] → l.squelchSlider = level

/-- A slider that moves asks for where it moves to. -/
theorem Sound.setValue_eq (h : l.Sound r level queue) (hne : r.bound v ≠ l.squelchSlider) :
    l.setValue r v = { l with
      squelchSlider := r.bound v
      requests := l.requests ++ [.setSquelch (toFloat (r.bound v))] } := by
  rw [setValue, if_neg hne, onsquelchSlider, if_neg (by simp [h.own])]
  rfl

theorem Sound.setValue (h : l.Sound r level queue) (v : Int) :
    (l.setValue r v).Sound r level queue := by
  by_cases hne : r.bound v = l.squelchSlider
  · rw [Line.setValue, if_pos hne]
    exact h
  · have hsent : (l.setValue r v).sent = l.sent ++ [r.bound v] := by
      rw [h.setValue_eq hne]
      simp [Line.sent, SliderRange.toInt_toFloat (r.contains_bound v)]
    have hslider : (l.setValue r v).squelchSlider = r.bound v := by rw [h.setValue_eq hne]
    refine ⟨?_, ?_, ?_, ?_, ?_, ?_, ?_⟩
    · rw [hslider]
      exact r.contains_bound v
    · rw [h.setValue_eq hne]
      exact h.updates
    · intro w hw
      rw [hsent] at hw
      rcases List.mem_append.mp hw with hw | hw
      · exact h.sent w hw
      · rw [List.mem_singleton.mp hw]
        exact r.contains_bound v
    · rw [h.setValue_eq hne]
      exact h.own
    · rw [hsent, hslider, List.getLastD_concat]
    · rw [h.setValue_eq hne]
      exact h.latest
    · intro _ hrequests
      rw [h.setValue_eq hne] at hrequests
      simp at hrequests

/-- A context that moves the slider is answered. -/
theorem Sound.handleReceived_eq {updates : List Int} (h : l.Sound r level queue)
    (hupdates : l.updates = v :: updates) :
    l.handleReceived r 1 = if v = l.squelchSlider then { l with updates := updates } else
      { l with
        squelchSlider := v
        updates := updates
        requests := l.requests ++ [.setSquelch (toFloat v)] } := by
  have hv : r.Contains v := h.updates v (by rw [hupdates]; exact List.mem_cons_self ..)
  have hmerged : merged (l.updates.take 1) = v := by
    rw [hupdates]
    by_cases hzero : v = 0 <;> simp [merged, hzero]
  rw [Line.handleReceived, updateDemodContext, hmerged, Line.setValue,
    SliderRange.bound_of_contains hv]
  split
  · simp [hupdates]
  · rw [onsquelchSlider, if_neg (by simp [h.own])]
    simp [Line.setSquelch, hupdates]

theorem Sound.updates_handleReceived (h : l.Sound r level queue) (hk : l.updates ≠ []) :
    (l.handleReceived r 1).updates.length < l.updates.length := by
  obtain ⟨v, updates, hupdates⟩ := List.exists_cons_of_ne_nil hk
  rw [h.handleReceived_eq hupdates, hupdates, List.length_cons]
  split <;> exact Nat.lt_succ_self _

/-- No context is asked for again. -/
theorem Sound.get_handleReceived (h : l.Sound r level queue) (hk : l.updates ≠ [])
    (hget : .getDemodContext ∈ (l.handleReceived r 1).requests) :
    .getDemodContext ∈ l.requests := by
  obtain ⟨v, updates, hupdates⟩ := List.exists_cons_of_ne_nil hk
  rw [h.handleReceived_eq hupdates] at hget
  split at hget
  · exact hget
  · rcases List.mem_append.mp hget with hget | hget
    · exact hget
    · cases List.mem_singleton.mp hget

theorem Sound.handleReceived (h : l.Sound r level queue) (hk : l.updates ≠ []) :
    (l.handleReceived r 1).Sound r level queue := by
  obtain ⟨v, updates, hupdates⟩ := List.exists_cons_of_ne_nil hk
  have hv : r.Contains v := h.updates v (by rw [hupdates]; exact List.mem_cons_self ..)
  have hrest : ∀ w ∈ updates, r.Contains w := fun w hw =>
    h.updates w (by rw [hupdates]; exact List.mem_cons_of_mem v hw)
  have hlatest := h.latest
  rw [hupdates, List.cons_append, List.getLastD_cons] at hlatest
  -- what is left still ends in the level, or it was the level that arrived
  have hlast : (updates ++ queue).getLastD level = level ∧ (updates ++ queue = [] → v = level) := by
    by_cases hnil : updates ++ queue = []
    · rw [hnil] at hlatest ⊢
      exact ⟨rfl, fun _ => hlatest⟩
    · refine ⟨?_, fun h => absurd h hnil⟩
      rwa [getLastD_of_ne_nil hnil level v]
  rw [h.handleReceived_eq hupdates]
  split
  · next heq =>
    exact ⟨h.slider, hrest, h.sent, h.own, h.last, hlast.1, fun hnil _ => heq ▸ hlast.2 hnil⟩
  · have hsent : Line.sent { l with
        squelchSlider := v, updates := updates,
        requests := l.requests ++ [.setSquelch (toFloat v)] } = l.sent ++ [v] := by
      simp [Line.sent, SliderRange.toInt_toFloat hv]
    refine ⟨hv, hrest, ?_, h.own, ?_, hlast.1, fun hnil _ => hlast.2 hnil⟩
    · intro w hw
      rw [hsent] at hw
      rcases List.mem_append.mp hw with hw | hw
      · exact h.sent w hw
      · rw [List.mem_singleton.mp hw]
        exact hv
    · rw [hsent, List.getLastD_concat]

/-- A request is answered with the level. -/
theorem Sound.reply {requests : List DemodRequest} (h : l.Sound r level queue)
    (hlevel : r.Contains level) (hrequests : l.requests = .getDemodContext :: requests) :
    Sound r level queue { l with requests := requests, updates := l.updates ++ [level] } := by
  have hsent : Line.sent { l with
      requests := requests, updates := l.updates ++ [level] } = l.sent := by
    simp [Line.sent, hrequests]
  have hlatest := h.latest
  refine ⟨h.slider, ?_, ?_, h.own, ?_, ?_, ?_⟩
  · intro w hw
    rcases List.mem_append.mp hw with hw | hw
    · exact h.updates w hw
    · rw [List.mem_singleton.mp hw]
      exact hlevel
  · rw [hsent]
    exact h.sent
  · rw [hsent]
    exact h.last
  · show (l.updates ++ [level] ++ queue).getLastD level = level
    cases queue with
    | nil => rw [List.append_nil, List.getLastD_concat]
    | cons w queue =>
      rw [getLastD_append, List.getLastD_cons] at hlatest ⊢
      exact hlatest
  · intro hnil
    simp at hnil

/-- The server takes another level. -/
theorem Sound.setDemodSquelch (h : l.Sound r level queue) (w : Int) :
    l.Sound r w (queue ++ [w]) := by
  refine ⟨h.slider, h.updates, h.sent, h.own, h.last, ?_, ?_⟩
  · rw [← List.append_assoc, List.getLastD_concat]
  · intro hnil
    simp at hnil

/-- The request for another level has left the client. -/
theorem Sound.handled {requests : List DemodRequest} {x : Binary32} (h : l.Sound r level queue)
    (hrequests : l.requests = .setSquelch x :: requests) (w : Int) :
    Sound r w (queue ++ [w]) { l with requests := requests } := by
  have hsent : l.sent = toInt x :: Line.sent { l with requests := requests } := by
    simp [Line.sent, hrequests]
  have hlast := h.last
  rw [hsent, List.getLastD_cons] at hlast
  refine ⟨h.slider, h.updates, ?_, h.own, ?_, ?_, ?_⟩
  · intro v hv
    refine h.sent v ?_
    rw [hsent]
    exact List.mem_cons_of_mem _ hv
  · by_cases hnil : Line.sent { l with requests := requests } = []
    · rw [hnil]
      rfl
    · rwa [getLastD_of_ne_nil hnil _ (toInt x)]
  · show (l.updates ++ (queue ++ [w])).getLastD w = w
    rw [← List.append_assoc, List.getLastD_concat]
  · intro hnil
    simp at hnil

/-- The next context of the queue is sent. -/
theorem Sound.broadcast (h : l.Sound r level (v :: queue)) (hv : r.Contains v) :
    Sound r level queue { l with updates := l.updates ++ [v] } := by
  refine ⟨h.slider, ?_, h.sent, h.own, h.last, ?_, ?_⟩
  · intro w hw
    rcases List.mem_append.mp hw with hw | hw
    · exact h.updates w hw
    · rw [List.mem_singleton.mp hw]
      exact hv
  · have hlatest := h.latest
    rwa [List.append_cons] at hlatest
  · intro hnil
    simp at hnil

/-! ### What is due -/

/-- What is due ends in what the slider will show. -/
theorem getLastD_due (h : l.sent.getLastD l.squelchSlider = l.squelchSlider) (queue : List Int) :
    (l.due queue).getLastD l.squelchSlider = (l.updates ++ queue).getLastD l.squelchSlider := by
  rw [due, getLastD_append, h, getLastD_changes]

theorem Sound.mem_due_setValue (h : l.Sound r level queue) (hw : w ∈ l.due queue) (v : Int) :
    w ∈ (l.setValue r v).due queue := by
  by_cases hne : r.bound v = l.squelchSlider
  · rwa [Line.setValue, if_pos hne]
  · rw [h.setValue_eq hne]
    simp only [due, Line.sent, List.filterMap_append, List.mem_append] at hw ⊢
    rcases hw with hw | hw
    · exact .inl (.inl hw)
    · rcases mem_changes_of_start hw (r.bound v) with rfl | hw
      · simp [SliderRange.toInt_toFloat (r.contains_bound v)]
      · exact .inr hw

/-- A context that is read was due just where it is answered. -/
theorem Sound.due_handleReceived (h : l.Sound r level queue) (hk : l.updates ≠ []) :
    (l.handleReceived r 1).due queue = l.due queue := by
  obtain ⟨v, updates, hupdates⟩ := List.exists_cons_of_ne_nil hk
  have hv : r.Contains v := h.updates v (by rw [hupdates]; exact List.mem_cons_self ..)
  rw [h.handleReceived_eq hupdates, due, due, hupdates, List.cons_append]
  split
  · next heq =>
    rw [heq, changes_cons_self]
    rfl
  · next hne =>
    rw [changes_cons_ne hne]
    simp [Line.sent, SliderRange.toInt_toFloat hv]

theorem mem_due_reply {requests : List DemodRequest}
    (hrequests : l.requests = .getDemodContext :: requests) (hw : w ∈ l.due queue) :
    w ∈ due { l with requests := requests, updates := l.updates ++ [level] } queue := by
  simp only [due, Line.sent, hrequests, List.filterMap_cons, List.mem_append] at hw ⊢
  rcases hw with hw | hw
  · exact .inl hw
  · rw [List.append_assoc]
    exact .inr (mem_changes_insert hw level)

theorem due_broadcast (l : Line) (v : Int) (queue : List Int) :
    due { l with updates := l.updates ++ [v] } queue = l.due (v :: queue) := by
  simp [due, Line.sent]

/-- Another level is due unless the client will show it then. -/
theorem due_setDemodSquelch (l : Line) (queue : List Int) (w : Int) :
    l.due (queue ++ [w]) =
      l.due queue ++ changes ((l.updates ++ queue).getLastD l.squelchSlider) [w] := by
  rw [due, due, ← List.append_assoc, changes_append, List.append_assoc]

/-- Where something is due, another level is due in the end, whether or not it is new. -/
theorem mem_due_setDemodSquelch (h : l.sent.getLastD l.squelchSlider = l.squelchSlider)
    (hdue : l.due queue ≠ []) (w : Int) : w ∈ l.due (queue ++ [w]) := by
  have hlast := getLastD_due h queue
  rw [due_setDemodSquelch, List.mem_append]
  by_cases hw : w = (l.updates ++ queue).getLastD l.squelchSlider
  · left
    rw [hw, ← hlast]
    exact getLastD_mem hdue _
  · right
    rw [changes_cons_ne hw]
    exact List.mem_singleton_self w

theorem due_handled {requests : List DemodRequest} {x : Binary32}
    (hrequests : l.requests = .setSquelch x :: requests) :
    l.due queue = toInt x :: due { l with requests := requests } queue := by
  simp [due, Line.sent, hrequests]

end Line

namespace Exchange

variable {ι : Type} [DecidableEq ι] {r : SliderRange} {s t : Exchange ι}
  {l : ExchangeLabel ι} {ls ms : List (ExchangeLabel ι)} {v w : Int}

/-! ## What a step does -/

@[simp] theorem lines_setLine_self (s : Exchange ι) (i : ι) (l : Line) :
    (s.setLine i l).lines i = l := Function.update_self ..

theorem lines_setLine_ne {i j : ι} (h : j ≠ i) (s : Exchange ι) (l : Line) :
    (s.setLine i l).lines j = s.lines j := Function.update_of_ne h ..

/-- The steps, where every read takes one context. -/
inductive Moves (r : SliderRange) (s : Exchange ι) : ExchangeLabel ι → Exchange ι → Prop
  | move (i : ι) (v : Int) : Moves r s (.move i v) (s.setLine i ((s.lines i).setValue r v))
  | reply {i : ι} {requests : List DemodRequest}
      (h : (s.lines i).requests = .getDemodContext :: requests) :
      Moves r s (.handleRequest i) (s.setLine i { s.lines i with
        requests := requests, updates := (s.lines i).updates ++ [toInt s.squelchLevel] })
  | handle {i : ι} {x : Binary32} {requests : List DemodRequest}
      (h : (s.lines i).requests = .setSquelch x :: requests) :
      Moves r s (.handleRequest i)
        ((s.setLine i { s.lines i with requests := requests }).setDemodSquelch (toInt x))
  | broadcast {v : Int} {queue : List Int} (h : s.queue = v :: queue) :
      Moves r s .broadcastContextUpdate { s with
        queue := queue
        lines := fun i => { s.lines i with updates := (s.lines i).updates ++ [v] } }
  | receive {i : ι} (h : (s.lines i).updates ≠ []) :
      Moves r s (.receive i 1) (s.setLine i ((s.lines i).handleReceived r 1))

theorem moves_of_step (h : Guarded (Step r) OneRead s l t) : Moves r s l t := by
  obtain ⟨hstep, hone⟩ := h
  cases l with
  | move i v =>
    cases hstep
    exact .move i v
  | handleRequest i =>
    simp only [Step, next, handleRequest] at hstep
    split at hstep
    · cases hstep
    · next hrequests =>
      cases hstep
      exact .reply hrequests
    · next hrequests =>
      cases hstep
      exact .handle hrequests
  | broadcastContextUpdate =>
    simp only [Step, next, broadcastContextUpdate] at hstep
    split at hstep
    · cases hstep
    · next hqueue =>
      cases hstep
      exact .broadcast hqueue
  | receive i k =>
    obtain rfl : k = 1 := hone
    simp only [Step, next] at hstep
    split at hstep
    · next hk =>
      cases hstep
      exact .receive (List.ne_nil_of_length_pos hk.2)
    · cases hstep

/-! ## The invariant -/

/-- Level, queue and clients in order. -/
structure Sound (r : SliderRange) (s : Exchange ι) : Prop where
  level : r.Contains (toInt s.squelchLevel)
  queue : ∀ v ∈ s.queue, r.Contains v
  lines : ∀ i, (s.lines i).Sound r (toInt s.squelchLevel) s.queue

omit [DecidableEq ι] in
theorem sound_connected {squelchLevel : Binary32} {sliders : ι → Int}
    (hlevel : r.Contains (toInt squelchLevel)) (hsliders : ∀ i, r.Contains (sliders i)) :
    (connected squelchLevel sliders).Sound r := by
  refine ⟨hlevel, ?_, fun i => ⟨hsliders i, ?_, ?_, rfl, rfl, rfl, ?_⟩⟩
  · simp [connected]
  · simp [connected]
  · simp [connected, Line.sent]
  · simp [connected]

omit [DecidableEq ι] in
/-- A request for a level in the range is handled as one for just that level. -/
theorem Sound.request {i : ι} {x : Binary32} {requests : List DemodRequest} (h : s.Sound r)
    (hrequests : (s.lines i).requests = .setSquelch x :: requests) : r.Contains (toInt x) :=
  (h.lines i).sent _ (by simp [Line.sent, hrequests])

theorem Sound.step (h : s.Sound r) (hstep : Moves r s l t) : t.Sound r := by
  cases hstep with
  | move i v =>
    refine ⟨h.level, h.queue, fun j => ?_⟩
    by_cases hj : j = i
    · subst hj
      rw [lines_setLine_self]
      exact (h.lines j).setValue v
    · rw [lines_setLine_ne hj]
      exact h.lines j
  | @reply i requests hrequests =>
    refine ⟨h.level, h.queue, fun j => ?_⟩
    by_cases hj : j = i
    · subst hj
      rw [lines_setLine_self]
      exact (h.lines j).reply h.level hrequests
    · rw [lines_setLine_ne hj]
      exact h.lines j
  | @handle i x requests hrequests =>
    have hx := h.request hrequests
    have hrelay := SliderRange.toInt_toFloat hx
    refine ⟨?_, ?_, fun j => ?_⟩
    · show r.Contains (toInt (toFloat (toInt x)))
      rwa [hrelay]
    · intro v hv
      rcases List.mem_append.mp hv with hv | hv
      · exact h.queue v hv
      · rw [List.mem_singleton.mp hv, hrelay]
        exact hx
    · show Line.Sound r (toInt (toFloat (toInt x))) (s.queue ++ [toInt (toFloat (toInt x))])
        ((s.setLine i { s.lines i with requests := requests }).lines j)
      rw [hrelay]
      by_cases hj : j = i
      · subst hj
        rw [lines_setLine_self]
        exact (h.lines j).handled hrequests (toInt x)
      · rw [lines_setLine_ne hj]
        exact (h.lines j).setDemodSquelch (toInt x)
  | @broadcast v queue hqueue =>
    have hv : r.Contains v := h.queue v (by rw [hqueue]; exact List.mem_cons_self ..)
    refine ⟨h.level, ?_, fun i => ?_⟩
    · intro w hw
      exact h.queue w (by rw [hqueue]; exact List.mem_cons_of_mem v hw)
    · have hi := h.lines i
      rw [hqueue] at hi
      exact hi.broadcast hv
  | @receive i hupdates =>
    refine ⟨h.level, h.queue, fun j => ?_⟩
    by_cases hj : j = i
    · subst hj
      rw [lines_setLine_self]
      exact (h.lines j).handleReceived hupdates
    · rw [lines_setLine_ne hj]
      exact h.lines j

theorem Sound.run (h : s.Sound r) (hrun : Run (Guarded (Step r) OneRead) s ls t) : t.Sound r :=
  hrun.invariant (I := Sound r) (fun _ _ _ hi hs => hi.step (moves_of_step hs)) h

/-- **Agreement.**  Clients connect with their sliders anywhere in their range, in which
the server's level lies; where each read takes one context, all sliders show the level of
the server whenever nothing is in flight. -/
theorem agree_at_rest {squelchLevel : Binary32} {sliders : ι → Int}
    (hlevel : r.Contains (toInt squelchLevel)) (hsliders : ∀ i, r.Contains (sliders i))
    (h : Run (Guarded (Step r) OneRead) (connected squelchLevel sliders) ls s) (hrest : s.AtRest)
    (i : ι) : (s.lines i).squelchSlider = toInt s.squelchLevel := by
  have hsound := ((sound_connected hlevel hsliders).run h).lines i
  obtain ⟨hqueue, hlines⟩ := hrest
  obtain ⟨hrequests, hupdates⟩ := hlines i
  refine hsound.shown ?_ hrequests
  rw [hqueue, hupdates]
  rfl

/-- A client that has just connected: the context moves its slider, and the request with
which it answers changes nothing more. -/
theorem agree_at_rest_single :
    ∃ s : Exchange Unit, s.AtRest ∧ (s.lines ()).squelchSlider = toInt s.squelchLevel := by
  have hrun : ∃ s : Exchange Unit, Run (Guarded (Step .squelchSlider) OneRead)
      (connected (toFloat (-40)) fun _ => 0) [.handleRequest (), .receive () 1, .handleRequest (),
        .broadcastContextUpdate, .receive () 1] s ∧ s.AtRest :=
    ⟨_, .cons ⟨rfl, trivial⟩ <| .cons ⟨rfl, rfl⟩ <| .cons ⟨rfl, trivial⟩ <|
      .cons ⟨rfl, trivial⟩ <| .single ⟨rfl, rfl⟩, rfl, fun _ => ⟨rfl, rfl⟩⟩
  obtain ⟨s, hs, hrest⟩ := hrun
  exact ⟨s, hrest,
    agree_at_rest ⟨by decide, by decide⟩ (fun _ => ⟨by decide, by decide⟩) hs hrest ()⟩

/-! ## Two levels under way -/

omit [DecidableEq ι] in
theorem UnderWay.not_atRest (h : s.UnderWay v) : ¬ s.AtRest := by
  rintro ⟨hqueue, hlines⟩
  obtain ⟨i, hi⟩ := h
  obtain ⟨hrequests, hupdates⟩ := hlines i
  simp [Line.due, Line.sent, hqueue, hrequests, hupdates] at hi

/-- The lines but that of `i` after a step that leaves the queue as it is. -/
theorem UnderWay.setLine {i : ι} {l' : Line} (h : s.UnderWay v)
    (hdue : v ∈ (s.lines i).due s.queue → v ∈ l'.due s.queue) : (s.setLine i l').UnderWay v := by
  obtain ⟨j, hj⟩ := h
  refine ⟨j, ?_⟩
  by_cases hji : j = i
  · subst hji
    rw [lines_setLine_self]
    exact hdue hj
  · rw [lines_setLine_ne hji]
    exact hj

/-- A request that is handled takes no level away, if two are under way: where nothing
else is due for its client, another client will ask for its level. -/
theorem UnderWay.handle {i : ι} {x : Binary32} {requests : List DemodRequest} (h : s.Sound r)
    (hrequests : (s.lines i).requests = .setSquelch x :: requests) (hv : s.UnderWay v)
    (hw : s.UnderWay w) (hne : v ≠ w) :
    ((s.setLine i { s.lines i with requests := requests }).setDemodSquelch
      (toInt x)).UnderWay v := by
  have hdue : (s.lines i).due s.queue = _ := Line.due_handled hrequests
  have hlast := ((h.lines i).handled hrequests (toInt x)).last
  set l' : Line := { s.lines i with requests := requests } with hl'
  set t := (s.setLine i l').setDemodSquelch (toInt x) with ht
  have hqueue : t.queue = s.queue ++ [toInt x] := by
    show s.queue ++ [toInt (toFloat (toInt x))] = _
    rw [SliderRange.toInt_toFloat (h.request hrequests)]
  have hself : t.lines i = l' := Function.update_self ..
  have hother : ∀ j, j ≠ i → t.lines j = s.lines j := fun j hj => Function.update_of_ne hj ..
  -- what is due for a client stays so
  have hkeep : ∀ j, v ∈ (t.lines j).due s.queue → t.UnderWay v := by
    intro j hj
    refine ⟨j, ?_⟩
    rw [hqueue, Line.due_setDemodSquelch]
    exact List.mem_append_left _ hj
  obtain ⟨j, hj⟩ := hv
  by_cases hji : j = i
  · subst hji
    rw [hdue] at hj
    rcases List.mem_cons.mp hj with rfl | hj
    · by_cases hnil : l'.due s.queue = []
      · obtain ⟨k, hk⟩ := hw
        have hkj : k ≠ j := by
          rintro rfl
          rw [hdue, hnil] at hk
          exact hne (List.mem_singleton.mp hk).symm
        refine ⟨k, ?_⟩
        rw [hqueue, hother k hkj]
        exact Line.mem_due_setDemodSquelch (h.lines k).last (List.ne_nil_of_mem hk) _
      · refine ⟨j, ?_⟩
        rw [hqueue, hself]
        exact Line.mem_due_setDemodSquelch hlast hnil _
    · exact hkeep j (by rwa [hself])
  · exact hkeep j (by rwa [hother j hji])

/-- **What is under way stays so**, if another level is under way as well. -/
theorem UnderWay.step (h : s.Sound r) (hv : s.UnderWay v) (hw : s.UnderWay w) (hne : v ≠ w)
    (hstep : Moves r s l t) : t.UnderWay v := by
  cases hstep with
  | move i u => exact hv.setLine fun hi => (h.lines i).mem_due_setValue hi u
  | reply hrequests => exact hv.setLine fun hi => Line.mem_due_reply hrequests hi
  | handle hrequests => exact hv.handle h hrequests hw hne
  | broadcast hqueue =>
    obtain ⟨i, hi⟩ := hv
    refine ⟨i, ?_⟩
    rw [hqueue] at hi
    rwa [Line.due_broadcast]
  | receive hupdates =>
    refine hv.setLine fun hi => ?_
    rwa [(h.lines _).due_handleReceived hupdates]

/-- **The exchange does not come to rest.**  Where each read takes one context, once two
levels are under way both stay so in every run, whatever the users do. -/
theorem never_rests {squelchLevel : Binary32} {sliders : ι → Int}
    (hlevel : r.Contains (toInt squelchLevel)) (hsliders : ∀ i, r.Contains (sliders i))
    (h : Run (Guarded (Step r) OneRead) (connected squelchLevel sliders) ls s)
    (hv : s.UnderWay v) (hw : s.UnderWay w) (hne : v ≠ w)
    (hrun : Run (Guarded (Step r) OneRead) s ms t) :
    t.UnderWay v ∧ t.UnderWay w ∧ ¬ t.AtRest := by
  have hboth : t.Sound r ∧ t.UnderWay v ∧ t.UnderWay w := by
    refine hrun.invariant (I := fun s => s.Sound r ∧ s.UnderWay v ∧ s.UnderWay w) ?_
      ⟨(sound_connected hlevel hsliders).run h, hv, hw⟩
    rintro s l t ⟨hsound, hv, hw⟩ hstep
    have hmoves := moves_of_step hstep
    exact ⟨hsound.step hmoves, hv.step hsound hw hne hmoves, hw.step hsound hv hne.symm hmoves⟩
  exact ⟨hboth.2.1, hboth.2.2, hboth.2.1.not_atRest⟩

/-- A slider that is moved twice before the first request is handled: each context that
arrives moves it back to the other level. -/
theorem never_rests_single :
    ∃ s t : Exchange Unit, s.UnderWay (-20) ∧ s.UnderWay (-30) ∧
      Run (Guarded (Step .squelchSlider) OneRead) s
        [.handleRequest (), .broadcastContextUpdate, .receive () 1, .handleRequest (),
          .broadcastContextUpdate, .receive () 1] t ∧
      t.UnderWay (-20) ∧ t.UnderWay (-30) ∧ ¬ t.AtRest := by
  have hrun : ∃ s : Exchange Unit, Run (Guarded (Step .squelchSlider) OneRead)
      (connected (toFloat 0) fun _ => 0)
      [.handleRequest (), .receive () 1, .move () (-20), .move () (-30)] s ∧
      (s.lines ()).due s.queue = [-20, -30] ∧ ∃ t, Run (Guarded (Step .squelchSlider) OneRead) s
        [.handleRequest (), .broadcastContextUpdate, .receive () 1, .handleRequest (),
          .broadcastContextUpdate, .receive () 1] t :=
    ⟨_, .cons ⟨rfl, trivial⟩ <| .cons ⟨rfl, rfl⟩ <| .cons ⟨rfl, trivial⟩ <|
      .single ⟨rfl, trivial⟩, rfl, _, .cons ⟨rfl, trivial⟩ <| .cons ⟨rfl, trivial⟩ <|
      .cons ⟨rfl, rfl⟩ <| .cons ⟨rfl, trivial⟩ <| .cons ⟨rfl, trivial⟩ <| .single ⟨rfl, rfl⟩⟩
  obtain ⟨s, hs, hdue, t, ht⟩ := hrun
  have hfirst : s.UnderWay (-20) := ⟨(), by rw [hdue]; decide⟩
  have hsecond : s.UnderWay (-30) := ⟨(), by rw [hdue]; decide⟩
  exact ⟨s, t, hfirst, hsecond, ht, never_rests ⟨by decide, by decide⟩
    (fun _ => ⟨by decide, by decide⟩) hs hfirst hsecond (by decide) ht⟩

/-! ## One level under way -/

/-- What a client has still to ask for, and one more if its slider will not show `a`. -/
def unsettled (a : Int) (queue : List Int) (l : Line) : Nat :=
  (l.due queue).length + if (l.updates ++ queue).getLastD l.squelchSlider = a then 0 else 1

/-- A request for `a` is due now, or the slider will show `a` with it. -/
theorem unsettled_setDemodSquelch (a : Int) (queue : List Int) (l : Line) :
    unsettled a (queue ++ [a]) l = unsettled a queue l := by
  have hlast : (l.updates ++ (queue ++ [a])).getLastD l.squelchSlider = a := by
    rw [← List.append_assoc, List.getLastD_concat]
  rw [unsettled, unsettled, hlast, if_pos rfl, Line.due_setDemodSquelch, List.length_append]
  split
  · next heq =>
    rw [heq, changes_cons_self]
    rfl
  · next hne =>
    rw [changes_cons_ne (Ne.symm hne)]
    rfl

theorem unsettled_handled {a : Int} {queue : List Int} {l : Line} {x : Binary32}
    {requests : List DemodRequest} (hrequests : l.requests = .setSquelch x :: requests) :
    unsettled a queue { l with requests := requests } < unsettled a queue l := by
  rw [unsettled, unsettled, Line.due_handled hrequests, List.length_cons]
  exact Nat.add_lt_add_right (Nat.lt_succ_self _) _

theorem unsettled_broadcast (a v : Int) (queue : List Int) (l : Line) :
    unsettled a queue { l with updates := l.updates ++ [v] } = unsettled a (v :: queue) l := by
  rw [unsettled, unsettled, Line.due_broadcast]
  simp

theorem unsettled_handleReceived {a level : Int} {queue : List Int} {l : Line}
    (h : l.Sound r level queue) (hk : l.updates ≠ []) :
    unsettled a queue (l.handleReceived r 1) = unsettled a queue l := by
  obtain ⟨v, updates, hupdates⟩ := List.exists_cons_of_ne_nil hk
  have hlast : ((l.handleReceived r 1).updates ++ queue).getLastD
      (l.handleReceived r 1).squelchSlider = (l.updates ++ queue).getLastD l.squelchSlider := by
    rw [h.handleReceived_eq hupdates, hupdates, List.cons_append, List.getLastD_cons]
    split
    · next heq => rw [heq]
    · rfl
  rw [unsettled, unsettled, h.due_handleReceived hk, hlast]

/-- Only `a` is under way, and every client has the context it asked for. -/
structure Settles (a : Int) (s : Exchange ι) : Prop where
  one : ∀ v, s.UnderWay v → v = a
  answered : ∀ i, .getDemodContext ∉ (s.lines i).requests

section Fintype

variable [Fintype ι]

/-- A bound of the steps until the exchange is at rest with `a`: a request makes one
context in the queue, and that one for every client. -/
def stepsLeft (a : Int) (s : Exchange ι) : Nat :=
  (Fintype.card ι + 2) * ∑ i, unsettled a s.queue (s.lines i) +
    (Fintype.card ι + 1) * s.queue.length + ∑ i, (s.lines i).updates.length

/-- The bound for any level. -/
def bound (s : Exchange ι) : Nat :=
  (Fintype.card ι + 2) * ∑ i, (((s.lines i).due s.queue).length + 1) +
    (Fintype.card ι + 1) * s.queue.length + ∑ i, (s.lines i).updates.length

omit [DecidableEq ι] in
theorem stepsLeft_le (a : Int) (s : Exchange ι) : s.stepsLeft a ≤ s.bound := by
  have hsum : ∑ i, unsettled a s.queue (s.lines i) ≤
      ∑ i, (((s.lines i).due s.queue).length + 1) := by
    refine Finset.sum_le_sum fun i _ => ?_
    rw [unsettled]
    split <;> omega
  have hmul := Nat.mul_le_mul_left (Fintype.card ι + 2) hsum
  rw [stepsLeft, bound]
  omega

theorem Settles.handle {a : Int} {i : ι} {x : Binary32} {requests : List DemodRequest}
    (h : s.Settles a) (hsound : s.Sound r)
    (hrequests : (s.lines i).requests = .setSquelch x :: requests) :
    let t := (s.setLine i { s.lines i with requests := requests }).setDemodSquelch (toInt x)
    t.Settles a ∧ t.stepsLeft a < s.stepsLeft a := by
  intro t
  set l' : Line := { s.lines i with requests := requests } with hl'
  have hx : toInt x = a := by
    refine h.one _ ⟨i, ?_⟩
    rw [Line.due_handled hrequests]
    exact List.mem_cons_self ..
  have hqueue : t.queue = s.queue ++ [a] := by
    show s.queue ++ [toInt (toFloat (toInt x))] = _
    rw [SliderRange.toInt_toFloat (hsound.request hrequests), hx]
  have hself : t.lines i = l' := Function.update_self ..
  have hother : ∀ j, j ≠ i → t.lines j = s.lines j := fun j hj => Function.update_of_ne hj ..
  refine ⟨⟨?_, ?_⟩, ?_⟩
  · rintro v ⟨j, hj⟩
    rw [hqueue, Line.due_setDemodSquelch, List.mem_append] at hj
    rcases hj with hj | hj
    · refine h.one v ⟨j, ?_⟩
      by_cases hji : j = i
      · subst hji
        rw [hself] at hj
        rw [Line.due_handled hrequests]
        exact List.mem_cons_of_mem _ hj
      · rwa [← hother j hji]
    · exact List.mem_singleton.mp (mem_of_mem_changes hj)
  · intro j hget
    by_cases hji : j = i
    · subst hji
      rw [hself] at hget
      refine h.answered j ?_
      rw [hrequests]
      exact List.mem_cons_of_mem _ hget
    · rw [hother j hji] at hget
      exact h.answered j hget
  · have hle : ∀ j, unsettled a t.queue (t.lines j) ≤ unsettled a s.queue (s.lines j) := by
      intro j
      rw [hqueue, unsettled_setDemodSquelch]
      by_cases hji : j = i
      · subst hji
        rw [hself]
        exact (unsettled_handled hrequests).le
      · rw [hother j hji]
    have hlt : ∑ j, unsettled a t.queue (t.lines j) < ∑ j, unsettled a s.queue (s.lines j) := by
      refine Finset.sum_lt_sum (fun j _ => hle j) ⟨i, Finset.mem_univ i, ?_⟩
      rw [hqueue, unsettled_setDemodSquelch, hself]
      exact unsettled_handled hrequests
    have hupdates : ∀ j, (t.lines j).updates = (s.lines j).updates := by
      intro j
      by_cases hji : j = i
      · subst hji
        rw [hself]
      · rw [hother j hji]
    have hmul := Nat.mul_le_mul_left (Fintype.card ι + 2) hlt
    simp only [stepsLeft, hupdates, hqueue, List.length_append, List.length_singleton]
    rw [hqueue] at hmul
    simp only [Nat.mul_succ] at hmul ⊢
    omega

theorem Settles.step {a : Int} (h : s.Settles a) (hsound : s.Sound r) (hstep : Moves r s l t)
    (hunmoved : Unmoved l) : t.Settles a ∧ t.stepsLeft a < s.stepsLeft a := by
  cases hstep with
  | move i v => cases hunmoved
  | @reply i requests hrequests =>
    have hget := h.answered i
    rw [hrequests] at hget
    exact absurd (List.mem_cons_self ..) hget
  | handle hrequests => exact h.handle hsound hrequests
  | @broadcast v queue hqueue =>
    refine ⟨⟨?_, h.answered⟩, ?_⟩
    · rintro w ⟨i, hi⟩
      rw [Line.due_broadcast, ← hqueue] at hi
      exact h.one w ⟨i, hi⟩
    · have hsum : ∑ i, ((s.lines i).updates ++ [v]).length =
          ∑ i, (s.lines i).updates.length + Fintype.card ι := by
        simp [Finset.sum_add_distrib]
      simp only [stepsLeft, unsettled_broadcast, ← hqueue, hsum]
      rw [hqueue, List.length_cons, Nat.mul_succ]
      omega
  | @receive i hupdates =>
    have hline := hsound.lines i
    have hother : ∀ j, j ≠ i →
        (s.setLine i ((s.lines i).handleReceived r 1)).lines j = s.lines j :=
      fun j hj => lines_setLine_ne hj ..
    refine ⟨⟨?_, ?_⟩, ?_⟩
    · rintro v ⟨j, hj⟩
      refine h.one v ⟨j, ?_⟩
      by_cases hji : j = i
      · subst hji
        rwa [lines_setLine_self, show (s.setLine j _).queue = s.queue from rfl,
          hline.due_handleReceived hupdates] at hj
      · rwa [hother j hji] at hj
    · intro j hget
      by_cases hji : j = i
      · subst hji
        rw [lines_setLine_self] at hget
        exact h.answered j (hline.get_handleReceived hupdates hget)
      · rw [hother j hji] at hget
        exact h.answered j hget
    · have hunsettled : ∀ j, unsettled a s.queue
          ((s.setLine i ((s.lines i).handleReceived r 1)).lines j) =
            unsettled a s.queue (s.lines j) := by
        intro j
        by_cases hji : j = i
        · subst hji
          rw [lines_setLine_self, unsettled_handleReceived hline hupdates]
        · rw [hother j hji]
      have hlt : ∑ j, ((s.setLine i ((s.lines i).handleReceived r 1)).lines j).updates.length <
          ∑ j, (s.lines j).updates.length := by
        refine Finset.sum_lt_sum (fun j _ => ?_) ⟨i, Finset.mem_univ i, ?_⟩
        · by_cases hji : j = i
          · subst hji
            rw [lines_setLine_self]
            exact (hline.updates_handleReceived hupdates).le
          · rw [hother j hji]
        · rw [lines_setLine_self]
          exact hline.updates_handleReceived hupdates
      simp only [stepsLeft, show (s.setLine i ((s.lines i).handleReceived r 1)).queue = s.queue
        from rfl, hunsettled]
      omega

omit [Fintype ι] in
/-- While something is in flight, it can go on. -/
theorem exists_step (h : ¬ s.AtRest) :
    ∃ l t, Guarded (Step r) Undisturbed s l t := by
  by_cases hqueue : s.queue = []
  · have hline : ∃ i, (s.lines i).requests ≠ [] ∨ (s.lines i).updates ≠ [] := by
      by_contra hnone
      push Not at hnone
      exact h ⟨hqueue, hnone⟩
    obtain ⟨i, hrequests | hupdates⟩ := hline
    · obtain ⟨q, requests, heq⟩ := List.exists_cons_of_ne_nil hrequests
      have hnext : ∃ t, s.handleRequest i = some t := by
        cases q <;> simp [handleRequest, heq]
      obtain ⟨t, ht⟩ := hnext
      exact ⟨.handleRequest i, t, ht, trivial, trivial⟩
    · have hpos := List.length_pos_of_ne_nil hupdates
      exact ⟨.receive i 1, _, if_pos ⟨Nat.one_pos, hpos⟩, rfl, trivial⟩
  · obtain ⟨v, queue, heq⟩ := List.exists_cons_of_ne_nil hqueue
    have hnext : ∃ t, s.broadcastContextUpdate = some t := by
      simp [broadcastContextUpdate, heq]
    obtain ⟨t, ht⟩ := hnext
    exact ⟨.broadcastContextUpdate, t, ht, trivial, trivial⟩

/-- **The exchange comes to rest.**  Where each read takes one context, while every client
has the context it asked for, at most one level is under way and no user moves a slider, it
goes on until it is at rest, within a bounded number of steps. -/
theorem rests_on_one_level {squelchLevel : Binary32} {sliders : ι → Int}
    (hlevel : r.Contains (toInt squelchLevel)) (hsliders : ∀ i, r.Contains (sliders i))
    (h : Run (Guarded (Step r) OneRead) (connected squelchLevel sliders) ls s)
    (hone : ∀ v w, s.UnderWay v → s.UnderWay w → v = w)
    (hanswered : ∀ i, .getDemodContext ∉ (s.lines i).requests)
    (hrun : Run (Guarded (Step r) Undisturbed) s ms t) :
    ms.length ≤ s.bound ∧
      (t.AtRest ∨ ∃ l u, Guarded (Step r) Undisturbed t l u) := by
  have hsettles : ∃ a, s.Settles a := by
    by_cases hsome : ∃ a, s.UnderWay a
    · obtain ⟨a, ha⟩ := hsome
      exact ⟨a, fun v hv => hone v a hv ha, hanswered⟩
    · exact ⟨0, fun v hv => absurd ⟨v, hv⟩ hsome, hanswered⟩
  obtain ⟨a, ha⟩ := hsettles
  have hsteps : ms.length + t.stepsLeft a ≤ s.stepsLeft a := by
    have hsound := (sound_connected hlevel hsliders).run h
    clear h hone hanswered
    induction hrun with
    | nil s => simp
    | cons hstep _ ih =>
      have hmoves := moves_of_step ⟨hstep.1, hstep.2.1⟩
      obtain ⟨hnext, hlt⟩ := ha.step hsound hmoves hstep.2.2
      have hrest := ih hnext (hsound.step hmoves)
      rw [List.length_cons]
      omega
  have hbound := s.stepsLeft_le a
  refine ⟨by omega, ?_⟩
  by_cases hrest : t.AtRest
  · exact .inl hrest
  · exact .inr (exists_step hrest)

/-- A slider that is moved once: its level is the only one under way. -/
theorem rests_on_one_level_single :
    ∃ s t : Exchange Unit, s.UnderWay (-20) ∧
      Run (Guarded (Step .squelchSlider) Undisturbed) s
        [.handleRequest (), .broadcastContextUpdate, .receive () 1] t ∧
      3 ≤ s.bound ∧
      (t.AtRest ∨ ∃ l u, Guarded (Step .squelchSlider) Undisturbed t l u) := by
  have hrun : ∃ s : Exchange Unit, Run (Guarded (Step .squelchSlider) OneRead)
      (connected (toFloat 0) fun _ => 0) [.handleRequest (), .receive () 1, .move () (-20)] s ∧
      (s.lines ()).due s.queue = [-20] ∧
      (s.lines ()).requests = [.setSquelch (toFloat (-20))] ∧
      ∃ t, Run (Guarded (Step .squelchSlider) Undisturbed) s
        [.handleRequest (), .broadcastContextUpdate, .receive () 1] t :=
    ⟨_, .cons ⟨rfl, trivial⟩ <| .cons ⟨rfl, rfl⟩ <| .single ⟨rfl, trivial⟩, rfl, rfl, _,
      .cons ⟨rfl, trivial, trivial⟩ <| .cons ⟨rfl, trivial, trivial⟩ <|
      .single ⟨rfl, rfl, trivial⟩⟩
  obtain ⟨s, hs, hdue, hrequests, t, ht⟩ := hrun
  have hone : ∀ v, s.UnderWay v → v = -20 := by
    rintro v ⟨⟨⟩, hv⟩
    rw [hdue] at hv
    exact List.mem_singleton.mp hv
  have hanswered : ∀ i, .getDemodContext ∉ (s.lines i).requests := by
    rintro ⟨⟩ hget
    rw [hrequests] at hget
    cases List.mem_singleton.mp hget
  exact ⟨s, t, ⟨(), by rw [hdue]; decide⟩, ht, rests_on_one_level ⟨by decide, by decide⟩
    (fun _ => ⟨by decide, by decide⟩) hs (fun v w hv hw => (hone v hv).trans (hone w hw).symm)
    hanswered ht⟩

end Fintype

end Exchange

end PiScan.Client

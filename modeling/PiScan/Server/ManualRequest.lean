import PiScan.Common.Configuration
import PiScan.Machine.ManualHold
import PiScan.Server.Replies
import PiScan.Server.SocketConnection

/-!
# Does a manual request tune what was asked?

`_handleScanStateRequest` hands the frequency of a `MANUAL` request on, and no
modulation: `scanManualEntry` takes its default.

* `Tunes`: once the event is committed, and while no other external event comes,
  the thread goes on, and from its fourth step on it holds or receives on an
  entry with the frequency and the modulation;
* `manual_request_iff`: this is so if and only if the modulation is FM and no
  index of a hold was left behind, or one was and its entry happens to be right;
* `am_request`: a request for AM that holds on FM.
-/

namespace PiScan.Server

open Scan Sigproc Machine Runs TwosComplement Common

/-! ## Requests and calls -/

def SQUELCH_SNR : Int := 1
def SQUELCH_PCT : Int := 2

/-- `app::system::getSystemInfo`. -/
def getSystemInfo (version : String) (squelchType : Int) : SystemInfo :=
  { version
    buildNumber := 0
    squelchRange :=
      if squelchType = SQUELCH_PCT ∨ squelchType = SQUELCH_SNR then (0, 100) else (-100, 0)
    supportedModulations := ["FM", "AM"] }

/-- The calls of the scanner that a connection makes. -/
def Request.scannerCall : Request → Option Machine.Call
  | scanStart => some .startScan
  | scanHold => some (.holdScan [])
  | scanManualEntry freq mode => some (.manualEntry freq.toInt mode)
  | _ => none

/-- The demodulator of a supported modulation. -/
def demodulator (modulation : String) : Modulation := if modulation = "AM" then .AM else .NFM

theorem freq_manualRequest (freq : BitVec 64) (modulation : String) :
    (ThreadData.makeManualEntry freq.toInt modulation).freq = freq.toInt := by
  rw [ThreadData.freq_makeManualEntry]
  apply wrap_of_fits (by decide)
  exact ⟨freq.le_toInt, freq.toInt_lt⟩

/-! ## Runs -/

/-- The entry `e` has the frequency, and its channel demodulates as asked. -/
def IsEntry (freq : Int) (modulation : String) (e : Entry) : Prop :=
  e.freq = freq ∧ e.isDummy = false ∧ channelMode e = demodulator modulation

/-- The thread holds, or receives, on such an entry for a client. -/
structure HoldsFrequency (freq : Int) (modulation : String) (w : World) : Prop where
  alive : ∀ f, w.pc ≠ .crashed f
  flag : w.sm.externalHold = true
  due : ∀ a, w.Due a → a = .ST_HOLD ∨ a = .ST_RECEIVE
  entry : ∃ e, w.sm.data.entry = .ok e ∧ IsEntry freq modulation e

/-- What a manual request that has been accepted at `w` leads to. -/
structure Tunes (freq : Int) (modulation : String) (w : World) : Prop where
  runs : ∀ ls w', Run World.Step w ls w' → (∀ l ∈ ls, l.Quiet) →
    ∃ l w'', l.client = none ∧ World.Step w' l w''
  holds : ∀ ls w', Run World.Step w ls w' → (∀ l ∈ ls, l.Quiet) → 4 ≤ threadSteps ls →
    (∃ rest, activations ls = .ST_MANUAL :: .ST_HOLD :: rest ∧
      ∀ a ∈ rest, a = .ST_HOLD ∨ a = .ST_RECEIVE) ∧ HoldsFrequency freq modulation w'

theorem holdsFrequency_of_staysOn {w : World} {e : Entry} {freq : Int} {modulation : String}
    (h : w.StaysOn e) (he : IsEntry freq modulation e) : HoldsFrequency freq modulation w := by
  refine ⟨?_, h.flag, ?_, e, h.data.entry, he⟩
  · intro f hpc
    rcases h.point with hpoint | hdue | hdue
    · rw [hpc] at hpoint
      cases hpoint
    · cases hpc.symm.trans hdue.1
    · cases hpc.symm.trans hdue.1
  · intro a ha
    rcases h.point with hpoint | hdue | hdue
    · rw [ha.1] at hpoint
      cases hpoint
    · exact .inl (ha.2.2.symm.trans hdue.2.2)
    · exact .inr (ha.2.2.symm.trans hdue.2.2)

/-- What is tuned is the entry that the hold takes. -/
theorem tunes_iff {w : World} {d : ThreadData} {index : List Int} {freq freq' : Int}
    {modulation modulation' : String} {o : Except Fault Entry} (hready : d.demod.Ready)
    (ho : World.takenEntry freq modulation index d.systems = o)
    (h : World.Stage o d index freq modulation 0 [] w) :
    Tunes freq' modulation' w ↔ ∃ e, o = .ok e ∧ IsEntry freq' modulation' e := by
  constructor
  · intro htunes
    obtain ⟨ls, w', hrun, hls, hend⟩ := h.exists_run hready ho 4
    have hstage := h.run hready ho hrun hls
    rcases hend with ⟨f, -, hcrash⟩ | hfour
    · obtain ⟨l, w'', -, hs⟩ := htunes.runs ls w' hrun hls
      exact absurd hs (World.not_step_crashed hcrash)
    · obtain ⟨-, hholds⟩ := htunes.holds ls w' hrun hls hfour.ge
      rw [hfour] at hstage
      generalize activations ls = acts at hstage
      generalize hn : (4 : Nat) = n at hstage
      cases hstage with
      | stays hn ho' hrest hw =>
        obtain ⟨e', he', his⟩ := hholds.entry
        obtain rfl := Except.ok.inj (hw.data.entry.symm.trans he')
        exact ⟨_, ho', his⟩
      | crashed ho' hpc => exact absurd hpc (hholds.alive _)
      | _ => cases hn
  · rintro ⟨e, rfl, his⟩
    constructor
    · intro ls w' hrun hls
      rcases (h.run hready ho hrun hls).goes_on with ⟨f, hf, -⟩ | hgo
      · cases hf
      · exact hgo
    · intro ls w' hrun hls hfour
      have hstage := h.run hready ho hrun hls
      generalize hacts : activations ls = acts at hstage
      generalize hn : threadSteps ls = n at hstage hfour
      cases hstage with
      | stays hn' ho' hrest hw =>
        obtain rfl := Except.ok.inj ho'
        exact ⟨⟨_, rfl, hrest⟩, holdsFrequency_of_staysOn hw his⟩
      | crashed ho' hpc => cases ho'
      | _ => omega

/-- The request `rq` has been accepted: its call is about to commit its event. -/
structure Accepted (rq : ScannerStateRequest) (c : Nat) (w : World) : Prop where
  running : w.pc ≠ .ended
  call : ∃ request call next, SocketConnection.handleScanStateRequest rq = some request ∧
    request.scannerCall = some call ∧ w.clients c = .looked call (some next)

theorem call_of_manual {rq : ScannerStateRequest} (hstate : rq.state = ScannerStateRequest.MANUAL)
    {c : Nat} {w : World} (hsane : w.control.Sane) (h : Accepted rq c w) :
    w.clients c = .looked (.manualEntry rq.manFreq.toInt "FM") (some .ST_MANUAL) := by
  obtain ⟨request, call, next, hrequest, hcall, hlooked⟩ := h.call
  have hnext : next = call.target := hsane.target (show w.control.clients c = _ from hlooked)
  have hmanual : SocketConnection.handleScanStateRequest rq =
      some (.scanManualEntry rq.manFreq "FM") := by
    rw [SocketConnection.handleScanStateRequest, hstate]
    rfl
  obtain rfl := Option.some.inj (hmanual.symm.trans hrequest)
  obtain rfl := Option.some.inj hcall
  rw [hlooked, hnext]
  rfl

/-- The entry that `ST_Manual` makes for the default modulation is what was asked just
when that is FM. -/
theorem isEntry_manual_iff {freq : BitVec 64} {modulation version : String} {squelchType : Int}
    (hmodulation : modulation ∈ (getSystemInfo version squelchType).supportedModulations) :
    IsEntry freq.toInt modulation (ThreadData.makeManualEntry freq.toInt "FM") ↔
      modulation = "FM" := by
  have hmode : channelMode (ThreadData.makeManualEntry freq.toInt "FM") = .NFM := rfl
  have hfreq := freq_manualRequest freq "FM"
  have hreal := ThreadData.isDummy_makeManualEntry freq.toInt "FM"
  have hcases : modulation = "FM" ∨ modulation = "AM" := by
    simpa [getSystemInfo] using hmodulation
  unfold IsEntry
  rw [hmode]
  rcases hcases with rfl | rfl
  · exact ⟨fun _ => rfl, fun _ => ⟨hfreq, hreal, rfl⟩⟩
  · constructor
    · rintro ⟨-, -, hno⟩
      cases hno
    · intro hno
      exact absurd hno (by decide)

/-- With the commit of an accepted request, `ST_Manual` is next. -/
theorem stage_of_commit {w w₁ : World} {rq : ScannerStateRequest} {c : Nat}
    (hsane : w.control.Sane) (hstate : rq.state = ScannerStateRequest.MANUAL)
    (haccepted : Accepted rq c w) (hcommit : World.Step w (.commit c) w₁) :
    World.Stage (World.takenEntry rq.manFreq.toInt "FM" w.sm.holdIndex w.sm.data.systems)
      w.sm.data w.sm.holdIndex rq.manFreq.toInt "FM" 0 [] w₁ := by
  have hlooked := call_of_manual hstate hsane haccepted
  cases World.moves_of_step hcommit with
  | commit hc hu =>
    obtain ⟨rfl, hnext⟩ := ClientPc.looked.inj (hlooked.symm.trans hc)
    obtain rfl := Option.some.inj hnext
    have hidle : w.pc = .idle := hu.resolve_right haccepted.running
    exact .pending ⟨hidle, rfl, rfl⟩ rfl rfl rfl
  | crash hfault => simp at hfault

/-- **What a manual request tunes.**  Without an index of a hold that was left behind, an
accepted request tunes what was asked just when that is FM. -/
theorem manual_request_iff {file : SystemsFile} {cubic : CubicSDR} {pre : List Label}
    {w w₁ : World} {rq : ScannerStateRequest} {c : Nat} {version : String} {squelchType : Int}
    (hrun : Run World.Step (World.start file (.start cubic)) pre w)
    (hstate : rq.state = ScannerStateRequest.MANUAL)
    (hmodulation : rq.manModulation ∈ (getSystemInfo version squelchType).supportedModulations)
    (haccepted : Accepted rq c w) (hcommit : World.Step w (.commit c) w₁) :
    Tunes rq.manFreq.toInt rq.manModulation w₁ ↔
      (w.sm.holdIndex = [] ∧ rq.manModulation = "FM") ∨
        (w.sm.holdIndex ≠ [] ∧ ∃ e, w.sm.data.systems.holdEntry w.sm.holdIndex = .ok e ∧
          IsEntry rq.manFreq.toInt rq.manModulation e) := by
  have hready := (World.audible_run hrun).ready
  have hstage := stage_of_commit (World.sane_run hrun) hstate haccepted hcommit
  rw [tunes_iff hready rfl hstage]
  by_cases hindex : w.sm.holdIndex = []
  · have htaken : World.takenEntry rq.manFreq.toInt "FM" w.sm.holdIndex w.sm.data.systems =
        .ok (ThreadData.makeManualEntry rq.manFreq.toInt "FM") := if_pos hindex
    rw [htaken]
    constructor
    · rintro ⟨e, he, his⟩
      obtain rfl := Except.ok.inj he
      exact .inl ⟨hindex, (isEntry_manual_iff hmodulation).mp his⟩
    · rintro (⟨-, hm⟩ | ⟨hne, -⟩)
      · exact ⟨_, rfl, (isEntry_manual_iff hmodulation).mpr hm⟩
      · exact absurd hindex hne
  · -- the index replaces the manual entry
    have htaken : World.takenEntry rq.manFreq.toInt "FM" w.sm.holdIndex w.sm.data.systems =
        w.sm.data.systems.holdEntry w.sm.holdIndex := if_neg hindex
    rw [htaken]
    constructor
    · intro h
      exact .inr ⟨hindex, h⟩
    · rintro (⟨hnil, -⟩ | ⟨-, h⟩)
      · exact absurd hnil hindex
      · exact h

/-- The message of `manualEntry` in the client. -/
def manualRequest (manFreq : BitVec 64) (manModulation : String) : ScannerStateRequest :=
  { ScannerStateRequest.init with state := ScannerStateRequest.MANUAL, manFreq, manModulation }

/-- Client 1 asks for `freq` while the scanner scans. -/
def asked (freq : BitVec 64) : World :=
  (World.start oneChannelFile (.start tunedDemod.cubic)).after
    (scanStarted ++ [.begin 1 (.manualEntry freq.toInt "FM"), .lookup 1])

theorem manual_request_fm : Tunes 145500000 "FM" ((asked 145500000).after [.commit 1]) := by
  have hrun : Run World.Step (World.start oneChannelFile (.start tunedDemod.cubic))
      (scanStarted ++ [.begin 1 (.manualEntry (145500000 : BitVec 64).toInt "FM"), .lookup 1])
      (asked 145500000) := World.run_after (by decide +kernel)
  have haccepted : Accepted (manualRequest 145500000 "FM") 1 (asked 145500000) :=
    ⟨by decide +kernel, _, _, .ST_MANUAL, rfl, rfl, by decide +kernel⟩
  have hmodulation : (manualRequest 145500000 "FM").manModulation ∈
      (getSystemInfo "debug" SQUELCH_DBM).supportedModulations := by decide
  exact (manual_request_iff hrun rfl hmodulation haccepted
    (World.step_after (by decide +kernel))).mpr (.inl ⟨by decide +kernel, rfl⟩)

/-- **A request for AM** is accepted, and the scanner holds on FM. -/
theorem am_request : ∃ pre w w₁,
    Run World.Step (World.start oneChannelFile (.start tunedDemod.cubic)) pre w ∧
      Accepted (manualRequest 118000000 "AM") 1 w ∧ World.Step w (.commit 1) w₁ ∧
      ¬Tunes 118000000 "AM" w₁ := by
  refine ⟨_, asked 118000000, (asked 118000000).after [.commit 1],
    World.run_after (by decide +kernel),
    ⟨by decide +kernel, _, _, .ST_MANUAL, rfl, rfl, by decide +kernel⟩,
    World.step_after (by decide +kernel), ?_⟩
  intro h
  have hrun : Run World.Step ((asked 118000000).after [.commit 1])
      [.activate .ST_MANUAL, .resume (silence 0), .activate .ST_HOLD, .resume (silence 0)]
      (((asked 118000000).after [.commit 1]).after
        [.activate .ST_MANUAL, .resume (silence 0), .activate .ST_HOLD, .resume (silence 0)]) :=
    World.run_after (by decide +kernel)
  obtain ⟨-, hholds⟩ := h.holds _ _ hrun (by simp [Label.Quiet]) (by decide)
  obtain ⟨e, he, -, -, hmode⟩ := hholds.entry
  have hcur : (((asked 118000000).after [.commit 1]).after
      [.activate .ST_MANUAL, .resume (silence 0), .activate .ST_HOLD,
        .resume (silence 0)]).sm.data.currentEntry =
      some (.owned (ThreadData.makeManualEntry 118000000 "FM")) := by decide +kernel
  obtain rfl := Except.ok.inj ((ThreadData.entry_owned hcur).symm.trans he)
  cases hmode

end PiScan.Server

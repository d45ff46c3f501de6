import PiScan.Machine.Invariant
import PiScan.Scan.Bins

/-!
# Are hold requests kept?

A `holdScan` sets `_externalHold`, stores its index, looks up its event and
commits it.  `ST_Scan` clears the flag, and it may do so between the first and
the last of these steps; then the call returns with its flag gone.

* `Kept.step`: as long as only `holdScan` calls run, a machine that holds and
  has no `ST_Scan` due keeps to `ST_Hold` and `ST_Receive`;
* `hold_kept`: so a hold is kept if at the return of the call the flag stands
  and no `ST_Scan` is due;
* `hold_lost`: a run in which it is not.
-/

namespace PiScan.Machine

open Scan Sigproc Runs

def Call.IsHold : Call → Prop
  | holdScan _ => True
  | _ => False

instance : DecidablePred Call.IsHold := fun call => by
  cases call <;> unfold Call.IsHold <;> infer_instance

namespace Control

/-- `ST_Scan` is pending, has cleared the flag and will raise an event, or
`ST_Hold` has decided for it. -/
def ScanDue (s : Control) : Prop :=
  s.Due .ST_SCAN ∨ s.pc = .scan ∨ s.pc = .holdEvent (some .ST_SCAN)

instance (s : Control) : Decidable s.ScanDue := inferInstanceAs (Decidable (_ ∨ _))

/-- The flag is set, or an `ST_Manual` is pending that sets it and that no
client is about to replace. -/
def HoldStands (s : Control) : Prop :=
  s.externalHold = true ∨
    s.Due .ST_MANUAL ∧ ∀ c call, s.clients c ≠ .looked call (some .ST_HOLD)

/-- A machine that holds; the handlers in `pending` may still be due. -/
structure Kept (pending : States → Prop) (s : Control) : Prop where
  due : ∀ h, s.Due h → h = .ST_HOLD ∨ h = .ST_RECEIVE ∨ pending h
  pc_scan : s.pc ≠ .scan
  pc_event : s.pc ≠ .holdEvent (some .ST_SCAN)
  hold : s.HoldStands ∨ ∃ f, s.pc = .crashed f

theorem Kept.flag {pending : States → Prop} {s : Control} (h : s.Kept pending)
    (hpc : ∀ f, s.pc ≠ .crashed f) (hm : ¬s.Due .ST_MANUAL) : s.externalHold = true := by
  rcases h.hold with (hf | ⟨hdue, -⟩) | ⟨f, hf⟩
  · exact hf
  · exact absurd hdue hm
  · exact absurd hf (hpc f)

/-- A handler that has just raised `ST_HOLD` or `ST_RECEIVE`. -/
theorem kept_raised {pending : States → Prop} {s : Control} {next : States} (hasEntry : Bool)
    (hf : s.externalHold = true) (hnext : next = .ST_HOLD ∨ next = .ST_RECEIVE) :
    Kept pending { s.raised next with hasEntry } := by
  refine ⟨?_, nofun, nofun, .inl (.inl hf)⟩
  rintro h ⟨-, -, rfl⟩
  exact hnext.elim .inl fun h => .inr (.inl h)

/-- The thread has left the mailbox empty, or is in the middle of a handler. -/
theorem kept_quiet {pending : States → Prop} {s : Control} (hf : s.externalHold = true)
    (hdue : ∀ h, ¬s.Due h) (hscan : s.pc ≠ .scan) (hevent : s.pc ≠ .holdEvent (some .ST_SCAN)) :
    s.Kept pending :=
  ⟨fun h hh => absurd hh (hdue h), hscan, hevent, .inl (.inl hf)⟩

theorem kept_inside {pending : States → Prop} {s : Control} (hf : s.externalHold = true)
    (hpc : s.pc ≠ .idle) (hscan : s.pc ≠ .scan) (hevent : s.pc ≠ .holdEvent (some .ST_SCAN)) :
    s.Kept pending :=
  kept_quiet hf (fun _ hd => hpc hd.1) hscan hevent

/-- A step of a client that leaves mailbox and flag alone. -/
theorem Kept.setClient {pending : States → Prop} {s : Control} (h : s.Kept pending) (c : Nat)
    {p : ClientPc} (hp : s.Due .ST_MANUAL → ∀ call, p ≠ .looked call (some .ST_HOLD)) :
    (s.setClient c p).Kept pending := by
  refine ⟨h.due, h.pc_scan, h.pc_event, h.hold.imp_left ?_⟩
  rintro (hf | ⟨hm, hlooked⟩)
  · exact .inl hf
  · exact .inr ⟨hm, forall_update (P := fun p => ∀ call, p ≠ .looked call (some .ST_HOLD))
      hlooked c (hp hm)⟩

/-- The commit of a `holdScan` finds the flag set. -/
theorem Kept.commit {pending : States → Prop} {s : Control} (h : s.Kept pending) {c : Nat}
    {call : Call} (hc : s.clients c = .looked call (some .ST_HOLD)) (hu : s.pc.Unlocked) :
    s.externalHold = true := by
  rcases h.hold with (hf | ⟨-, hlooked⟩) | ⟨f, hf⟩
  · exact hf
  · exact absurd hc (hlooked c call)
  · rcases hu with hu | hu <;> exact absurd (hf.symm.trans hu) nofun

/-- **One step of a machine that holds**, with only `holdScan` calls around.
After the first handler that starts, nothing but `ST_HOLD` and `ST_RECEIVE` is
due. -/
theorem Kept.step {pending : States → Prop} {s s' : Control} {l : Label} (h : s.Kept pending)
    (hpending : ¬pending .ST_SCAN) (hsane : s.Sane) (hrun : s.Running)
    (hcalls : s.InCalls Call.IsHold) (hs : Step s l s') :
    (l.activated = none → s'.Kept pending) ∧
      (∀ a, l.activated = some a → s.Due a ∧ s'.Kept fun _ => False) := by
  obtain ⟨hdue, hscan, hevent, hhold⟩ := h
  have hkept : s.Kept pending := ⟨hdue, hscan, hevent, hhold⟩
  have hnoscan : ¬s.Due .ST_SCAN := fun hd => by
    rcases hdue _ hd with h | h | h
    · cases h
    · cases h
    · exact hpending h
  -- the flag is set whenever the thread is not about to start `ST_MANUAL`
  have hflag : ∀ {pc : Pc}, s.pc = pc → pc ≠ .idle → (∀ f, pc ≠ .crashed f) →
      s.externalHold = true := by
    rintro pc rfl hne hcr
    exact hkept.flag hcr fun hd => hne hd.1
  have hflag' : ∀ {a : States}, s.Due a → a ≠ .ST_MANUAL → s.externalHold = true := by
    intro a hd hne
    refine hkept.flag (fun f hf => ?_) fun hm => hne (hd.2.2.symm.trans hm.2.2)
    exact absurd (hd.1.symm.trans hf) nofun
  cases hs with
  | begin hc => exact ⟨fun _ => hkept.setClient _ fun _ _ => nofun, nofun⟩
  | storeFlag hc => exact ⟨fun _ => ⟨hdue, hscan, hevent, .inl (.inl rfl)⟩, nofun⟩
  | storeIndex hc => exact ⟨fun _ => hkept.setClient _ fun _ _ => nofun, nofun⟩
  | @lookup c call hc =>
    refine ⟨fun _ => hkept.setClient _ fun hm call' => ?_, nofun⟩
    -- no table leads from a pending `ST_MANUAL` to `ST_HOLD`
    rw [hm.2.2]
    cases call <;> exact nofun
  | ignore hc => exact ⟨fun _ => hkept.setClient _ fun _ _ => nofun, nofun⟩
  | @commit c call next hc hu =>
    obtain rfl : next = .ST_HOLD := by
      have hcall : call.IsHold := hcalls c call (by rw [hc]; rfl)
      rw [hsane.target hc]
      cases call <;> first | rfl | cases hcall
    refine ⟨fun _ => ⟨?_, hscan, hevent, .inl (.inl (hkept.commit hc hu))⟩, nofun⟩
    rintro h ⟨-, -, rfl⟩
    exact .inl rfl
  | load hd =>
    refine ⟨nofun, fun a ha => ⟨?_, kept_quiet (hflag' hd nofun) ?_ nofun nofun⟩⟩
    · cases ha
      exact hd
    · rintro h ⟨-, he, -⟩
      cases he
  | scanEmpty hd => exact absurd hd hnoscan
  | scan hd => exact absurd hd hnoscan
  | hold hd he =>
    refine ⟨nofun, fun a ha => ⟨?_, kept_inside (hflag' hd nofun) nofun nofun nofun⟩⟩
    cases ha
    exact hd
  | receive hd hcur =>
    refine ⟨nofun, fun a ha => ⟨?_, kept_inside (hflag' hd nofun) nofun nofun nofun⟩⟩
    cases ha
    exact hd
  | manual hd =>
    refine ⟨nofun, fun a ha => ⟨?_, kept_inside rfl nofun nofun nofun⟩⟩
    cases ha
    exact hd
  | saveAll hd => exact absurd hd.2.2 hrun.saveAll
  | stopped hd => exact absurd hd.2.2 hrun.stopped
  | scanEnd hpc hnext => exact absurd hpc hscan
  | holdEntry hpc =>
    exact ⟨fun _ => kept_inside (hflag hpc nofun nofun) nofun nofun nofun, nofun⟩
  | @holdDecision r found next hpc hnext hh hnone =>
    have hf := hflag hpc nofun nofun
    refine ⟨fun _ => kept_inside hf nofun nofun ?_, nofun⟩
    intro he
    cases he
    exact (hh hf).1 rfl
  | @holdEvent r next hpc =>
    refine ⟨fun _ => kept_raised s.hasEntry (hflag hpc nofun nofun) ?_, nofun⟩
    rcases hsane.decided next hpc with rfl | rfl | rfl
    · exact .inr rfl
    · exact .inl rfl
    · exact absurd hpc hevent
  | holdQuiet hpc =>
    refine ⟨fun _ => kept_quiet (hflag hpc nofun nofun) ?_ nofun nofun, nofun⟩
    rintro h ⟨-, he, -⟩
    have hq := hsane.holding (by rw [hpc]; trivial)
    exact absurd (hq.symm.trans he) nofun
  | receiveEnd hpc hnext =>
    exact ⟨fun _ => kept_raised s.hasEntry (hflag hpc nofun nofun) hnext.symm, nofun⟩
  | manualEnd hpc =>
    exact ⟨fun _ => kept_raised s.hasEntry (hflag hpc nofun nofun) (.inl rfl), nofun⟩
  | saveAllEnd hpc => exact absurd hpc hrun.pc_saveAll
  | @crash l f hmay hd =>
    have hcrashed : ∀ pending', ({ s with pc := .crashed f } : Control).Kept pending' :=
      fun _ => ⟨fun h hh => absurd hh.1 nofun, nofun, nofun, .inr ⟨f, rfl⟩⟩
    refine ⟨fun _ => hcrashed _, fun a ha => ⟨?_, hcrashed _⟩⟩
    cases l <;> cases ha
    exact hd _ rfl

end Control

/-! ## The return of a `holdScan` -/

/-- By the end of `ls` the database with at least one scannable entry is loaded,
and an `ST_Scan` or an `ST_Manual` has been completed. -/
def Warm (file : SystemsFile) (demod : Demodulator) (ls : List Label) : Prop :=
  ∃ (ls₁ ls₂ : List Label) (w : World), ls = ls₁ ++ ls₂ ∧
    Run World.Step (.start file demod) ls₁ w ∧ w.pc = .idle ∧
    .ST_LOAD ∈ activations ls₁ ∧ (.ST_SCAN ∈ activations ls₁ ∨ .ST_MANUAL ∈ activations ls₁) ∧
    ∃ p, w.sm.data.systems.isScannable p = true

/-- In a run without `stopScanner`, a `holdScan` call has just returned, and
every call still in progress is a `holdScan`. -/
def HoldReturned (file : SystemsFile) (demod : Demodulator) (w : World) : Prop :=
  ∃ (pre : List Label) (l : Label) (w₀ : World) (c : Nat) (index : List Int),
    Run World.Step (.start file demod) pre w₀ ∧ World.Step w₀ l w ∧ Warm file demod pre ∧
    Begins (· ≠ .stopScanner) pre ∧ (l = .ignore c ∨ l = .commit c) ∧
    (w₀.clients c).call? = some (.holdScan index) ∧ w.control.InCalls Call.IsHold

/-- After the handler that is due at `w₁`, the run `ls` to `w₂` starts nothing but
`ST_Hold` and `ST_Receive`, with the flag set. -/
structure OnlyHolds (w₁ : World) (ls : List Label) (w₂ : World) : Prop where
  handlers : ∀ first rest, activations ls = first :: rest →
    (first = .ST_HOLD ∨ first = .ST_RECEIVE ∨ w₁.control.Due first) ∧
      ∀ h ∈ rest, h = .ST_HOLD ∨ h = .ST_RECEIVE
  flag : (∀ f, w₂.pc ≠ .crashed f) → activations ls ≠ [] ∨ (∀ h, ¬w₁.control.Due h) →
    w₂.sm.externalHold = true

namespace Control

/-- The run after a return at `s₁`: the labels so far are `pre`, and either no
handler has started yet, or what was due at the return is gone. -/
structure Since (s₁ : Control) (pre : List Label) (s : Control) : Prop where
  sane : s.Sane
  running : s.Running
  calls : s.InCalls Call.IsHold
  phase : (activations pre = [] ∧ s.Kept fun h => s₁.Due h) ∨
    ∃ first rest, activations pre = first :: rest ∧
      (first = .ST_HOLD ∨ first = .ST_RECEIVE ∨ s₁.Due first) ∧
      (∀ h ∈ rest, h = .ST_HOLD ∨ h = .ST_RECEIVE) ∧ s.Kept fun _ => False

theorem Since.step {s₁ s s' : Control} {pre : List Label} {l : Label} (hnoscan : ¬s₁.Due .ST_SCAN)
    (h : Since s₁ pre s) (hl : l.Begins Call.IsHold) (hs : Step s l s') :
    Since s₁ (pre ++ [l]) s' := by
  obtain ⟨hsane, hrun, hcalls, hphase⟩ := h
  have hstop : s.InCalls (· ≠ .stopScanner) := fun c call hcall => by
    rintro rfl
    exact hcalls c _ hcall
  refine ⟨hsane.step hs, hrun.step hsane (fun _ _ _ _ => hstop.commit) hs, hcalls.step hl hs, ?_⟩
  rw [activations_append, activations_singleton]
  rcases hphase with ⟨hnone, hkept⟩ | ⟨first, rest, hacts, hfirst, hrest, hkept⟩
  · obtain ⟨hquiet, hstart⟩ := hkept.step hnoscan hsane hrun hcalls hs
    cases ha : l.activated with
    | none => exact .inl ⟨by simp [hnone], hquiet ha⟩
    | some a =>
      obtain ⟨hdue, hkept'⟩ := hstart a ha
      exact .inr ⟨a, [], by simp [hnone], hkept.due a hdue, by simp, hkept'⟩
  · obtain ⟨hquiet, hstart⟩ := hkept.step not_false hsane hrun hcalls hs
    cases ha : l.activated with
    | none => exact .inr ⟨first, rest, by simp [hacts], hfirst, hrest, hquiet ha⟩
    | some a =>
      obtain ⟨hdue, hkept'⟩ := hstart a ha
      have ha' : a = .ST_HOLD ∨ a = .ST_RECEIVE := by
        rcases hkept.due a hdue with h | h | h
        · exact .inl h
        · exact .inr h
        · exact h.elim
      refine .inr ⟨first, rest ++ [a], by simp [hacts], hfirst, ?_, hkept'⟩
      intro h hh
      rcases List.mem_append.mp hh with hh | hh
      · exact hrest h hh
      · rw [List.mem_singleton.mp hh]
        exact ha'

end Control

namespace World

/-- **A hold is kept** by every run of `holdScan` calls after the return, if there
the flag stands and no `ST_Scan` is due. -/
theorem hold_kept {file : SystemsFile} {demod : Demodulator} {w₁ w₂ : World} {ls : List Label}
    (hret : HoldReturned file demod w₁) (hscan : ¬w₁.control.ScanDue)
    (hstands : w₁.control.HoldStands) (hls : Begins Call.IsHold ls) (h : Run Step w₁ ls w₂) :
    OnlyHolds w₁ ls w₂ := by
  obtain ⟨pre, l, w₀, c, index, hpre, hl, -, hstop, hlast, -, hcalls⟩ := hret
  have hrun₁ : Run Step (start file demod) (pre ++ [l]) w₁ := hpre.snoc hl
  have hstop₁ : Begins (· ≠ .stopScanner) (pre ++ [l]) := by
    intro l' hl'
    rcases List.mem_append.mp hl' with hl' | hl'
    · exact hstop l' hl'
    · rw [List.mem_singleton.mp hl']
      rcases hlast with rfl | rfl <;> trivial
  have hkept : w₁.control.Kept fun h => w₁.control.Due h :=
    ⟨fun h hd => .inr (.inr hd), fun hpc => hscan (.inr (.inl hpc)),
      fun hpc => hscan (.inr (.inr hpc)), .inl hstands⟩
  have hsince : Control.Since w₁.control ls w₂.control :=
    control_history (fun _ _ _ _ hl hi hs => hi.step (fun hd => hscan (.inl hd)) hl hs) h hls
      ⟨sane_run hrun₁, (running_run hstop₁ hrun₁).1, hcalls, .inl ⟨rfl, hkept⟩⟩
  rcases hsince.phase with ⟨hnone, hkept₂⟩ | ⟨first, rest, hacts, hfirst, hrest, hkept₂⟩
  · refine ⟨fun first rest ha => ?_, fun hcr hor => ?_⟩
    · rw [hnone] at ha
      cases ha
    · have hquiet : ∀ h, ¬w₁.control.Due h := hor.resolve_left fun hne => hne hnone
      refine hkept₂.flag hcr fun hm => ?_
      rcases hkept₂.due _ hm with h | h | h
      · cases h
      · cases h
      · exact hquiet _ h
  · refine ⟨fun first' rest' ha => ?_, fun hcr _ => ?_⟩
    · rw [hacts] at ha
      cases ha
      exact ⟨hfirst, hrest⟩
    · refine hkept₂.flag hcr fun hm => ?_
      rcases hkept₂.due _ hm with h | h | h
      · cases h
      · cases h
      · exact h

end World

/-! ## A hold that is kept, and one that is lost -/

/-- A tuner at 100 MHz. -/
def tunedDemod : Demodulator :=
  .start { frequency := 100000000, sampleRate := 2048000, sdrThread := [] }

/-- A systems file with one FM channel. -/
def oneChannelFile : SystemsFile := (oneChannel 446006250).writeToFile

def silence (now : Int) : ScannerSM.Reading := { signal := false, now }

def traffic (now : Int) : ScannerSM.Reading := { signal := true, now }

/-- The database is loaded and client 0 has started a scan. -/
def scanStarted : List Label :=
  [.activate .ST_LOAD, .begin 0 .startScan, .lookup 0, .commit 0, .activate .ST_SCAN,
    .resume (silence 10000)]

/-- Client 1 asks for a hold, and no handler runs in between. -/
def promptHold : List Label :=
  [.begin 1 (.holdScan []), .storeFlag 1, .storeIndex 1, .lookup 1]

/-- Client 1 asks for a hold, and an `ST_Scan` runs between its stores and its
lookup. -/
def overrunHold : List Label :=
  [.begin 1 (.holdScan []), .storeFlag 1, .storeIndex 1, .activate .ST_SCAN,
    .resume (silence 10000), .lookup 1]

/-- A transmission starts and ends, and the delay of the entry runs out. -/
def transmission : List Label :=
  [.activate .ST_HOLD, .resume (traffic 10000), .resume (traffic 10000), .resume (traffic 10000),
    .activate .ST_RECEIVE, .resume (silence 10000), .activate .ST_HOLD, .resume (silence 12000),
    .resume (silence 12000), .resume (silence 12000)]

namespace World

theorem warm_scanStarted (ls : List Label) : Warm oneChannelFile tunedDemod (scanStarted ++ ls) :=
  ⟨scanStarted, ls, (start oneChannelFile tunedDemod).after scanStarted, rfl,
    run_after (by decide +kernel), by decide +kernel, by decide, by decide, .channel 0 0,
    by decide +kernel⟩

/-- Clients other than 0 and 1 take no part. -/
theorem inCalls_two {K : Call → Prop} {ls : List Label} {w : World}
    (h : Run Step (start oneChannelFile tunedDemod) ls w)
    (hls : ∀ l ∈ ls, l.client.all (· < 2) = true)
    (h₀ : (w.clients 0).call? = none) (h₁ : (w.clients 1).call? = none) :
    w.control.InCalls K := by
  intro c call hcall
  have hc : (w.clients c).call? = none := by
    match c with
    | 0 => exact h₀
    | 1 => exact h₁
    | c + 2 =>
      have hother : ∀ l ∈ ls, l.client ≠ some (c + 2) := by
        intro l hl he
        have hlt := hls l hl
        simp [he] at hlt
      rw [clients_run hother h]
      rfl
  change (w.clients c).call? = some call at hcall
  rw [hc] at hcall
  cases hcall

/-- The world after the steps `hold` of client 1 and its commit. -/
def afterHold (hold : List Label) : World :=
  ((start oneChannelFile tunedDemod).after (scanStarted ++ hold)).after [.commit 1]

theorem holdReturned {hold : List Label}
    (hexec : (exec (fun _ _ => True) (scanStarted ++ hold)
      (start oneChannelFile tunedDemod)).isSome = true)
    (hcommit : (exec (fun _ _ => True) [.commit 1]
      ((start oneChannelFile tunedDemod).after (scanStarted ++ hold))).isSome = true)
    (hcall : (((start oneChannelFile tunedDemod).after (scanStarted ++ hold)).clients 1).call? =
      some (.holdScan []))
    (hstop : Begins (· ≠ .stopScanner) (scanStarted ++ hold))
    (hclients : ∀ l ∈ scanStarted ++ hold ++ [.commit 1], l.client.all (· < 2) = true)
    (h₀ : ((afterHold hold).clients 0).call? = none)
    (h₁ : ((afterHold hold).clients 1).call? = none) :
    HoldReturned oneChannelFile tunedDemod (afterHold hold) := by
  have hpre := run_after hexec
  exact ⟨_, .commit 1, _, 1, [], hpre, step_after hcommit, warm_scanStarted hold, hstop, .inr rfl,
    hcall, inCalls_two (hpre.append (run_after hcommit)) hclients h₀ h₁⟩

/-- A `holdScan` during a scan, with no `ST_Scan` inside it. -/
theorem hold_kept_prompt : OnlyHolds (afterHold promptHold) transmission
    ((afterHold promptHold).after transmission) :=
  hold_kept
    (holdReturned (by decide +kernel) (by decide +kernel) (by decide +kernel) (by decide)
      (by decide) (by decide +kernel) (by decide +kernel))
    (by decide +kernel) (.inl (by decide +kernel)) (by decide) (run_after (by decide +kernel))

/-- **A lost hold**: with the flag gone, the machine scans when the delay of the
entry is over, although nobody has asked it to. -/
theorem hold_lost :
    ∃ (w₁ w₂ : World) (ls : List Label), HoldReturned oneChannelFile tunedDemod w₁ ∧
      Run Step w₁ ls w₂ ∧ Begins Call.IsHold ls ∧ ¬OnlyHolds w₁ ls w₂ := by
  have hret : HoldReturned oneChannelFile tunedDemod (afterHold overrunHold) :=
    holdReturned (by decide +kernel) (by decide +kernel) (by decide +kernel) (by decide)
      (by decide) (by decide +kernel) (by decide +kernel)
  have hrun : Run Step (afterHold overrunHold) (transmission ++ [.activate .ST_SCAN]) _ :=
    run_after (by decide +kernel)
  refine ⟨_, _, _, hret, hrun, by decide, fun honly => ?_⟩
  have hscan := (honly.handlers .ST_HOLD [.ST_RECEIVE, .ST_HOLD, .ST_SCAN] rfl).2 .ST_SCAN
  simp at hscan

end World

end PiScan.Machine

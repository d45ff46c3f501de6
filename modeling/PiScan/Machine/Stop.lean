import PiScan.Machine.Hold

/-!
# Is a stop final?

The tables lead from `ST_SAVEALL` and `ST_STOPPED` nowhere else, but a client that
has looked up its event before a stop may commit it after the stop, and then the
pending `ST_SaveAll` is replaced.

* `Stopping.step`: from the commit of a stop on, one step leads along
  `ST_SaveAll`, `ST_Stopped` and the end of the thread, if no client commits an
  event that its table no longer has (`StopKept`);
* `stop_final`: so does every such run, and the database is written at most once;
* `stop_ends`: and the thread can always go on to its end, where it has been written once;
* `stop_overruled`: a run in which a scan starts after the stop.
-/

namespace PiScan.Machine

open Scan Sigproc Runs

/-- With the step `l`, a client commits the event of `stopScanner`. -/
def World.StopCommit (w : World) : Label → Prop
  | .commit c => (w.clients c).call? = some .stopScanner
  | _ => False

instance (w : World) : DecidablePred w.StopCommit
  | .commit c => inferInstanceAs (Decidable ((w.clients c).call? = some .stopScanner))
  | .begin .. | .storeFlag _ | .storeIndex _ | .lookup _ | .ignore _ | .activate _ | .resume _ =>
    inferInstanceAs (Decidable False)

/-- What a step must meet for a stop to stay final: until the thread has ended, a
client that commits an event finds that its table does not ignore the call in the
current state, and `ST_SaveAll` finds a current entry if the hold flag is set. -/
def World.StopKept (w : World) : Label → Prop
  | .commit c => ∀ call ∈ (w.clients c).call?,
      w.pc = .ended ∨ call.transition w.sm.currentState ≠ none
  | .activate .ST_SAVEALL => w.sm.externalHold = true → w.sm.data.currentEntry.isSome = true
  | _ => True

instance (w : World) : DecidablePred w.StopKept
  | .commit c => inferInstanceAs (Decidable (∀ call ∈ (w.clients c).call?,
      w.pc = .ended ∨ call.transition w.sm.currentState ≠ none))
  | .activate .ST_SAVEALL => inferInstanceAs (Decidable
      (w.sm.externalHold = true → w.sm.data.currentEntry.isSome = true))
  | .begin .. | .storeFlag _ | .storeIndex _ | .lookup _ | .ignore _ | .resume _
  | .activate .ST_LOAD | .activate .ST_SCAN | .activate .ST_HOLD | .activate .ST_RECEIVE
  | .activate .ST_MANUAL | .activate .ST_STOPPED => inferInstanceAs (Decidable True)

/-- After the commit of a stop and the steps `ls`, the machine is about to save,
saving, about to stop, or at its end, and it has saved at most once. -/
inductive StopFinal (ls : List Label) (w : World) : Prop
  | due (ha : activations ls = []) (hdue : w.control.Due .ST_SAVEALL)
      (hsaves : w.sm.data.written.length = 0)
  | saving (ha : activations ls = [.ST_SAVEALL])
      (hpc : w.pc = .saveAll ∨ w.control.Due .ST_STOPPED) (hsaves : w.sm.data.written.length = 1)
  | ended (ha : activations ls = [.ST_SAVEALL, .ST_STOPPED]) (hpc : w.pc = .ended)
      (hsaves : w.sm.data.written.length = 1)

namespace Control

/-- The same for the control. -/
inductive Stopping (pre : List Label) (s : Control) : Prop
  | due (ha : activations pre = []) (hdue : s.Due .ST_SAVEALL) (hsaves : s.saves = 0)
  | saving (ha : activations pre = [.ST_SAVEALL]) (hpc : s.pc = .saveAll) (hsaves : s.saves = 1)
  | saved (ha : activations pre = [.ST_SAVEALL]) (hdue : s.Due .ST_STOPPED) (hsaves : s.saves = 1)
  | ended (ha : activations pre = [.ST_SAVEALL, .ST_STOPPED]) (hpc : s.pc = .ended)
      (hsaves : s.saves = 1)

/-- A step that starts no handler and leaves the mailbox, the thread and the
database alone. -/
theorem Stopping.frame {pre : List Label} {s s' : Control} {l : Label} (h : s.Stopping pre)
    (hl : l.activated = none) (hpc : s'.pc = s.pc) (hstate : s'.currentState = s.currentState)
    (hevent : s'.eventGenerated = s.eventGenerated) (hsaves : s'.saves = s.saves) :
    s'.Stopping (pre ++ [l]) := by
  have ha : activations (pre ++ [l]) = activations pre := activations_concat_of_none pre hl
  have hdue : ∀ {h : States}, s.Due h → s'.Due h := fun hd =>
    ⟨hpc.trans hd.1, hevent.trans hd.2.1, hstate.trans hd.2.2⟩
  cases h with
  | due hacts hd hs => exact .due (ha.trans hacts) (hdue hd) (hsaves.trans hs)
  | saving hacts hp hs => exact .saving (ha.trans hacts) (hpc.trans hp) (hsaves.trans hs)
  | saved hacts hd hs => exact .saved (ha.trans hacts) (hdue hd) (hsaves.trans hs)
  | ended hacts hp hs => exact .ended (ha.trans hacts) (hpc.trans hp) (hsaves.trans hs)

/-- A handler can only start when it is due, and there it is `ST_SaveAll` or
`ST_Stopped`. -/
theorem Stopping.of_due {pre : List Label} {s : Control} {h : States} (hs : s.Stopping pre)
    (hdue : s.Due h) : (h = .ST_SAVEALL ∧ activations pre = [] ∧ s.saves = 0) ∨
      (h = .ST_STOPPED ∧ activations pre = [.ST_SAVEALL] ∧ s.saves = 1) := by
  cases hs with
  | due ha hd hsaves => exact .inl ⟨hdue.2.2.symm.trans hd.2.2, ha, hsaves⟩
  | saving ha hp hsaves => exact absurd (hdue.1.symm.trans hp) nofun
  | saved ha hd hsaves => exact .inr ⟨hdue.2.2.symm.trans hd.2.2, ha, hsaves⟩
  | ended ha hp hsaves => exact absurd (hdue.1.symm.trans hp) nofun

/-- The thread is in no handler but `ST_SaveAll`. -/
theorem Stopping.pc {pre : List Label} {s : Control} (hs : s.Stopping pre) :
    s.pc = .idle ∨ s.pc = .saveAll ∨ s.pc = .ended := by
  cases hs with
  | due _ hd _ => exact .inl hd.1
  | saving _ hp _ => exact .inr (.inl hp)
  | saved _ hd _ => exact .inl hd.1
  | ended _ hp _ => exact .inr (.inr hp)

/-- A commit after a stop: only another stop is still in its table. -/
theorem Stopping.commit {pre : List Label} {s s' : Control} {c : Nat} {call : Call}
    (h : s.Stopping pre) (hu : s.pc.Unlocked)
    (hok : s.pc = .ended ∨ call.transition s.currentState ≠ none) (hpc : s'.pc = s.pc)
    (hevent : s'.eventGenerated = true) (hstate : s'.currentState = call.target)
    (hsaves' : s'.saves = s.saves) : s'.Stopping (pre ++ [.commit c]) := by
  have hacts : activations (pre ++ [.commit c]) = activations pre := by
    simp [activations, Label.activated]
  cases h with
  | due ha hd hsaves =>
    have hstop : call = .stopScanner := by
      rcases hok with he | hok
      · exact absurd (hd.1.symm.trans he) nofun
      · obtain ⟨next', hn⟩ := Option.ne_none_iff_exists'.mp hok
        exact (Call.transition_final (.inl hd.2.2) hn).1
    subst hstop
    exact .due (hacts.trans ha) ⟨hpc.trans hd.1, hevent, hstate⟩ (hsaves'.trans hsaves)
  | saving ha hp hsaves => rcases hu with hu | hu <;> exact absurd (hp.symm.trans hu) nofun
  | saved ha hd hsaves =>
    rcases hok with he | hok
    · exact absurd (hd.1.symm.trans he) nofun
    · obtain ⟨next', hn⟩ := Option.ne_none_iff_exists'.mp hok
      have hlast := (Call.transition_final (.inr hd.2.2) hn).2
      exact absurd (hd.2.2.symm.trans hlast) nofun
  | ended ha hp hsaves =>
    exact .ended (hacts.trans ha) (hpc.trans hp) (hsaves'.trans hsaves)

/-- No fault comes after a stop that finds an entry to save. -/
theorem Stopping.not_mayCrash {pre : List Label} {s : Control} {l : Label} (h : s.Stopping pre)
    (hsane : s.Sane)
    (hsave : l = .activate .ST_SAVEALL → s.externalHold = true → s.hasEntry = true)
    (hd : ∀ a, l = .activate a → s.Due a) : ¬s.MayCrash l := by
  intro hmay
  cases l with
  | activate a =>
    rcases h.of_due (hd a rfl) with ⟨rfl, -⟩ | ⟨rfl, -⟩
    · obtain ⟨hnone, hor⟩ := hmay
      have hentry : s.hasEntry = true := by
        rcases hor with hf | hm
        · exact hsave rfl hf
        · exact hsane.entry hm
      exact absurd (hnone.symm.trans hentry) nofun
    · exact hmay
  | resume r =>
    obtain ⟨hin, -, hns⟩ := hmay
    rcases h.pc with hpc | hpc | hpc
    · rw [hpc] at hin
      exact hin
    · exact hns hpc
    · rw [hpc] at hin
      exact hin
  | _ => exact hmay

/-- **One step after a stop.** -/
theorem Stopping.step {pre : List Label} {s s' : Control} {l : Label} (h : s.Stopping pre)
    (hsane : s.Sane)
    (hcommit : ∀ c call next, l = .commit c → s.clients c = .looked call next →
      s.pc = .ended ∨ call.transition s.currentState ≠ none)
    (hsave : l = .activate .ST_SAVEALL → s.externalHold = true → s.hasEntry = true)
    (hs : Step s l s') : s'.Stopping (pre ++ [l]) := by
  have hpc := h.pc
  cases hs with
  | begin hc => exact h.frame rfl rfl rfl rfl rfl
  | storeFlag hc => exact h.frame rfl rfl rfl rfl rfl
  | storeIndex hc => exact h.frame rfl rfl rfl rfl rfl
  | lookup hc => exact h.frame rfl rfl rfl rfl rfl
  | ignore hc => exact h.frame rfl rfl rfl rfl rfl
  | @commit c call next hc hu =>
    exact h.commit hu (hcommit c call _ rfl hc) rfl rfl (hsane.target hc) rfl
  | load hd => rcases h.of_due hd with ⟨h, -⟩ | ⟨h, -⟩ <;> cases h
  | scanEmpty hd => rcases h.of_due hd with ⟨h, -⟩ | ⟨h, -⟩ <;> cases h
  | scan hd => rcases h.of_due hd with ⟨h, -⟩ | ⟨h, -⟩ <;> cases h
  | hold hd he => rcases h.of_due hd with ⟨h, -⟩ | ⟨h, -⟩ <;> cases h
  | receive hd hcur => rcases h.of_due hd with ⟨h, -⟩ | ⟨h, -⟩ <;> cases h
  | manual hd => rcases h.of_due hd with ⟨h, -⟩ | ⟨h, -⟩ <;> cases h
  | saveAll hd =>
    rcases h.of_due hd with ⟨-, ha, hsaves⟩ | ⟨h, -⟩
    · exact .saving (by simp [ha, Label.activated]) rfl (by simp [hsaves])
    · cases h
  | stopped hd =>
    rcases h.of_due hd with ⟨h, -⟩ | ⟨-, ha, hsaves⟩
    · cases h
    · exact .ended (by simp [ha, Label.activated]) rfl hsaves
  | saveAllEnd hp =>
    cases h with
    | saving ha _ hsaves =>
      exact .saved (by simp [ha, Label.activated]) ⟨rfl, rfl, rfl⟩ hsaves
    | due _ hd _ => exact absurd (hd.1.symm.trans hp) nofun
    | saved _ hd _ => exact absurd (hd.1.symm.trans hp) nofun
    | ended _ hp' _ => exact absurd (hp'.symm.trans hp) nofun
  | crash hmay hd => exact absurd hmay (h.not_mayCrash hsane hsave hd)
  | scanEnd hp => rcases hpc with hpc | hpc | hpc <;> exact absurd (hpc.symm.trans hp) nofun
  | holdEntry hp => rcases hpc with hpc | hpc | hpc <;> exact absurd (hpc.symm.trans hp) nofun
  | holdDecision hp => rcases hpc with hpc | hpc | hpc <;> exact absurd (hpc.symm.trans hp) nofun
  | holdEvent hp => rcases hpc with hpc | hpc | hpc <;> exact absurd (hpc.symm.trans hp) nofun
  | holdQuiet hp => rcases hpc with hpc | hpc | hpc <;> exact absurd (hpc.symm.trans hp) nofun
  | receiveEnd hp => rcases hpc with hpc | hpc | hpc <;> exact absurd (hpc.symm.trans hp) nofun
  | manualEnd hp => rcases hpc with hpc | hpc | hpc <;> exact absurd (hpc.symm.trans hp) nofun

end Control

namespace World

/-- **Without a stop commit the machine goes on running.** -/
theorem running_before_stop {file : SystemsFile} {demod : Demodulator} {ls : List Label}
    {w : World} (h : Run (Guarded Step fun w l => ¬w.StopCommit l) (start file demod) ls w) :
    w.control.Running ∧ w.control.Sane := by
  refine h.invariant (I := fun w => w.control.Running ∧ w.control.Sane) ?_
    ⟨running_start file demod, sane_start file demod⟩
  rintro s l t ⟨hrun, hsane⟩ ⟨hs, hok⟩
  have hc := control_step hs
  refine ⟨hrun.step hsane ?_ hc, hsane.step hc⟩
  rintro c call next rfl hlooked rfl
  exact hok (by rw [StopCommit, show s.clients c = _ from hlooked]; rfl)

/-- The same step of the world. -/
theorem stopping_step {pre : List Label} {w w' : World} {l : Label}
    (h : w.control.Stopping pre) (hsane : w.control.Sane) (hs : Step w l w')
    (hok : w.StopKept l) : w'.control.Stopping (pre ++ [l]) ∧ w'.control.Sane := by
  have hcs := control_step hs
  refine ⟨h.step hsane ?_ ?_ hcs, hsane.step hcs⟩
  · rintro c call next rfl hclient
    exact hok call (by rw [show w.clients c = _ from hclient]; rfl)
  · rintro rfl hf
    exact hok hf

/-- The commit of the first stop leaves `ST_SaveAll` due. -/
theorem stopping_of_commit {file : SystemsFile} {demod : Demodulator} {pre : List Label}
    {w₀ w₁ : World} {l : Label}
    (hpre : Run (Guarded Step fun w l => ¬w.StopCommit l) (start file demod) pre w₀)
    (hstop : w₀.StopCommit l) (hl : Step w₀ l w₁) :
    w₁.control.Stopping [] ∧ w₁.control.Sane := by
  obtain ⟨hrun, hsane⟩ := running_before_stop hpre
  have hc := control_step hl
  refine ⟨?_, hsane.step hc⟩
  generalize w₁.control = s₁ at hc
  cases hc with
  | @commit c call next hclient hu =>
    have hcall : some call = some .stopScanner := by
      rw [← hstop, show w₀.clients c = _ from hclient]
      rfl
    have hnext := hsane.target hclient
    cases hcall
    subst hnext
    exact .due rfl ⟨hu.resolve_right hrun.pc_ended, rfl, rfl⟩ hrun.saves
  | crash hmay _ => cases l <;> first | exact hstop.elim | exact hmay.elim
  | _ => exact hstop.elim

theorem stopping_run {file : SystemsFile} {demod : Demodulator} {pre ls : List Label}
    {w₀ w₁ w₂ : World} {l : Label}
    (hpre : Run (Guarded Step fun w l => ¬w.StopCommit l) (start file demod) pre w₀)
    (hstop : w₀.StopCommit l) (hl : Step w₀ l w₁) (h : Run (Guarded Step StopKept) w₁ ls w₂) :
    w₂.control.Stopping ls ∧ w₂.control.Sane := by
  have hall := h.history (I := fun pre w => w.control.Stopping pre ∧ w.control.Sane)
    (P := fun _ => True) ?_ (fun _ _ => trivial) (stopping_of_commit hpre hstop hl)
  · simpa using hall
  · rintro pre s l t - ⟨hstopping, hs⟩ ⟨hstep, hok⟩
    exact stopping_step hstopping hs hstep hok

/-- **A stop is final** in every run after the first commit of a stop in which
each step meets `StopKept`. -/
theorem stop_final {file : SystemsFile} {demod : Demodulator} {pre ls : List Label}
    {w₀ w₁ w₂ : World} {l : Label}
    (hpre : Run (Guarded Step fun w l => ¬w.StopCommit l) (start file demod) pre w₀)
    (hstop : w₀.StopCommit l) (hl : Step w₀ l w₁) (h : Run (Guarded Step StopKept) w₁ ls w₂) :
    StopFinal ls w₂ := by
  cases (stopping_run hpre hstop hl h).1 with
  | due ha hd hsaves => exact .due ha hd hsaves
  | saving ha hp hsaves => exact .saving ha (.inl hp) hsaves
  | saved ha hd hsaves => exact .saving ha (.inr hd) hsaves
  | ended ha hp hsaves => exact .ended ha hp hsaves

/-! ## The way to the end -/

/-- The thread can start the handler that is due. -/
theorem exists_activate {w : World} {a : States} (hdue : w.control.Due a) :
    ∃ w', Step w (.activate a) w' := by
  obtain ⟨hpc, hevent, hstate⟩ := hdue
  refine ⟨w.outcome w.sm.stateEngine, ?_⟩
  rw [Step, step, show w.pc = .idle from hpc]
  exact if_pos ⟨hpc, hevent, hstate⟩

/-- `ST_SaveAll` raises `ST_STOPPED` at its end. -/
theorem exists_resume_saveAll {w : World} (hpc : w.pc = .saveAll) (r : ScannerSM.Reading) :
    ∃ w', Step w (.resume r) w' ∧ w'.control.Due .ST_STOPPED ∧
      w'.control.saves = w.control.saves := by
  refine ⟨{ w with pc := .idle, sm := w.sm.raise .ST_STOPPED }, ?_, ⟨rfl, rfl, rfl⟩, rfl⟩
  rw [Step, step, hpc, perform, hpc]
  exact if_pos trivial

/-- The steps of the thread from here on lead to its end. -/
def Ends (pre : List Label) (w : World) : Prop :=
  ∃ ls w', Run (Guarded Step StopKept) w ls w' ∧ (∀ l ∈ ls, l.client = none) ∧
    w'.pc = .ended ∧ w'.control.Stopping (pre ++ ls)

theorem Ends.before {pre : List Label} {w w' : World} {l : Label} (h : Ends (pre ++ [l]) w')
    (hs : Step w l w') (hok : w.StopKept l) (hl : l.client = none) : Ends pre w := by
  obtain ⟨ls, w'', hr, hls, hpc, hstopping⟩ := h
  refine ⟨l :: ls, w'', .cons ⟨hs, hok⟩ hr, ?_, hpc, ?_⟩
  · exact List.forall_mem_cons.mpr ⟨hl, hls⟩
  · rwa [List.append_assoc, List.singleton_append] at hstopping

theorem ends_of_ended {pre : List Label} {w : World} (h : w.control.Stopping pre)
    (hpc : w.pc = .ended) : Ends pre w :=
  ⟨[], w, .nil w, by simp, hpc, by rwa [List.append_nil]⟩

theorem ends_of_saved {pre : List Label} {w : World} (hsane : w.control.Sane)
    (ha : activations pre = [.ST_SAVEALL]) (hdue : w.control.Due .ST_STOPPED)
    (hsaves : w.control.saves = 1) : Ends pre w := by
  obtain ⟨w', hs⟩ := exists_activate hdue
  obtain ⟨hnext, -⟩ := stopping_step (.saved ha hdue hsaves) hsane hs trivial
  have hacts : activations (pre ++ [.activate .ST_STOPPED]) = [.ST_SAVEALL, .ST_STOPPED] := by
    simp [ha, Label.activated]
  refine (ends_of_ended hnext ?_).before hs trivial rfl
  cases hnext with
  | ended _ hpc _ => exact hpc
  | due ha' => cases hacts.symm.trans ha'
  | saving ha' => cases hacts.symm.trans ha'
  | saved ha' => cases hacts.symm.trans ha'

theorem ends_of_saving {pre : List Label} {w : World} (hsane : w.control.Sane)
    (ha : activations pre = [.ST_SAVEALL]) (hpc : w.pc = .saveAll)
    (hsaves : w.control.saves = 1) : Ends pre w := by
  obtain ⟨w', hs, hdue, hsame⟩ := exists_resume_saveAll hpc ⟨false, 0⟩
  obtain ⟨-, hsane'⟩ := stopping_step (.saving ha hpc hsaves) hsane hs trivial
  refine (ends_of_saved hsane' ?_ hdue (hsame.trans hsaves)).before hs trivial rfl
  rw [activations_concat_of_none pre rfl, ha]

theorem ends_of_due {pre : List Label} {w : World} (hsane : w.control.Sane)
    (ha : activations pre = []) (hdue : w.control.Due .ST_SAVEALL) (hsaves : w.control.saves = 0)
    (hsave : w.StopKept (.activate .ST_SAVEALL)) : Ends pre w := by
  obtain ⟨w', hs⟩ := exists_activate hdue
  obtain ⟨hnext, hsane'⟩ := stopping_step (.due ha hdue hsaves) hsane hs hsave
  have hacts : activations (pre ++ [.activate .ST_SAVEALL]) = [.ST_SAVEALL] := by
    simp [ha, Label.activated]
  refine Ends.before ?_ hs hsave rfl
  cases hnext with
  | saving _ hpc hsaves' => exact ends_of_saving hsane' hacts hpc hsaves'
  | saved _ hdue' hsaves' => exact ends_of_saved hsane' hacts hdue' hsaves'
  | due ha' => cases hacts.symm.trans ha'
  | ended ha' => cases hacts.symm.trans ha'

/-- **A stop comes to its end.**  From every state of such a run in which `ST_SaveAll` finds
what it needs, the thread's own steps lead through `ST_SaveAll` and `ST_Stopped` to the end,
and then each of them has run once. -/
theorem stop_ends {file : SystemsFile} {demod : Demodulator} {pre ls : List Label}
    {w₀ w₁ w₂ : World} {l : Label}
    (hpre : Run (Guarded Step fun w l => ¬w.StopCommit l) (start file demod) pre w₀)
    (hstop : w₀.StopCommit l) (hl : Step w₀ l w₁) (h : Run (Guarded Step StopKept) w₁ ls w₂)
    (hsave : w₂.StopKept (.activate .ST_SAVEALL)) :
    ∃ ls' w₃, Run (Guarded Step StopKept) w₂ ls' w₃ ∧ (∀ l ∈ ls', l.client = none) ∧
      w₃.pc = .ended ∧ activations (ls ++ ls') = [.ST_SAVEALL, .ST_STOPPED] ∧
      w₃.sm.data.written.length = 1 := by
  obtain ⟨hstopping, hsane⟩ := stopping_run hpre hstop hl h
  have hends : Ends ls w₂ := by
    cases hstopping with
    | due ha hdue hsaves => exact ends_of_due hsane ha hdue hsaves hsave
    | saving ha hpc hsaves => exact ends_of_saving hsane ha hpc hsaves
    | saved ha hdue hsaves => exact ends_of_saved hsane ha hdue hsaves
    | ended ha hpc hsaves => exact ends_of_ended (.ended ha hpc hsaves) hpc
  obtain ⟨ls', w₃, hr, hls, hpc, hfinal⟩ := hends
  refine ⟨ls', w₃, hr, hls, hpc, ?_⟩
  cases hfinal with
  | ended ha _ hsaves => exact ⟨ha, hsaves⟩
  | due _ hdue _ => exact absurd (hdue.1.symm.trans hpc) nofun
  | saving _ hpc' _ => exact absurd (hpc'.symm.trans hpc) nofun
  | saved _ hdue _ => exact absurd (hdue.1.symm.trans hpc) nofun

/-- Client 1 has looked up its stop. -/
def stopLooked : List Label := [.begin 1 .stopScanner, .lookup 1]

/-- The thread saves and ends. -/
def shutdown : List Label :=
  [.activate .ST_SAVEALL, .resume (silence 10000), .activate .ST_STOPPED]

/-- The world after the commit of that stop. -/
def stopCommitted (pre : List Label) : World :=
  ((start oneChannelFile tunedDemod).after pre).after [.commit 1]

theorem step_stopCommitted {pre : List Label}
    (h : (exec (fun _ _ => True) [.commit 1]
      ((start oneChannelFile tunedDemod).after pre)).isSome = true) :
    Step ((start oneChannelFile tunedDemod).after pre) (.commit 1) (stopCommitted pre) :=
  step_after h

/-- A stop during a scan. -/
theorem stop_final_scan : StopFinal shutdown
    ((stopCommitted (scanStarted ++ stopLooked)).after shutdown) :=
  have hpre : Run (Guarded Step fun w l => ¬w.StopCommit l) (start oneChannelFile tunedDemod)
      (scanStarted ++ stopLooked) _ := guarded_run_after (by decide +kernel)
  stop_final hpre (by decide +kernel) (step_stopCommitted (by decide +kernel))
    (guarded_run_after (by decide +kernel))

/-- Client 0 has looked up its scan, and client 1 its stop. -/
def scanLooked : List Label :=
  [.activate .ST_LOAD, .begin 0 .startScan, .lookup 0] ++ stopLooked

/-- **An overruled stop**: after the commit of the stop, client 0 commits the scan
that it has looked up before, and the machine scans. -/
theorem stop_overruled :
    ∃ (pre ls : List Label) (w₀ w₁ w₂ : World) (l : Label),
      Run (Guarded Step fun w l => ¬w.StopCommit l) (start oneChannelFile tunedDemod) pre w₀ ∧
        w₀.StopCommit l ∧ Step w₀ l w₁ ∧ Run Step w₁ ls w₂ ∧ ¬StopFinal ls w₂ := by
  refine ⟨scanLooked, [.commit 0, .activate .ST_SCAN], _, stopCommitted scanLooked, _, .commit 1,
    guarded_run_after (by decide +kernel), by decide +kernel, step_stopCommitted (by decide +kernel),
    run_after (by decide +kernel), fun hfinal => ?_⟩
  cases hfinal with
  | due ha => cases ha
  | saving ha => cases ha
  | ended ha => cases ha

end World

end PiScan.Machine

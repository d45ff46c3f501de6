import PiScan.Machine.Inventory

/-!
# Events between two activations

In an atomic run, a call begins only while no handler runs and no other call is
in progress, and no handler starts during a call.

* `Calm.step`: then a client always commits what its table has for the current
  state;
* `atomic_of_alone`: a run with a single client is atomic if its calls are made
  between handlers.
-/

namespace PiScan.Machine

open Runs

namespace World

/-- A call begins between two activations, with no other call in progress, and a
handler starts with no call in progress. -/
def Atomic (w : World) : Label → Prop
  | .begin _ _ => w.pc.Unlocked ∧ ∀ c, w.clients c = .ready
  | .activate _ => ∀ c, w.clients c = .ready
  | _ => True

/-- What atomic steps keep: at most one client is in a call, none while a handler
runs, and what it has looked up is up to date. -/
structure Calm (w : World) : Prop where
  inside : ¬w.pc.Unlocked → ∀ c, w.clients c = .ready
  alone : ∀ c c', w.clients c ≠ .ready → w.clients c' ≠ .ready → c = c'
  looked : ∀ c call next, w.clients c = .looked call next → next = call.transition w.sm.currentState

variable {w w' : World} {l : Label}

theorem calm_of_ready (h : ∀ c, w.clients c = .ready) : w.Calm :=
  ⟨fun _ => h, fun c _ hc => absurd (h c) hc, fun c _ _ hc => absurd ((h c).symm.trans hc) nofun⟩

/-- A step of the client `c`, which is the only one in a call. -/
theorem calm_client {c : Nat} (sm : ScannerSM) (hpc : w.pc.Unlocked)
    (halone : ∀ c', c' ≠ c → w.clients c' = .ready) {p : ClientPc}
    (hp : ∀ call next, p = .looked call next → next = call.transition sm.currentState) :
    ({ w with sm }.setClient c p).Calm := by
  have hother : ∀ c', c' ≠ c → Function.update w.clients c p c' = .ready := fun c' hc' => by
    rw [Function.update_of_ne hc']
    exact halone c' hc'
  refine ⟨fun hno => absurd hpc hno, fun c₁ c₂ h₁ h₂ => ?_, fun c' call next hc' => ?_⟩
  · have hc₁ : c₁ = c := by
      by_contra hne
      exact h₁ (hother c₁ hne)
    have hc₂ : c₂ = c := by
      by_contra hne
      exact h₂ (hother c₂ hne)
    exact hc₁.trans hc₂.symm
  · by_cases hcc : c' = c
    · subst hcc
      refine hp call next ?_
      simpa [setClient] using hc'
    · exact absurd ((hother c' hcc).symm.trans hc') nofun

/-- The client that takes a step is the only one in a call, between handlers. -/
theorem Calm.busy (h : w.Calm) {c : Nat} (hc : w.clients c ≠ .ready) :
    w.pc.Unlocked ∧ ∀ c', c' ≠ c → w.clients c' = .ready := by
  refine ⟨?_, fun c' hne => ?_⟩
  · by_contra hno
    exact hc (h.inside hno c)
  · by_contra hc'
    exact hne (h.alone c' c hc' hc)

/-- A step of a handler. -/
theorem Calm.handler (hready : ∀ c, w.clients c = .ready) (pc : Pc) (sm : ScannerSM) :
    (w.go pc sm).Calm := calm_of_ready hready

theorem Calm.step (h : w.Calm) (hs : Step w l w') (hok : w.Atomic l) : w'.Calm := by
  have hresume : ∀ {pc : Pc}, w.pc = pc → ¬pc.Unlocked → ∀ c, w.clients c = .ready := by
    rintro pc rfl hno
    exact h.inside hno
  cases moves_of_step hs with
  | @begin c call hc => exact calm_client w.sm hok.1 (fun c' _ => hok.2 c') nofun
  | @storeFlag c index hc =>
    obtain ⟨hpc, halone⟩ := h.busy (by rw [hc]; nofun)
    exact calm_client _ hpc halone nofun
  | @storeIndex c index hc =>
    obtain ⟨hpc, halone⟩ := h.busy (by rw [hc]; nofun)
    exact calm_client _ hpc halone nofun
  | @lookup c call hc =>
    obtain ⟨hpc, halone⟩ := h.busy (c := c) (by rintro hr; rw [hr] at hc; cases hc)
    refine calm_client w.sm hpc halone fun call' next he => ?_
    cases he
    rfl
  | @ignore c call hc =>
    obtain ⟨hpc, halone⟩ := h.busy (by rw [hc]; nofun)
    exact calm_client w.sm hpc halone nofun
  | @commit c call next hc hu =>
    obtain ⟨hpc, halone⟩ := h.busy (by rw [hc]; nofun)
    exact calm_client _ hpc halone nofun
  | load hdue hd => exact Calm.handler hok _ _
  | scanEmpty hdue hempty => exact Calm.handler hok _ _
  | scan hdue hsome hd => exact Calm.handler hok _ _
  | holdIndex hdue hflag hindex hd => exact Calm.handler hok _ _
  | hold hdue hno => exact Calm.handler hok _ _
  | receive hdue he hd => exact Calm.handler hok _ _
  | manual hdue hdata => exact Calm.handler hok _ _
  | saveAll hdue hd => exact Calm.handler hok _ _
  | stopped hdue => exact Calm.handler hok _ _
  | scanEnd hpc hd => exact Calm.handler (hresume hpc (by decide)) _ _
  | holdEntry hpc hd => exact Calm.handler (hresume hpc (by simp [Pc.Unlocked])) _ _
  | holdDecision hpc hd => exact Calm.handler (hresume hpc (by simp [Pc.Unlocked])) _ _
  | holdEvent hpc => exact Calm.handler (hresume hpc (by simp [Pc.Unlocked])) _ _
  | holdQuiet hpc => exact Calm.handler (hresume hpc (by simp [Pc.Unlocked])) _ _
  | receiveEnd hpc hd => exact Calm.handler (hresume hpc (by decide)) _ _
  | manualEnd hpc => exact Calm.handler (hresume hpc (by decide)) _ _
  | saveAllEnd hpc => exact Calm.handler (hresume hpc (by decide)) _ _
  | crash hfault =>
    rcases hfault with ⟨a, rfl, -⟩ | ⟨r, -, hpc, -⟩
    · exact calm_of_ready hok
    · refine calm_of_ready (h.inside fun hu => ?_)
      rcases hu with hu | hu <;> rw [hu] at hpc <;> exact hpc

theorem calm_start (file : Scan.SystemsFile) (demod : Sigproc.Demodulator) :
    (start file demod).Calm := calm_of_ready fun _ => rfl

/-- The calls are those of client 0, between the activations. -/
def Alone (w : World) : Label → Prop
  | .begin c _ => c = 0 ∧ w.pc.Unlocked ∧ w.clients 0 = .ready
  | .activate _ => w.clients 0 = .ready
  | .storeFlag c | .storeIndex c | .lookup c | .ignore c | .commit c => c = 0
  | .resume _ => True

instance (w : World) : DecidablePred w.Alone
  | .begin c _ => inferInstanceAs (Decidable (c = 0 ∧ w.pc.Unlocked ∧ w.clients 0 = .ready))
  | .activate _ => inferInstanceAs (Decidable (w.clients 0 = .ready))
  | .storeFlag c | .storeIndex c | .lookup c | .ignore c | .commit c =>
    inferInstanceAs (Decidable (c = 0))
  | .resume _ => inferInstanceAs (Decidable True)

/-- **A single client** makes its calls atomically. -/
theorem atomic_of_alone {Ok : World → Label → Prop} {ls : List Label}
    (h : Run (Guarded Step fun w l => w.Alone l ∧ Ok w l) w ls w')
    (hw : ∀ c, w.clients c = .ready) :
    Run (Guarded Step fun w l => w.Atomic l ∧ Ok w l) w ls w' := by
  refine h.mono_on (I := fun w => ∀ c, c ≠ 0 → w.clients c = .ready) ?_ fun c _ => hw c
  rintro s l t hi ⟨hs, halone, hok⟩
  have hready : s.clients 0 = .ready → ∀ c, s.clients c = .ready := fun h₀ c => by
    by_cases hc : c = 0
    · rw [hc]
      exact h₀
    · exact hi c hc
  have hatomic : s.Atomic l := by
    cases l with
    | begin c call => exact ⟨halone.2.1, hready halone.2.2⟩
    | activate a => exact hready halone
    | _ => trivial
  refine ⟨⟨hs, hatomic, hok⟩, fun c hc => ?_⟩
  have hclient : l.client ≠ some c := by
    intro he
    cases l with
    | begin c' call => exact hc ((Option.some.inj he).symm.trans halone.1)
    | activate a => cases he
    | resume r => cases he
    | _ => exact hc ((Option.some.inj he).symm.trans halone)
  exact ((control_step hs).clients hclient).trans (hi c hc)

end World

end PiScan.Machine

import PiScan.Lib.Run

/-!
# A value handed over by a flag

Callers raise a flag and then store a value.  A reader that finds the flag raised copies the
value and lowers the flag.  `Cell` is what they share, with the values of the calls that have
only raised the flag so far, and where the reader is.

* `Kept.step`: while no call overlaps the reader's two stores, the cell answers with the
  value stored last;
* `Taken.step`: the reader takes that value over, if the callers are quiet meanwhile;
* `Missed.step`: a call that overlaps them, with no other after it, is lost for good.
-/

namespace FlagCell

variable {α : Type*}

inductive Phase
  | away
  | test
  | copy
  | clear
  deriving DecidableEq, Repr

structure Cell (α : Type*) where
  current : α
  value : α
  raised : Bool
  calls : List α
  phase : Phase

inductive Act (α : Type*)
  | raise (a : α)
  | store (a : α)
  | arrive
  | test
  | copy
  | clear
  | other

namespace Cell

variable {c d : Cell α} {act : Act α} {a k v : α}

/-- What the cell answers from outside. -/
def read (c : Cell α) : α := if c.raised then c.value else c.current

inductive Step : Cell α → Act α → Cell α → Prop
  | raise (c : Cell α) (a : α) :
      Step c (.raise a) { c with raised := true, calls := c.calls ++ [a] }
  | store (c : Cell α) (a : α) (calls : List α) (h : c.calls.Perm (a :: calls)) :
      Step c (.store a) { c with value := a, calls := calls }
  | arrive (c : Cell α) (h : c.phase = .away) : Step c .arrive { c with phase := .test }
  | test (c : Cell α) (h : c.phase = .test) :
      Step c .test { c with phase := if c.raised then .copy else .away }
  | copy (c : Cell α) (h : c.phase = .copy) :
      Step c .copy { c with current := c.value, phase := .clear }
  | clear (c : Cell α) (h : c.phase = .clear) :
      Step c .clear { c with raised := false, phase := .away }
  | other (c : Cell α) : Step c .other c

/-- No call overlaps the reader's copying and lowering. -/
def Apart (c : Cell α) : Act α → Prop
  | .raise _ => c.phase ≠ .clear
  | .copy => c.calls = []
  | .store _ | .arrive | .test | .clear | .other => True

instance (c : Cell α) (act : Act α) : Decidable (c.Apart act) :=
  match act with
  | .raise _ => inferInstanceAs (Decidable (c.phase ≠ .clear))
  | .copy => inferInstanceAs (Decidable (c.calls = []))
  | .store _ | .arrive | .test | .clear | .other => isTrue trivial

structure Kept (c : Cell α) : Prop where
  calls : c.calls ≠ [] → c.raised = true ∧ c.phase ≠ .clear
  copied : c.raised = false ∨ c.phase = .clear → c.current = c.value

theorem Kept.read (h : c.Kept) : c.read = c.value := by
  unfold Cell.read
  split
  · rfl
  · next hlow => exact h.copied (.inl (Bool.eq_false_iff.mpr hlow))

theorem Kept.step (h : c.Kept) (hstep : Step c act d) (happart : c.Apart act) : d.Kept := by
  cases hstep with
  | raise a =>
    refine ⟨fun _ => ⟨rfl, happart⟩, ?_⟩
    rintro (hlow | hclear)
    · cases hlow
    · exact absurd hclear happart
  | store a calls hperm =>
    have hne : c.calls ≠ [] := by
      intro hnil
      rw [hnil] at hperm
      exact absurd hperm.length_eq (by simp)
    obtain ⟨hraised, hphase⟩ := h.calls hne
    refine ⟨fun _ => ⟨hraised, hphase⟩, ?_⟩
    rintro (hlow | hclear)
    · rw [show c.raised = false from hlow] at hraised
      cases hraised
    · exact absurd hclear hphase
  | arrive haway =>
    refine ⟨fun hne => ⟨(h.calls hne).1, by simp⟩, ?_⟩
    rintro (hlow | hclear)
    · exact h.copied (.inl hlow)
    · cases hclear
  | test htest =>
    have hphase : (if c.raised then Phase.copy else Phase.away) ≠ .clear := by
      split <;> simp
    refine ⟨fun hne => ⟨(h.calls hne).1, hphase⟩, ?_⟩
    rintro (hlow | hclear)
    · exact h.copied (.inl hlow)
    · exact absurd hclear hphase
  | copy hcopy => exact ⟨fun hne => absurd happart hne, fun _ => rfl⟩
  | clear hclear =>
    exact ⟨fun hne => absurd hclear (h.calls hne).2, fun _ => h.copied (.inr hclear)⟩
  | other => exact h

/-- The reader is about to take the value `v` over, or has done so. -/
structure Taken (v : α) (c : Cell α) : Prop where
  value : c.value = v
  current : c.phase = .clear ∨ c.raised = false → c.current = v
  away : c.phase = .away → c.current = v

theorem Kept.taken (h : c.Kept) (htest : c.phase = .test) : c.Taken c.value := by
  refine ⟨rfl, ?_, fun haway => by rw [htest] at haway; cases haway⟩
  rintro (hclear | hlow)
  · exact h.copied (.inr hclear)
  · exact h.copied (.inl hlow)

def Quiet : Act α → Prop
  | .raise _ | .store _ => False
  | .arrive | .test | .copy | .clear | .other => True

instance (act : Act α) : Decidable (Quiet act) :=
  match act with
  | .raise _ | .store _ => isFalse id
  | .arrive | .test | .copy | .clear | .other => isTrue trivial

theorem Taken.step (h : c.Taken v) (hstep : Step c act d) (hquiet : Quiet act) : d.Taken v := by
  cases hstep with
  | raise a => cases hquiet
  | store a calls hperm => cases hquiet
  | arrive haway =>
    exact ⟨h.value, fun _ => h.away haway, fun hp => by cases hp⟩
  | test htest =>
    refine ⟨h.value, ?_, ?_⟩
    · rintro (hclear | hlow)
      · simp only at hclear
        split at hclear <;> cases hclear
      · exact h.current (.inr hlow)
    · intro haway
      simp only at haway
      split at haway
      · cases haway
      · next hlow => exact h.current (.inr (Bool.eq_false_iff.mpr hlow))
  | copy hcopy => exact ⟨h.value, fun _ => h.value, fun _ => h.value⟩
  | clear hclear =>
    have hcurrent := h.current (.inl hclear)
    exact ⟨h.value, fun _ => hcurrent, fun _ => hcurrent⟩
  | other => exact h

/-- The reader has copied `k`, and lowers the flag or has lowered it, while a call that
stores `a` is under way. -/
structure Missed (k a : α) (c : Cell α) : Prop where
  current : c.current = k
  lowered : c.phase = .clear ∨ c.raised = false ∧ c.phase ≠ .copy
  calls : ∀ b ∈ c.calls, b = a
  stored : c.calls = [] → c.value = a

theorem Missed.step (h : c.Missed k a) (hstep : Step c act d) (hraise : ∀ b, act ≠ .raise b) :
    d.Missed k a := by
  cases hstep with
  | raise b => exact absurd rfl (hraise b)
  | store b calls hperm =>
    refine ⟨h.current, h.lowered, ?_, fun _ => h.calls b (hperm.mem_iff.mpr (by simp))⟩
    intro b' hb'
    exact h.calls b' (hperm.mem_iff.mpr (List.mem_cons_of_mem _ hb'))
  | arrive haway =>
    rcases h.lowered with hclear | ⟨hlow, -⟩
    · rw [haway] at hclear
      cases hclear
    · exact ⟨h.current, .inr ⟨hlow, by simp⟩, h.calls, h.stored⟩
  | test htest =>
    rcases h.lowered with hclear | ⟨hlow, -⟩
    · rw [htest] at hclear
      cases hclear
    · exact ⟨h.current, .inr ⟨hlow, by simp [hlow]⟩, h.calls, h.stored⟩
  | copy hcopy =>
    rcases h.lowered with hclear | ⟨-, hne⟩
    · rw [hcopy] at hclear
      cases hclear
    · exact absurd hcopy hne
  | clear hclear => exact ⟨h.current, .inr ⟨rfl, by simp⟩, h.calls, h.stored⟩
  | other => exact h

/-- Once the call is over and the flag down, the cell answers with the value of before. -/
theorem Missed.read (h : c.Missed k a) (hcalls : c.calls = []) (hphase : c.phase ≠ .clear) :
    c.value = a ∧ c.read = k := by
  obtain ⟨hlow, -⟩ := h.lowered.resolve_left hphase
  refine ⟨h.stored hcalls, ?_⟩
  unfold Cell.read
  rw [hlow]
  exact h.current

end Cell

end FlagCell

import PiScan.Cubic.DemodulatorPreThread

/-!
# Handing a modem over

A modem and its kit pass from the worker to the thread and with the blocks on to the
demodulator thread, which deletes the ones that they replace, while the others go on with
theirs.

* `Line`: the pointers that the threads hold, the older ones in front;
* `Worker.build_ok`, `Chain.demodulate`: the two steps that change what is alive;
* `Sound.fine`: no step fails, and each keeps the invariant;
* `hands_over`: so no run follows a pointer to what is deleted, and every block was
  resampled to the rate of its kit.
-/

namespace PiScan.Cubic.DemodulatorPreThread

open Runs TwosComplement SDRPostThread

variable {F : Type}

/-! ## What pointers rely on -/

/-- A pointer to a modem with one to a kit. -/
def hand : Option Nat → Option Nat → List (Nat × Nat)
  | some m, some k => [(m, k)]
  | _, _ => []

namespace Heap

/-- Nothing is forgotten but that an object may be deleted. -/
structure Extends (h h' : Heap) : Prop where
  modems : h.modems.length ≤ h'.modems.length
  kits : ∀ (k : Nat) (kit : ModemKit), h.kits[k]? = some kit →
    ∃ kit' : ModemKit, h'.kits[k]? = some kit' ∧ kit'.modem = kit.modem ∧
      kit'.sampleRate = kit.sampleRate

/-- Nothing was deleted on the way. -/
structure Keeps (h h' : Heap) : Prop where
  modems : ∀ (m : Nat) (modem : Modem), h'.modems[m]? = some modem → modem.deleted = true →
    h.modems[m]? = some modem
  kits : ∀ (k : Nat) (kit : ModemKit), h'.kits[k]? = some kit → kit.deleted = true →
    h.kits[k]? = some kit

/-- The kit was built by the modem. -/
def Matched (h : Heap) (p : Nat × Nat) : Prop :=
  p.1 < h.modems.length ∧ ∃ kit : ModemKit, h.kits[p.2]? = some kit ∧ kit.modem = p.1

def Rated (h : Heap) (k : Option Nat) (sampleRate : Nat) : Prop :=
  ∃ (i : Nat) (kit : ModemKit), k = some i ∧ h.kits[i]? = some kit ∧ kit.sampleRate = sampleRate

/-- The objects of `p` are not deleted. -/
def Alive (h : Heap) (p : Nat × Nat) : Prop :=
  ∃ modem kit, h.modem (some p.1) = .ok modem ∧ h.kit (some p.2) = .ok kit ∧ kit.modem = p.1

variable {h h' h'' : Heap} {p : Nat × Nat}

theorem Extends.refl (h : Heap) : h.Extends h :=
  ⟨Nat.le_refl _, fun _ kit hk => ⟨kit, hk, rfl, rfl⟩⟩

theorem Extends.trans (hext : h.Extends h') (hext' : h'.Extends h'') : h.Extends h'' := by
  refine ⟨hext.modems.trans hext'.modems, ?_⟩
  intro k kit hk
  obtain ⟨kit', hk', hm', hr'⟩ := hext.kits k kit hk
  obtain ⟨kit'', hk'', hm'', hr''⟩ := hext'.kits k kit' hk'
  exact ⟨kit'', hk'', hm''.trans hm', hr''.trans hr'⟩

theorem Matched.mono (hp : h.Matched p) (hext : h.Extends h') : h'.Matched p := by
  obtain ⟨hm, kit, hk, hkm⟩ := hp
  obtain ⟨kit', hk', hm', -⟩ := hext.kits p.2 kit hk
  exact ⟨hm.trans_le hext.modems, kit', hk', hm'.trans hkm⟩

theorem Matched.kit_lt (hp : h.Matched p) : p.2 < h.kits.length := by
  obtain ⟨-, kit, hk, -⟩ := hp
  exact (List.getElem?_eq_some_iff.mp hk).1

theorem Rated.mono {k : Option Nat} {r : Nat} (hr : h.Rated k r) (hext : h.Extends h') :
    h'.Rated k r := by
  obtain ⟨i, kit, hi, hk, hkr⟩ := hr
  obtain ⟨kit', hk', -, hr'⟩ := hext.kits i kit hk
  exact ⟨i, kit', hi, hk', hr'.trans hkr⟩

theorem extends_makeModem (h : Heap) (modem : Modem) :
    h.Extends { h with modems := h.modems ++ [modem] } :=
  ⟨by simp, fun _ kit hk => ⟨kit, hk, rfl, rfl⟩⟩

theorem extends_buildKit (h : Heap) (kit : ModemKit) :
    h.Extends { h with kits := h.kits ++ [kit] } := by
  refine ⟨Nat.le_refl _, ?_⟩
  intro k kit' hk
  refine ⟨kit', ?_, rfl, rfl⟩
  rw [List.getElem?_append_left (List.getElem?_eq_some_iff.mp hk).1]
  exact hk

theorem Keeps.refl (h : Heap) : h.Keeps h := ⟨fun _ _ hm _ => hm, fun _ _ hk _ => hk⟩

theorem Keeps.trans (hkeep : h.Keeps h') (hkeep' : h'.Keeps h'') : h.Keeps h'' :=
  ⟨fun m modem hm hd => hkeep.modems m modem (hkeep'.modems m modem hm hd) hd,
    fun k kit hk hd => hkeep.kits k kit (hkeep'.kits k kit hk hd) hd⟩

theorem keeps_makeModem (h : Heap) (name : DemodType) :
    h.Keeps { h with modems := h.modems ++ [⟨name, false⟩] } := by
  refine ⟨?_, fun _ _ hk _ => hk⟩
  intro m modem hm hd
  rcases Nat.lt_or_ge m h.modems.length with hlt | hge
  · rwa [List.getElem?_append_left hlt] at hm
  · rw [List.getElem?_append_right hge, List.getElem?_singleton] at hm
    split at hm
    · cases hm
      cases hd
    · cases hm

theorem keeps_buildKit (h : Heap) (m sampleRate audioSampleRate : Nat) :
    h.Keeps { h with kits := h.kits ++ [⟨m, sampleRate, audioSampleRate, false⟩] } := by
  refine ⟨fun _ _ hm _ => hm, ?_⟩
  intro k kit hk hd
  rcases Nat.lt_or_ge k h.kits.length with hlt | hge
  · rwa [List.getElem?_append_left hlt] at hk
  · rw [List.getElem?_append_right hge, List.getElem?_singleton] at hk
    split at hk
    · cases hk
      cases hd
    · cases hk

theorem extends_deleteModem (h : Heap) (m : Nat) (modem : Modem) :
    h.Extends { h with modems := h.modems.set m modem } :=
  ⟨by simp, fun _ kit hk => ⟨kit, hk, rfl, rfl⟩⟩

theorem extends_disposeKit {k : Nat} {kit : ModemKit} (hk : h.kits[k]? = some kit) :
    h.Extends { h with kits := h.kits.set k { kit with deleted := true } } := by
  refine ⟨Nat.le_refl _, ?_⟩
  intro i kit' hi
  by_cases hik : k = i
  · subst hik
    obtain rfl : kit = kit' := Option.some.inj (hk.symm.trans hi)
    refine ⟨{ kit with deleted := true }, ?_, rfl, rfl⟩
    exact List.getElem?_set_self (List.getElem?_eq_some_iff.mp hk).1
  · exact ⟨kit', by rw [List.getElem?_set_ne hik]; exact hi, rfl, rfl⟩

theorem modem_ok {m : Nat} {modem : Modem} (hm : h.modems[m]? = some modem)
    (hd : modem.deleted = false) : h.modem (some m) = .ok modem := by
  simp only [Heap.modem, hm, hd, Bool.false_eq_true, if_false]

theorem kit_ok {k : Nat} {kit : ModemKit} (hk : h.kits[k]? = some kit)
    (hd : kit.deleted = false) : h.kit (some k) = .ok kit := by
  simp only [Heap.kit, hk, hd, Bool.false_eq_true, if_false]

end Heap

/-! ## The line -/

/-- Pointers held one behind the other, the older ones in front. -/
structure Line (h : Heap) (l : List (Nat × Nat)) : Prop where
  ordered : l.Pairwise fun p q => p.1 ≤ q.1 ∧ p.2 ≤ q.2
  matched : ∀ p ∈ l, h.Matched p

namespace Line

variable {h h' : Heap} {l l' : List (Nat × Nat)} {p : Nat × Nat}

theorem sublist (hl : Line h l) (hs : l'.Sublist l) : Line h l' :=
  ⟨hl.ordered.sublist hs, fun p hp => hl.matched p (hs.subset hp)⟩

theorem mono (hl : Line h l) (hext : h.Extends h') : Line h' l :=
  ⟨hl.ordered, fun p hp => (hl.matched p hp).mono hext⟩

/-- A pointer is copied by the next in line. -/
theorem copy (hl : Line h (l ++ p :: l')) : Line h (l ++ p :: p :: l') := by
  obtain ⟨hord, hmat⟩ := hl
  rw [List.pairwise_append, List.pairwise_cons] at hord
  obtain ⟨hleft, ⟨hp, hright⟩, hcross⟩ := hord
  constructor
  · rw [List.pairwise_append, List.pairwise_cons, List.pairwise_cons]
    refine ⟨hleft, ⟨?_, hp, hright⟩, ?_⟩
    · intro q hq
      rcases List.mem_cons.mp hq with rfl | hq
      · exact ⟨Nat.le_refl _, Nat.le_refl _⟩
      · exact hp q hq
    · intro q hq r hr
      rcases List.mem_cons.mp hr with rfl | hr
      · exact hcross q hq r (by simp)
      · exact hcross q hq r hr
  · intro q hq
    apply hmat q
    simp only [List.mem_append, List.mem_cons] at hq ⊢
    tauto

/-- A new pointer comes last. -/
theorem snoc (hl : Line h l) (hp : h.Matched p) (hlast : ∀ q ∈ l, q.1 ≤ p.1 ∧ q.2 ≤ p.2) :
    Line h (l ++ [p]) := by
  constructor
  · rw [List.pairwise_append]
    refine ⟨hl.ordered, List.pairwise_singleton _ _, ?_⟩
    intro q hq r hr
    rw [List.mem_singleton.mp hr]
    exact hlast q hq
  · intro q hq
    rcases List.mem_append.mp hq with hq | hq
    · exact hl.matched q hq
    · rw [List.mem_singleton.mp hq]
      exact hp

end Line

/-- What was deleted is older than what the demodulator thread holds. -/
structure Spares (h : Heap) (front : List (Nat × Nat)) : Prop where
  modems : ∀ (m : Nat) (modem : Modem), h.modems[m]? = some modem → modem.deleted = true →
    ∃ p ∈ front, m < p.1
  kits : ∀ (k : Nat) (kit : ModemKit), h.kits[k]? = some kit → kit.deleted = true →
    ∃ p ∈ front, k < p.2

theorem Spares.mono {h h' : Heap} {front : List (Nat × Nat)} (hs : Spares h front)
    (hkeep : h.Keeps h') : Spares h' front :=
  ⟨fun m modem hm hd => hs.modems m modem (hkeep.modems m modem hm hd) hd,
    fun k kit hk hd => hs.kits k kit (hkeep.kits k kit hk hd) hd⟩

/-- So everything in line can be used. -/
theorem Line.alive {h : Heap} {front l : List (Nat × Nat)} (hl : Line h (front ++ l))
    (hspare : Spares h front) (hfront : ∀ p ∈ front, ∀ q ∈ front, p = q) {p : Nat × Nat}
    (hp : p ∈ front ++ l) : h.Alive p := by
  have hle : ∀ q ∈ front, q.1 ≤ p.1 ∧ q.2 ≤ p.2 := by
    intro q hq
    rcases List.mem_append.mp hp with hin | hin
    · rw [hfront q hq p hin]
      exact ⟨Nat.le_refl _, Nat.le_refl _⟩
    · exact (List.pairwise_append.mp hl.ordered).2.2 q hq p hin
  obtain ⟨hm, kit, hk, hkm⟩ := hl.matched p hp
  have hmodem : h.modems[p.1]? = some h.modems[p.1] := List.getElem?_eq_getElem hm
  refine ⟨h.modems[p.1], kit, Heap.modem_ok hmodem ?_, Heap.kit_ok hk ?_, hkm⟩
  · rw [← Bool.not_eq_true]
    intro hd
    obtain ⟨q, hq, hlt⟩ := hspare.modems _ _ hmodem hd
    exact absurd (hle q hq).1 (Nat.not_le_of_lt hlt)
  · rw [← Bool.not_eq_true]
    intro hd
    obtain ⟨q, hq, hlt⟩ := hspare.kits _ _ hk hd
    exact absurd (hle q hq).2 (Nat.not_le_of_lt hlt)

/-! ## The threads in line -/

/-- The pointers behind those of the demodulator thread: in the blocks on their way to it,
in the thread, in the results on their way there and in the worker. -/
def behind (posts : List (PostIQData F)) (pre : Option Nat × Option Nat) (results : List Result)
    (w : Option Nat × Option Nat) : List (Nat × Nat) :=
  posts.flatMap (fun p => hand p.modem p.modemKit) ++ (hand pre.1 pre.2 ++
    (results.flatMap (fun r => hand r.modem r.modemKit) ++ hand w.1 w.2))

/-- All of them have a modem and a kit or neither, and the worker's are the newest. -/
structure Chain (h : Heap) (d : DemodulatorThread) (posts : List (PostIQData F))
    (pre : Option Nat × Option Nat) (results : List Result) (w : Option Nat × Option Nat) :
    Prop where
  line : Line h (hand d.cModem d.cModemKit ++ behind posts pre results w)
  spares : Spares h (hand d.cModem d.cModemKit)
  demodulator : d.cModem.isSome = d.cModemKit.isSome
  thread : pre.1.isSome = pre.2.isSome
  worker : w.1.isSome = w.2.isSome
  onPosts : ∀ p ∈ posts, p.modem.isSome ∧ p.modemKit.isSome
  onResults : ∀ r ∈ results, r.modem.isSome ∧ r.modemKit.isSome
  first : w.1 = none → hand d.cModem d.cModemKit ++ behind posts pre results w = []

theorem hand_unique {m k : Option Nat} : ∀ p ∈ hand m k, ∀ q ∈ hand m k, p = q := by
  intro p hp q hq
  cases m with
  | none => cases hp
  | some m =>
    cases k with
    | none => cases hp
    | some k => rw [List.mem_singleton.mp hp, List.mem_singleton.mp hq]

theorem hand_of_isSome {m k : Option Nat} (hm : m.isSome) (hk : k.isSome) :
    ∃ i j, m = some i ∧ k = some j ∧ hand m k = [(i, j)] := by
  obtain ⟨i, rfl⟩ := Option.isSome_iff_exists.mp hm
  obtain ⟨j, rfl⟩ := Option.isSome_iff_exists.mp hk
  exact ⟨i, j, rfl, rfl, rfl⟩

namespace Chain

variable {h h' : Heap} {d : DemodulatorThread} {posts : List (PostIQData F)}
  {pre w : Option Nat × Option Nat} {results : List Result}

theorem alive (hc : Chain h d posts pre results w) {p : Nat × Nat}
    (hp : p ∈ hand d.cModem d.cModemKit ++ behind posts pre results w) : h.Alive p :=
  hc.line.alive hc.spares hand_unique hp

/-- Fewer pointers behind the demodulator thread. -/
theorem fewer (hc : Chain h d posts pre results w) {posts' : List (PostIQData F)}
    {pre' : Option Nat × Option Nat} {results' : List Result}
    (hs : (behind posts' pre' results' w).Sublist (behind posts pre results w))
    (hthread : pre'.1.isSome = pre'.2.isSome)
    (hposts : ∀ p ∈ posts', p.modem.isSome ∧ p.modemKit.isSome)
    (hresults : ∀ r ∈ results', r.modem.isSome ∧ r.modemKit.isSome) :
    Chain h d posts' pre' results' w := by
  have hsub := (List.Sublist.refl (hand d.cModem d.cModemKit)).append hs
  refine ⟨hc.line.sublist hsub, hc.spares, hc.demodulator, hthread, hc.worker, hposts, hresults, ?_⟩
  intro hw
  have hnil := hc.first hw
  rw [hnil] at hsub
  exact List.sublist_nil.mp hsub

/-- The thread has asked for another modem. -/
theorem forget (hc : Chain h d posts pre results w) :
    Chain h d posts (none, none) results w := by
  refine hc.fewer ?_ rfl hc.onPosts hc.onResults
  exact (List.Sublist.refl _).append (List.sublist_append_right _ _)

/-- The thread has taken a result. -/
theorem take {r : Result} (hc : Chain h d posts pre (r :: results) w) :
    Chain h d posts (r.modem, r.modemKit) results w := by
  obtain ⟨hm, hk⟩ := hc.onResults r (by simp)
  refine hc.fewer ?_ (hm.trans hk.symm) hc.onPosts fun r' hr' => hc.onResults r' (by simp [hr'])
  simp only [behind, List.flatMap_cons, List.append_assoc]
  exact (List.Sublist.refl _).append (List.sublist_append_right _ _)

/-- The demodulator thread has skipped a block. -/
theorem skip {p : PostIQData F} (hc : Chain h d (p :: posts) pre results w) :
    Chain h d posts pre results w := by
  refine hc.fewer ?_ hc.thread (fun q hq => hc.onPosts q (by simp [hq])) hc.onResults
  simp only [behind, List.flatMap_cons, List.append_assoc]
  exact List.sublist_append_right _ _

/-- The thread has made a block for its modem. -/
theorem send {p : PostIQData F} (hc : Chain h d posts pre results w) (hm : pre.1.isSome)
    (hpm : p.modem = pre.1) (hpk : p.modemKit = pre.2) :
    Chain h d (posts ++ [p]) pre results w := by
  have hk : pre.2.isSome := hc.thread ▸ hm
  obtain ⟨i, j, hi, hj, hhand⟩ := hand_of_isSome hm hk
  have hbefore : behind posts pre results w = posts.flatMap (fun p => hand p.modem p.modemKit) ++
      (i, j) :: (results.flatMap (fun r => hand r.modem r.modemKit) ++ hand w.1 w.2) := by
    rw [behind, hhand]
    rfl
  have hafter : behind (posts ++ [p]) pre results w =
      posts.flatMap (fun p => hand p.modem p.modemKit) ++ (i, j) :: (i, j) ::
        (results.flatMap (fun r => hand r.modem r.modemKit) ++ hand w.1 w.2) := by
    rw [behind, hhand]
    simp only [List.flatMap_append, List.flatMap_cons, List.flatMap_nil, hpm, hpk, hhand,
      List.append_assoc, List.singleton_append]
  refine ⟨?_, hc.spares, hc.demodulator, hc.thread, hc.worker, ?_, hc.onResults, ?_⟩
  · have hline := hc.line
    rw [hbefore, ← List.append_assoc] at hline
    rw [hafter, ← List.append_assoc]
    exact hline.copy
  · intro q hq
    rcases List.mem_append.mp hq with hq | hq
    · exact hc.onPosts q hq
    · rw [List.mem_singleton.mp hq, hpm, hpk]
      exact ⟨hm, hk⟩
  · intro hw
    have hnil := hc.first hw
    rw [hbefore] at hnil
    simp at hnil

/-- The worker has a newer modem or kit, and answers with it. -/
theorem renew {r : Result} {m k : Nat} (hc : Chain h d posts pre results w)
    (hext : h.Extends h') (hspares : Spares h' (hand d.cModem d.cModemKit))
    (hmat : h'.Matched (m, k)) (hrm : r.modem = some m) (hrk : r.modemKit = some k)
    (hlast : ∀ q ∈ hand d.cModem d.cModemKit ++ behind posts pre results w, q.1 ≤ m ∧ q.2 ≤ k) :
    Chain h' d posts pre (results ++ [r]) (some m, some k) := by
  have hafter : behind posts pre (results ++ [r]) (some m, some k) =
      behind posts pre results (none, none) ++ [(m, k), (m, k)] := by
    simp only [behind, List.flatMap_append, List.flatMap_cons, List.flatMap_nil, hrm, hrk, hand,
      List.append_assoc, List.nil_append, List.cons_append, List.append_nil]
  have hsub : (hand d.cModem d.cModemKit ++ behind posts pre results (none, none)).Sublist
      (hand d.cModem d.cModemKit ++ behind posts pre results w) := by
    refine (List.Sublist.refl _).append ?_
    exact (List.Sublist.refl _).append ((List.Sublist.refl _).append
      ((List.Sublist.refl _).append (List.nil_sublist _)))
  refine ⟨?_, hspares, hc.demodulator, hc.thread, rfl, hc.onPosts, ?_, ?_⟩
  · rw [hafter, ← List.append_assoc]
    have hold := (hc.line.sublist hsub).mono hext
    have hone := hold.snoc hmat fun q hq => hlast q (hsub.subset hq)
    exact hone.copy
  · intro r' hr'
    rcases List.mem_append.mp hr' with hr' | hr'
    · exact hc.onResults r' hr'
    · rw [List.mem_singleton.mp hr', hrm, hrk]
      exact ⟨rfl, rfl⟩
  · intro hw
    cases hw

end Chain

/-! ## What the worker makes -/

/-- A command for a modem or a kit that can be made. -/
structure Command.Good (c : Command) : Prop where
  sampleRate : c.sampleRate ≠ 0
  bandwidth : c.bandwidth ≠ 0
  audioSampleRate : c.audioSampleRate ≠ 0
  typed : c.cmd = .MAKE_DEMOD → c.demodType.isSome

def Batch.commands (batch : Batch) : List Command :=
  batch.filterCommand.toList ++ batch.demodCommand.toList

/-- The commands of a batch are of their kinds. -/
structure Batch.Sorted (batch : Batch) : Prop where
  filter : ∀ c, batch.filterCommand = some c → c.cmd = .BUILD_FILTERS
  demod : ∀ c, batch.demodCommand = some c → c.cmd = .MAKE_DEMOD

/-- The result is a modem with a kit of its own, and a resampler to the kit's rate. -/
structure Built (h : Heap) (r : Result) : Prop where
  sampleRate : r.sampleRate ≠ 0
  bandwidth : r.bandwidth ≠ 0
  rated : h.Rated r.modemKit r.bandwidth
  iqResampler : r.iqResampler = some (r.bandwidth, r.sampleRate)

/-- The block was resampled from its own rate to that of its kit. -/
structure Resampled (h : Heap) (p : PostIQData F) : Prop where
  rated : h.Rated p.modemKit p.sampleRate
  resampler : p.resampler = (p.sampleRate, p.inp.sampleRate)

theorem Built.mono {h h' : Heap} {r : Result} (hr : Built h r) (hext : h.Extends h') : Built h' r :=
  ⟨hr.sampleRate, hr.bandwidth, hr.rated.mono hext, hr.iqResampler⟩

theorem Resampled.mono {h h' : Heap} {p : PostIQData F} (hp : Resampled h p)
    (hext : h.Extends h') : Resampled h' p :=
  ⟨hp.rated.mono hext, hp.resampler⟩

theorem checkSampleRate_ne_zero (name : DemodType) {bandwidth audioSampleRate : Nat}
    (hb : bandwidth ≠ 0) (ha : audioSampleRate ≠ 0) :
    name.checkSampleRate bandwidth audioSampleRate ≠ 0 := by
  cases name with
  | IQ => exact ha
  | _ =>
    simp only [DemodType.checkSampleRate, MIN_BANDWIDTH]
    grind

/-- The second check of the bandwidth changes nothing. -/
theorem checkSampleRate_idem (name : DemodType) (bandwidth audioSampleRate : Nat) :
    name.checkSampleRate (name.checkSampleRate bandwidth audioSampleRate) audioSampleRate =
      name.checkSampleRate bandwidth audioSampleRate := by
  cases name with
  | IQ => rfl
  | _ =>
    simp only [DemodType.checkSampleRate, MIN_BANDWIDTH]
    grind

namespace Batch

variable {batch : Batch} {command : Command}

theorem mem_commands {c : Command} :
    c ∈ batch.commands ↔ batch.filterCommand = some c ∨ batch.demodCommand = some c := by
  simp only [commands, List.mem_append, Option.mem_toList]

theorem leading_cases (h : batch.leading = some command) :
    batch.demodCommand = some command ∨
      (batch.demodCommand = none ∧ batch.filterCommand = some command) := by
  unfold leading at h
  cases hd : batch.demodCommand with
  | none =>
    rw [hd] at h
    exact .inr ⟨rfl, h⟩
  | some c =>
    rw [hd] at h
    exact .inl h

theorem leading_mem (h : batch.leading = some command) : command ∈ batch.commands := by
  rw [mem_commands]
  rcases leading_cases h with hd | ⟨-, hf⟩
  · exact .inr hd
  · exact .inl hf

/-- With good commands the kit is for the leading one. -/
theorem wanted_eq (hgood : ∀ c ∈ batch.commands, c.Good) :
    ((batch.demodCommand.filter fun c => c.bandwidth ≠ 0 ∧ c.audioSampleRate ≠ 0) <|>
      batch.filterCommand.filter fun c => c.bandwidth ≠ 0 ∧ c.audioSampleRate ≠ 0) =
        batch.leading := by
  have hself : ∀ o : Option Command, (∀ c, o = some c → c.Good) →
      (o.filter fun c => c.bandwidth ≠ 0 ∧ c.audioSampleRate ≠ 0) = o := by
    intro o ho
    cases o with
    | none => rfl
    | some c =>
      rw [Option.filter_some, if_pos]
      exact decide_eq_true ⟨(ho c rfl).bandwidth, (ho c rfl).audioSampleRate⟩
  rw [hself _ fun c hc => hgood c (mem_commands.mpr (.inr hc)),
    hself _ fun c hc => hgood c (mem_commands.mpr (.inl hc))]
  rfl

end Batch

namespace Worker

variable {w : Worker} {h : Heap} {batch : Batch} {command : Command}

/-- The modem is a new one, or the last. -/
theorem makeDemod_ok (hlead : batch.leading = some command)
    (hgood : ∀ c ∈ batch.commands, c.Good) (hsorted : batch.Sorted)
    (hold : command.cmd = .BUILD_FILTERS →
      ∃ m modem, w.cModem = some m ∧ h.modem (some m) = .ok modem) :
    ∃ (h' : Heap) (w' : Worker) (m : Nat) (modem : Modem),
      w.makeDemod h batch = .ok (h', w') ∧ w'.cModem = some m ∧ h'.modem (some m) = .ok modem ∧
      h'.kits = h.kits ∧ h.Extends h' ∧ h.Keeps h' ∧ m < h'.modems.length ∧
      (h.modems.length ≤ m ∨ w.cModem = some m) := by
  rcases Batch.leading_cases hlead with hd | ⟨hd, hf⟩
  · have htyped := (hgood command (Batch.mem_commands.mpr (.inr hd))).typed (hsorted.demod _ hd)
    obtain ⟨name, hname⟩ := Option.isSome_iff_exists.mp htyped
    refine ⟨{ h with modems := h.modems ++ [⟨name, false⟩] },
      { w with cModem := some h.modems.length, cModemName := some name }, h.modems.length,
      ⟨name, false⟩, ?_, rfl, ?_, rfl, h.extends_makeModem _, h.keeps_makeModem name, by simp,
      .inl (Nat.le_refl _)⟩
    · unfold makeDemod
      rw [hd]
      simp only [hname, Heap.makeModem]
      rfl
    · exact Heap.modem_ok (by simp) rfl
  · obtain ⟨m, modem, hm, hmodem⟩ := hold (hsorted.filter _ hf)
    refine ⟨h, w, m, modem, ?_, hm, hmodem, rfl, .refl h, .refl h, ?_, .inr hm⟩
    · unfold makeDemod
      rw [hd]
    · simp only [Heap.modem] at hmodem
      split at hmodem
      · cases hmodem
      · next hget => exact (List.getElem?_eq_some_iff.mp hget).1

/-- **The answer to a batch**: a modem that is new or the last one, with a new kit. -/
theorem build_ok (hlead : batch.leading = some command)
    (hgood : ∀ c ∈ batch.commands, c.Good) (hsorted : batch.Sorted)
    (hold : command.cmd = .BUILD_FILTERS →
      ∃ m modem, w.cModem = some m ∧ h.modem (some m) = .ok modem) :
    ∃ (h' : Heap) (w' : Worker) (r : Result) (m : Nat),
      w.build h batch command = .ok (h', w') ∧ w'.step = .push r ∧ w'.cModem = some m ∧
      w'.cModemKit = some h.kits.length ∧ r.modem = some m ∧ r.modemKit = some h.kits.length ∧
      Built h' r ∧ h.Extends h' ∧ h.Keeps h' ∧ h'.Matched (m, h.kits.length) ∧
      (h.modems.length ≤ m ∨ w.cModem = some m) := by
  obtain ⟨h₁, w₁, m, modem, hmake, hm, hmodem, hkits, hext, hkeep, hlt, hnew⟩ :=
    makeDemod_ok hlead hgood hsorted hold
  have hc := hgood command (Batch.leading_mem hlead)
  obtain ⟨bandwidth, hbw⟩ : ∃ b, modem.name.checkSampleRate command.bandwidth
    command.audioSampleRate = b := ⟨_, rfl⟩
  have hbw0 : bandwidth ≠ 0 := hbw ▸ checkSampleRate_ne_zero _ hc.bandwidth hc.audioSampleRate
  have hidem : modem.name.checkSampleRate bandwidth command.audioSampleRate = bandwidth := by
    rw [← hbw]
    exact checkSampleRate_idem _ _ _
  have hget : (h₁.buildKit m bandwidth command.audioSampleRate).1.kits[h.kits.length]? =
      some ⟨m, bandwidth, command.audioSampleRate, false⟩ := by
    rw [← hkits]
    simp [Heap.buildKit]
  have hmodem₂ : (h₁.buildKit m bandwidth command.audioSampleRate).1.modem (some m) = .ok modem :=
    hmodem
  refine ⟨(h₁.buildKit m bandwidth command.audioSampleRate).1,
    { w₁ with
      cModemKit := some h.kits.length
      step := .push ⟨command.sampleRate, bandwidth, some m, some h.kits.length, w₁.cModemName,
        some (bandwidth, command.sampleRate)⟩ },
    ⟨command.sampleRate, bandwidth, some m, some h.kits.length, w₁.cModemName,
      some (bandwidth, command.sampleRate)⟩, m, ?_, rfl, hm, rfl, rfl, rfl, ?_,
    hext.trans (h₁.extends_buildKit _), hkeep.trans (h₁.keeps_buildKit ..), ?_, hnew⟩
  · have hkit : w₁.makeKit h₁ batch = .ok ((h₁.buildKit m bandwidth command.audioSampleRate).1,
        { w₁ with cModemKit := some h.kits.length }, bandwidth) := by
      unfold makeKit
      simp only [Batch.wanted_eq hgood, hlead, hm, hmodem, hbw, bind, Except.bind]
      rw [← hkits]
      rfl
    have hres : ({ w₁ with cModemKit := some h.kits.length } : Worker).makeResampler
        (h₁.buildKit m bandwidth command.audioSampleRate).1 command command.sampleRate bandwidth =
          .ok (bandwidth, some (bandwidth, command.sampleRate)) := by
      unfold makeResampler
      simp only [hm, hmodem₂, bind, Except.bind, if_pos (And.intro hc.sampleRate hbw0), hidem]
    unfold build
    simp only [hmake, hkit, hres, bind, Except.bind]
    rw [← hm]
  · exact ⟨hc.sampleRate, hbw0, ⟨h.kits.length, _, rfl, hget, rfl⟩, rfl⟩
  · exact ⟨hlt, _, hget, rfl⟩

end Worker

/-! ## What the demodulator thread takes over -/

namespace DemodulatorThread

variable {d : DemodulatorThread} {h : Heap} {inp : PostIQData F} {m k : Nat}

/-- The thread holds nothing, or a modem with its kit. -/
def Holds (d : DemodulatorThread) (h : Heap) : Prop :=
  (d.cModem = none ∧ d.cModemKit = none) ∨
    ∃ p : Nat × Nat, d.cModem = some p.1 ∧ d.cModemKit = some p.2 ∧ h.Alive p

theorem takeKit_ok (hd : d.Holds h) (hk : inp.modemKit = some k) :
    ∃ h' : Heap, d.takeKit h inp = .ok (h', { d with cModemKit := some k }) ∧ h.Extends h' ∧
      h'.modems = h.modems ∧
      ∀ (i : Nat) (kit : ModemKit), h'.kits[i]? = some kit → kit.deleted = true →
        h.kits[i]? = some kit ∨ (d.cModemKit = some i ∧ i ≠ k) := by
  by_cases hsame : d.cModemKit = some k
  · refine ⟨h, ?_, .refl h, rfl, fun _ _ hi _ => .inl hi⟩
    unfold takeKit
    rw [if_neg (by rw [hk, hsame]; simp), ← hsame]
  rcases hd with ⟨hm0, hk0⟩ | ⟨p, hm0, hk0, modem, kit, hmodem, hkit, hmatch⟩
  · refine ⟨h, ?_, .refl h, rfl, fun _ _ hi _ => .inl hi⟩
    unfold takeKit
    rw [if_pos (by rw [hk, hk0]; simp), hk0, hk]
    rfl
  · have hget : h.kits[p.2]? = some kit := by
      simp only [Heap.kit] at hkit
      split at hkit
      · cases hkit
      · next hsome =>
        split at hkit
        · cases hkit
        · cases hkit
          exact hsome
    refine ⟨{ h with kits := h.kits.set p.2 { kit with deleted := true } }, ?_,
      Heap.extends_disposeKit hget, rfl, ?_⟩
    · unfold takeKit
      rw [if_pos ⟨by rw [hk]; rfl, by rw [hk]; exact fun he => hsame he.symm⟩, hk0, hk]
      simp only [Heap.disposeKit, hm0, hmodem, hkit, bind, Except.bind, hmatch, if_true]
    · intro i kit' hi hdel
      by_cases hik : p.2 = i
      · refine .inr ⟨hik ▸ hk0, ?_⟩
        intro he
        exact hsame (by rw [hk0, hik, he])
      · rw [List.getElem?_set_ne hik] at hi
        exact .inl hi

theorem takeModem_ok (hm : inp.modem = some m)
    (hd : d.cModem = none ∨ ∃ (m' : Nat) (modem : Modem), d.cModem = some m' ∧
      h.modem (some m') = .ok modem) :
    ∃ h' : Heap, d.takeModem h inp = .ok (h', { d with cModem := some m }) ∧ h.Extends h' ∧
      h'.kits = h.kits ∧
      ∀ (i : Nat) (modem : Modem), h'.modems[i]? = some modem → modem.deleted = true →
        h.modems[i]? = some modem ∨ (d.cModem = some i ∧ i ≠ m) := by
  by_cases hsame : d.cModem = some m
  · refine ⟨h, ?_, .refl h, rfl, fun _ _ hi _ => .inl hi⟩
    unfold takeModem
    rw [if_neg (by rw [hm, hsame]; simp), ← hsame]
  rcases hd with hm0 | ⟨m', modem, hm0, hmodem⟩
  · refine ⟨h, ?_, .refl h, rfl, fun _ _ hi _ => .inl hi⟩
    unfold takeModem
    rw [if_pos (by rw [hm, hm0]; simp), hm0, hm]
    rfl
  · refine ⟨{ h with modems := h.modems.set m' { modem with deleted := true } }, ?_,
      h.extends_deleteModem _ _, rfl, ?_⟩
    · unfold takeModem
      rw [if_pos ⟨by rw [hm]; rfl, by rw [hm]; exact fun he => hsame he.symm⟩, hm0, hm]
      simp only [Heap.deleteModem, hmodem, bind, Except.bind]
    · intro i modem' hi hdel
      by_cases him : m' = i
      · refine .inr ⟨him ▸ hm0, ?_⟩
        intro he
        exact hsame (by rw [hm0, him, he])
      · rw [List.getElem?_set_ne him] at hi
        exact .inl hi

end DemodulatorThread

theorem Chain.holds {h : Heap} {d : DemodulatorThread} {posts : List (PostIQData F)}
    {pre w : Option Nat × Option Nat} {results : List Result}
    (hc : Chain h d posts pre results w) : d.Holds h := by
  cases hm : d.cModem with
  | none =>
    refine .inl ⟨hm, ?_⟩
    have hiff := hc.demodulator
    rw [hm] at hiff
    exact Option.isNone_iff_eq_none.mp (by simpa using hiff.symm)
  | some m =>
    have hiff := hc.demodulator
    rw [hm] at hiff
    obtain ⟨k, hk⟩ := Option.isSome_iff_exists.mp hiff.symm
    refine .inr ⟨(m, k), hm, hk, hc.alive ?_⟩
    rw [hm, hk]
    exact List.mem_append_left _ (List.mem_singleton_self _)

/-- **A block is demodulated** by its own modem with the kit that this modem built; what it
replaces is deleted. -/
theorem Chain.demodulate {h : Heap} {d : DemodulatorThread} {inp : PostIQData F}
    {posts : List (PostIQData F)} {pre w : Option Nat × Option Nat} {results : List Result}
    (hc : Chain h d (inp :: posts) pre results w) :
    ∃ (h' : Heap) (d' : DemodulatorThread), d.demodulate h inp = .ok (h', d') ∧
      Chain h' d' posts pre results w ∧ h.Extends h' := by
  unfold DemodulatorThread.demodulate
  by_cases hsize : inp.size = 0
  · rw [if_pos hsize]
    exact ⟨h, d, rfl, hc.skip, .refl h⟩
  rw [if_neg hsize]
  obtain ⟨him, hik⟩ := hc.onPosts inp (by simp)
  obtain ⟨m, k, hm, hk, hhand⟩ := hand_of_isSome him hik
  obtain ⟨h₁, htake, hext₁, hmodems₁, hdel₁⟩ := DemodulatorThread.takeKit_ok hc.holds hk
  have hd₁ : ({ d with cModemKit := some k } : DemodulatorThread).cModem = none ∨
      ∃ (m' : Nat) (modem : Modem), d.cModem = some m' ∧ h₁.modem (some m') = .ok modem := by
    rcases hc.holds with ⟨hnone, -⟩ | ⟨p, hp, -, modem, -, hmodem, -⟩
    · exact .inl hnone
    · refine .inr ⟨p.1, modem, hp, ?_⟩
      simp only [Heap.modem, hmodems₁]
      exact hmodem
  obtain ⟨h₂, htake', hext₂, hkits₂, hdel₂⟩ := DemodulatorThread.takeModem_ok hm hd₁
  have hbehind : behind (inp :: posts) pre results w = (m, k) :: behind posts pre results w := by
    simp only [behind, List.flatMap_cons, hhand, List.cons_append, List.nil_append]
  have hline := hc.line
  rw [hbehind] at hline
  -- everything deleted is older than the new front
  have hfront : ∀ p ∈ hand d.cModem d.cModemKit, p.1 ≤ m ∧ p.2 ≤ k := fun p hp =>
    (List.pairwise_append.mp hline.ordered).2.2 p hp (m, k) (by simp)
  have hheld : ∀ i j, d.cModem = some i → d.cModemKit = some j → i ≤ m ∧ j ≤ k := by
    intro i j hi hj
    exact hfront (i, j) (by rw [hi, hj]; exact List.mem_singleton_self _)
  have hspares : Spares h₂ [(m, k)] := by
    constructor
    · intro i modem hi hdel
      refine ⟨(m, k), List.mem_singleton_self _, ?_⟩
      rcases hdel₂ i modem hi hdel with hold | ⟨hcur, hne⟩
      · rw [hmodems₁] at hold
        obtain ⟨p, hp, hlt⟩ := hc.spares.modems i modem hold hdel
        exact hlt.trans_le (hfront p hp).1
      · obtain ⟨j, hj⟩ : ∃ j, d.cModemKit = some j :=
          Option.isSome_iff_exists.mp (by rw [← hc.demodulator, hcur]; rfl)
        exact lt_of_le_of_ne (hheld i j hcur hj).1 hne
    · intro i kit hi hdel
      refine ⟨(m, k), List.mem_singleton_self _, ?_⟩
      rw [hkits₂] at hi
      rcases hdel₁ i kit hi hdel with hold | ⟨hcur, hne⟩
      · obtain ⟨p, hp, hlt⟩ := hc.spares.kits i kit hold hdel
        exact hlt.trans_le (hfront p hp).2
      · obtain ⟨j, hj⟩ : ∃ j, d.cModem = some j :=
          Option.isSome_iff_exists.mp (by rw [hc.demodulator, hcur]; rfl)
        exact lt_of_le_of_ne (hheld j i hj hcur).2 hne
  have hline₂ : Line h₂ ([(m, k)] ++ behind posts pre results w) :=
    (hline.sublist (List.sublist_append_right _ _)).mono (hext₁.trans hext₂)
  have hchain : Chain h₂ ⟨some m, some k⟩ posts pre results w := by
    refine ⟨hline₂, hspares, rfl, hc.thread, hc.worker, fun q hq => hc.onPosts q (by simp [hq]),
      hc.onResults, ?_⟩
    intro hw
    have hnil := hc.first hw
    rw [hbehind] at hnil
    simp at hnil
  obtain ⟨modem, kit, hmodem, hkit, hmatch⟩ := hchain.alive (p := (m, k)) (by simp [hand])
  refine ⟨h₂, ⟨some m, some k⟩, ?_, hchain, hext₁.trans hext₂⟩
  simp only [htake, htake', bind, Except.bind, Option.isSome_some, and_self, if_true,
    Heap.callModem, hmodem, hkit, hmatch]

/-! ## The invariant -/

def PreStep.posts : PreStep F → List (PostIQData F)
  | .pushPost _ resamp => [resamp]
  | _ => []

def PreStep.commands : PreStep F → List Command
  | .push _ c => [c]
  | _ => []

def WorkStep.results : WorkStep → List Result
  | .push result => [result]
  | _ => []

def WorkStep.batch : WorkStep → Batch
  | .pop batch | .empty batch | .build batch => batch
  | .push _ => ⟨none, none⟩

def Call.Positive : Call → Prop
  | .setDemodType _ | .setFrequency _ => True
  | .setSampleRate n | .setBandwidth n | .setAudioSampleRate n => n ≠ 0

/-- No caller asks for a rate or a bandwidth of zero. -/
def Label.Positive : Label F → Prop
  | .call c => c.Positive
  | _ => True

instance (c : Call) : Decidable c.Positive :=
  match c with
  | .setDemodType _ | .setFrequency _ => isTrue trivial
  | .setSampleRate n | .setBandwidth n | .setAudioSampleRate n =>
    inferInstanceAs (Decidable (n ≠ 0))

instance (l : Label F) : Decidable l.Positive :=
  match l with
  | .call c => inferInstanceAs (Decidable c.Positive)
  | .finish _ | .block _ | .rates _ _ _ | .resample _ | .pre | .work | .demodulate =>
    isTrue trivial

namespace State

def posts (s : State F) : List (PostIQData F) := s.iqOutputQueue ++ s.step.posts

def results (s : State F) : List Result := s.workerResults ++ s.worker.step.results

def commands (s : State F) : List Command :=
  s.workerQueue ++ (s.step.commands ++ s.worker.step.batch.commands)

/-- What the callers have asked for can be built, when a command is due. -/
structure Asked (s : State F) : Prop where
  typed : (s.demodTypeChanged = true ∨ (∃ name, .setDemodType name ∈ s.pending) ∨
    ∃ inp, s.step = .command inp .MAKE_DEMOD) → s.newDemodType.isSome
  pending : ∀ c ∈ s.pending, c.Positive
  due : ∀ inp cmd, s.step = .command inp cmd → s.settled = true ∧
    (cmd = .BUILD_FILTERS → s.worker.cModem.isSome)

/-- Where no command is due, the types are known for what has been asked. -/
theorem Asked.typed_of_ne {s : State F} {step : PreStep F} (h : s.Asked)
    (hne : ∀ inp, step ≠ .command inp .MAKE_DEMOD) :
    (s.demodTypeChanged = true ∨ (∃ name, .setDemodType name ∈ s.pending) ∨
      ∃ inp, step = .command inp .MAKE_DEMOD) → s.newDemodType.isSome := by
  rintro (hd | hpend | ⟨inp, hs⟩)
  · exact h.typed (.inl hd)
  · exact h.typed (.inr (.inl hpend))
  · exact absurd hs (hne inp)

structure Sound (s : State F) : Prop where
  chain : Chain s.heap s.demodulator s.posts (s.cModem, s.cModemKit) s.results
    (s.worker.cModem, s.worker.cModemKit)
  resampled : ∀ p ∈ s.posts, Resampled s.heap p
  built : ∀ r ∈ s.results, Built s.heap r
  current : s.cModem.isSome → s.heap.Rated s.cModemKit s.currentBandwidth ∧
    s.iqResampler = some (s.currentBandwidth, s.currentSampleRate)
  good : ∀ c ∈ s.commands, c.Good ∧ (c.cmd = .BUILD_FILTERS → s.worker.cModem.isSome)
  sorted : s.worker.step.batch.Sorted
  asked : s.Asked

/-- If the step can be taken, it does not fail and keeps the invariant. -/
def Fine (r : Option (Except Fault (State F))) : Prop :=
  ∀ e, r = some e → ∃ t : State F, e = .ok t ∧ t.Sound

variable {s t : State F} {inp : DemodulatorThreadIQData F}

theorem fine_none : Fine (none : Option (Except Fault (State F))) := fun _ he => by cases he

theorem fine_ok {t : State F} (h : t.Sound) : Fine (some (.ok t)) := by
  intro e he
  exact ⟨t, (Option.some.inj he).symm, h⟩

theorem sound_start : (start : State F).Sound where
  chain :=
    { line := ⟨List.Pairwise.nil, fun _ hp => by cases hp⟩
      spares := ⟨fun _ _ hm => by simp [start] at hm, fun _ _ hk => by simp [start] at hk⟩
      demodulator := rfl
      thread := rfl
      worker := rfl
      onPosts := fun _ hp => by cases hp
      onResults := fun _ hr => by cases hr
      first := fun _ => rfl }
  resampled _ hp := by cases hp
  built _ hr := by cases hr
  current h := by cases h
  good _ hc := by cases hc
  sorted := ⟨fun _ hc => (by cases hc), fun _ hc => (by cases hc)⟩
  asked :=
    { typed := by
        rintro (h | ⟨_, h⟩ | ⟨_, h⟩)
        · cases h
        · cases h
        · cases h
      pending := fun _ hc => by cases hc
      due := fun _ _ h => by cases h }

/-! ### Callers -/

theorem Sound.begin (h : s.Sound) {c : Call} (hc : c.Positive) : (s.begin c).Sound := by
  have hpend : ∀ c' ∈ s.pending ++ [c], c'.Positive := by
    intro c' hc'
    rcases List.mem_append.mp hc' with hc' | hc'
    · exact h.asked.pending c' hc'
    · rw [List.mem_singleton.mp hc']
      exact hc
  cases c with
  | setDemodType demodType => exact { h with asked := ⟨fun _ => rfl, hpend, h.asked.due⟩ }
  | _ =>
    refine { h with asked := ⟨?_, hpend, h.asked.due⟩ }
    rintro (hd | ⟨name, hmem⟩ | hstep)
    · exact h.asked.typed (.inl hd)
    · refine h.asked.typed (.inr (.inl ⟨name, ?_⟩))
      rcases List.mem_append.mp hmem with hmem | hmem
      · exact hmem
      · cases List.mem_singleton.mp hmem
    · exact h.asked.typed (.inr (.inr hstep))

theorem settled_iff : s.settled = true ↔
    s.newSampleRate ≠ 0 ∧ s.newAudioSampleRate ≠ 0 ∧ s.newBandwidth ≠ 0 := by
  simp only [settled, Bool.and_eq_true, bne_iff_ne, and_assoc]

theorem Sound.finish (h : s.Sound) {i : Nat} {c : Call} (hc : s.pending[i]? = some c) :
    (s.finish i c).Sound := by
  have hmem : c ∈ s.pending := List.mem_of_getElem? hc
  have hpos := h.asked.pending c hmem
  have hpend : ∀ c' ∈ s.pending.eraseIdx i, c'.Positive := fun c' hc' =>
    h.asked.pending c' (List.mem_of_mem_eraseIdx hc')
  have htyped : (s.demodTypeChanged = true ∨ (∃ name, .setDemodType name ∈ s.pending.eraseIdx i) ∨
      ∃ inp, s.step = .command inp .MAKE_DEMOD) → s.newDemodType.isSome := by
    rintro (hd | ⟨name, hin⟩ | hstep)
    · exact h.asked.typed (.inl hd)
    · exact h.asked.typed (.inr (.inl ⟨name, List.mem_of_mem_eraseIdx hin⟩))
    · exact h.asked.typed (.inr (.inr hstep))
  cases c with
  | setDemodType demodType =>
    refine { h with asked := ⟨fun _ => ?_, hpend, h.asked.due⟩ }
    exact h.asked.typed (.inr (.inl ⟨demodType, hmem⟩))
  | setFrequency freq => exact { h with asked := ⟨htyped, hpend, h.asked.due⟩ }
  | setSampleRate n =>
    refine { h with asked := ⟨htyped, hpend, fun inp cmd hstep => ?_⟩ }
    obtain ⟨hset, hw⟩ := h.asked.due inp cmd hstep
    rw [settled_iff] at hset
    exact ⟨settled_iff.mpr ⟨hpos, hset.2⟩, hw⟩
  | setBandwidth n =>
    refine { h with asked := ⟨htyped, hpend, fun inp cmd hstep => ?_⟩ }
    obtain ⟨hset, hw⟩ := h.asked.due inp cmd hstep
    rw [settled_iff] at hset
    exact ⟨settled_iff.mpr ⟨hset.1, hset.2.1, hpos⟩, hw⟩
  | setAudioSampleRate n =>
    refine { h with asked := ⟨htyped, hpend, fun inp cmd hstep => ?_⟩ }
    obtain ⟨hset, hw⟩ := h.asked.due inp cmd hstep
    rw [settled_iff] at hset
    exact ⟨settled_iff.mpr ⟨hset.1, hpos, hset.2.2⟩, hw⟩

/-! ### The thread -/

/-- The thread goes on to a step that holds the same blocks, and commands that are good. -/
theorem Sound.goto (h : s.Sound) {step : PreStep F} (hposts : step.posts = s.step.posts)
    (hgood : ∀ c ∈ step.commands, c.Good ∧ (c.cmd = .BUILD_FILTERS → s.worker.cModem.isSome))
    (hdue : ∀ inp cmd, step = .command inp cmd → s.settled = true ∧
      (cmd = .BUILD_FILTERS → s.worker.cModem.isSome) ∧
      (cmd = .MAKE_DEMOD → s.newDemodType.isSome)) : (s.goto step).Sound := by
  have heq : (s.goto step).posts = s.posts := congrArg (s.iqOutputQueue ++ ·) hposts
  refine { h with chain := ?_, resampled := ?_, good := ?_, asked := ⟨?_, h.asked.pending, ?_⟩ }
  · rw [heq]
    exact h.chain
  · rw [heq]
    exact h.resampled
  · intro c hc
    rcases List.mem_append.mp hc with hc | hc
    · exact h.good c (List.mem_append_left _ hc)
    · rcases List.mem_append.mp hc with hc | hc
      · exact hgood c hc
      · exact h.good c (List.mem_append_right _ (List.mem_append_right _ hc))
  · rintro (hd | hpend | ⟨inp, hstep⟩)
    · exact h.asked.typed (.inl hd)
    · exact h.asked.typed (.inr (.inl hpend))
    · exact (hdue inp _ hstep).2.2 rfl
  · intro inp cmd hstep
    exact ⟨(hdue inp cmd hstep).1, (hdue inp cmd hstep).2.1⟩

theorem Sound.withFrequency (h : s.Sound) (currentFrequency : Int) (changed : Bool) :
    ({ s with currentFrequency := currentFrequency, frequencyChanged := changed } :
      State F).Sound :=
  { h with asked := ⟨h.asked.typed, h.asked.pending, h.asked.due⟩ }

theorem Sound.withShift (h : s.Sound) (shiftFrequency : Int) (freqShifter : Option (Nat × Nat)) :
    ({ s with shiftFrequency := shiftFrequency, freqShifter := freqShifter } : State F).Sound :=
  { h with asked := ⟨h.asked.typed, h.asked.pending, h.asked.due⟩ }

theorem Sound.withUndrained (h : s.Sound) (n : Nat) :
    ({ s with undrained := n } : State F).Sound :=
  { h with asked := ⟨h.asked.typed, h.asked.pending, h.asked.due⟩ }

/-- While no command is due, the rates may be anything. -/
theorem Sound.withRates (h : s.Sound) (hstep : ∀ inp cmd, s.step ≠ .command inp cmd)
    (a c : Nat) (b d : Bool) :
    ({ s with newSampleRate := a, sampleRateChanged := b, newAudioSampleRate := c,
              audioSampleRateChanged := d } : State F).Sound :=
  { h with
    asked := ⟨h.asked.typed, h.asked.pending, fun inp cmd hs => absurd hs (hstep inp cmd)⟩ }

/-- A test makes a command, or goes on to the shift. -/
theorem test_cases (ht : s.test inp = .ok t) :
    (∃ cmd, t = s.goto (.command inp cmd)) ∨ t = s.goto (.shift inp) := by
  unfold State.test at ht
  simp only [bind, Except.bind] at ht
  split at ht
  · cases ht
    exact .inl ⟨_, rfl⟩
  · split at ht
    · split at ht
      · split at ht
        · cases ht
          exact .inl ⟨_, rfl⟩
        · cases ht
          exact .inr rfl
      · split at ht
        · cases ht
        · cases ht
          exact .inr rfl
    · cases ht
      exact .inr rfl

theorem send_cases {numWritten : Nat} (ht : s.send inp numWritten = .ok t) :
    (∃ resamp, t = s.goto (.pushPost inp resamp)) ∨ t = s.goto (.drain inp) := by
  unfold State.send at ht
  simp only [bind, Except.bind] at ht
  split at ht
  · split at ht
    · cases ht
    · split at ht
      · cases ht
      · cases ht
        exact .inl ⟨_, rfl⟩
  · cases ht
    exact .inr rfl

/-- A result changes what the thread holds, and not where it is or what is queued. -/
theorem takeResult_eq {result : Result} (ht : s.takeResult inp result = .ok t) :
    ∃ (a : Option (Nat × Nat)) (b c : Option Nat) (d e f : Nat) (g : Option DemodType)
      (i j : Bool) (k : Int),
      t = { s with iqResampler := a, cModem := b, cModemKit := c, currentAudioSampleRate := d,
                   currentBandwidth := e, currentSampleRate := f, demodType := g,
                   demodTypeChanged := i, initialized := j, shiftFrequency := k } := by
  unfold State.takeResult at ht
  simp only [bind, Except.bind] at ht
  split at ht
  · cases hkit : s.heap.kit result.modemKit with
    | error f =>
      rw [hkit] at ht
      cases ht
    | ok kit =>
      rw [hkit] at ht
      cases ht
      exact ⟨_, _, _, _, _, _, _, _, _, _, rfl⟩
  · cases ht
    exact ⟨_, _, _, _, _, _, _, _, _, _, rfl⟩

theorem takeRates_eq (s : State F) (inp : DemodulatorThreadIQData F) (rate rate' rate'' : Nat) :
    ∃ (a : Nat) (b : Bool) (c : Nat) (d : Bool),
      (s.takeSampleRate inp).takeAudioSampleRate rate rate' rate'' =
        { s with newSampleRate := a, sampleRateChanged := b, newAudioSampleRate := c,
                 audioSampleRateChanged := d } := by
  unfold takeAudioSampleRate takeSampleRate
  split_ifs <;> exact ⟨_, _, _, _, rfl⟩

theorem Sound.rates (h : s.Sound) (hstep : s.step = .rates inp) (rate rate' rate'' : Nat) :
    (((s.takeSampleRate inp).takeAudioSampleRate rate rate' rate'').goto (.test inp)).Sound := by
  obtain ⟨a, b, c, d, heq⟩ := takeRates_eq s inp rate rate' rate''
  rw [heq]
  have hrates := h.withRates (fun inp cmd hs => by rw [hstep] at hs; cases hs) a c b d
  refine hrates.goto ?_ (fun _ hc => by cases hc) (fun _ _ hs => by cases hs)
  show [] = s.step.posts
  rw [hstep]
  rfl

/-- The objects of the thread, and those of the worker. -/
theorem Sound.modem (h : s.Sound) (hm : s.cModem.isSome) :
    (∃ p : Nat × Nat, s.cModem = some p.1 ∧ s.cModemKit = some p.2 ∧ s.heap.Alive p) ∧
      s.worker.cModem.isSome := by
  have hk : s.cModemKit.isSome := h.chain.thread ▸ hm
  obtain ⟨i, j, hi, hj, hhand⟩ := hand_of_isSome hm hk
  have hmem : (i, j) ∈ hand s.demodulator.cModem s.demodulator.cModemKit ++
      behind s.posts (s.cModem, s.cModemKit) s.results (s.worker.cModem, s.worker.cModemKit) := by
    rw [behind, hhand]
    simp
  refine ⟨⟨(i, j), hi, hj, h.chain.alive hmem⟩, ?_⟩
  rw [Option.isSome_iff_ne_none]
  intro hw
  rw [h.chain.first hw] at hmem
  cases hmem

theorem Sound.test (h : s.Sound) (hstep : s.step = .test inp) : Fine (some (s.test inp)) := by
  have hposts : ([] : List (PostIQData F)) = s.step.posts := by
    rw [hstep]
    rfl
  have hplain : ∀ step : PreStep F, step.posts = [] → step.commands = [] →
      (∀ inp cmd, step = .command inp cmd → s.settled = true ∧
        (cmd = .BUILD_FILTERS → s.worker.cModem.isSome) ∧
        (cmd = .MAKE_DEMOD → s.newDemodType.isSome)) → (s.goto step).Sound := by
    intro step hp hc hdue
    exact h.goto (hp.trans hposts) (fun c hcmem => by rw [hc] at hcmem; cases hcmem) hdue
  have hshift : (s.goto (.shift inp)).Sound := hplain _ rfl rfl fun _ _ hs => by cases hs
  unfold State.test
  split
  · next hmake =>
    rw [Bool.and_eq_true] at hmake
    refine fine_ok (hplain _ rfl rfl ?_)
    intro inp' cmd hs
    cases hs
    exact ⟨hmake.2, fun hb => (by cases hb), fun _ => h.asked.typed (.inl hmake.1)⟩
  · split
    · next hboth =>
      rw [Bool.and_eq_true] at hboth
      obtain ⟨⟨p, hm, -, modem, kit, hmodem, -⟩, hw⟩ := h.modem hboth.2
      split
      · split
        · next hset =>
          refine fine_ok (hplain _ rfl rfl ?_)
          intro inp' cmd hs
          cases hs
          exact ⟨hset, fun _ => hw, fun hb => by cases hb⟩
        · exact fine_ok hshift
      · rw [hm, hmodem]
        exact fine_ok hshift
    · exact fine_ok hshift

theorem Sound.makeCommand (h : s.Sound) {cmd : CommandKind} (hstep : s.step = .command inp cmd) :
    (s.makeCommand inp cmd).Sound := by
  obtain ⟨hset, hw⟩ := h.asked.due inp cmd hstep
  obtain ⟨hrate, haudio, hband⟩ := settled_iff.mp hset
  have hposts : ([] : List (PostIQData F)) = s.step.posts := by
    rw [hstep]
    rfl
  cases cmd with
  | MAKE_DEMOD =>
    have htyped := h.asked.typed (.inr (.inr ⟨inp, hstep⟩))
    have hflags : ({ s with sampleRateChanged := false, audioSampleRateChanged := false
                            demodType := s.newDemodType } : State F).Sound :=
      { h with asked := ⟨h.asked.typed, h.asked.pending, h.asked.due⟩ }
    refine hflags.goto hposts ?_ (fun _ _ hs => by cases hs)
    intro c hc
    rw [List.mem_singleton.mp hc]
    exact ⟨⟨hrate, hband, haudio, fun _ => htyped⟩, fun hb => by cases hb⟩
  | BUILD_FILTERS =>
    have hflags : ({ s with sampleRateChanged := false, audioSampleRateChanged := false
                            bandwidthChanged := false } : State F).Sound :=
      { h with asked := ⟨h.asked.typed, h.asked.pending, h.asked.due⟩ }
    refine hflags.goto hposts ?_ (fun _ _ hs => by cases hs)
    intro c hc
    rw [List.mem_singleton.mp hc]
    exact ⟨⟨hrate, hband, haudio, fun hb => by cases hb⟩, fun _ => hw rfl⟩

theorem Sound.pushed (h : s.Sound) {command : Command} (hstep : s.step = .push inp command) :
    (s.pushed inp command).Sound := by
  have hmem : ∀ c ∈ (s.workerQueue ++ [command]) ++ ([] ++ s.worker.step.batch.commands),
      c ∈ s.commands := by
    intro c hc
    simp only [State.commands, hstep, PreStep.commands, List.mem_append, List.mem_singleton,
      List.not_mem_nil, false_or] at hc ⊢
    tauto
  have hposts : s.posts = s.iqOutputQueue ++ [] := by
    rw [posts, hstep]
    rfl
  have hchain := h.chain
  have hres := h.resampled
  rw [hposts] at hchain hres
  have hne : ∀ inp', (PreStep.shift inp : PreStep F) ≠ .command inp' .MAKE_DEMOD := by
    intro inp' hs
    cases hs
  have htyped := h.asked.typed_of_ne hne
  cases hcmd : command.cmd with
  | MAKE_DEMOD =>
    unfold State.pushed
    simp only [hcmd]
    refine { h with
      chain := hchain.forget, resampled := hres, current := fun hm => (by cases hm)
      good := fun c hc => h.good c (hmem c hc)
      asked := ⟨?_, h.asked.pending, fun _ _ hs => (by cases hs)⟩ }
    rintro (hd | hrest)
    · cases hd
    · exact htyped (.inr hrest)
  | BUILD_FILTERS =>
    unfold State.pushed
    simp only [hcmd]
    exact { h with
      chain := hchain, resampled := hres, good := fun c hc => h.good c (hmem c hc)
      asked := ⟨htyped, h.asked.pending, fun _ _ hs => (by cases hs)⟩ }

theorem Sound.shift (h : s.Sound) (hstep : s.step = .shift inp) : (s.shift inp).Sound := by
  have hposts : ([] : List (PostIQData F)) = s.step.posts := by
    rw [hstep]
    rfl
  unfold State.shift
  generalize hu : (if s.currentFrequency - inp.frequency = s.shiftFrequency then s
    else _ : State F) = u
  have hsound : u.Sound ∧ u.step = s.step := by
    subst hu
    split
    · exact ⟨h, rfl⟩
    · dsimp only
      split
      · exact ⟨h.withShift _ _, rfl⟩
      · exact ⟨h.withShift _ _, rfl⟩
  obtain ⟨hus, hustep⟩ := hsound
  rw [← hustep] at hposts
  dsimp only
  split
  · exact hus.goto hposts (fun _ hc => by cases hc) (fun _ _ hs => by cases hs)
  · exact hus.goto hposts (fun _ hc => by cases hc) (fun _ _ hs => by cases hs)

theorem Sound.send (h : s.Sound) (hstep : s.step = .send inp) (numWritten : Nat) :
    Fine (some (s.send inp numWritten)) := by
  have hposts : s.posts = s.iqOutputQueue := by
    rw [posts, hstep]
    exact List.append_nil _
  unfold State.send
  split
  · next hready =>
    obtain ⟨hdata, hrate, hm, hk⟩ := hready
    obtain ⟨hrated, hres⟩ := h.current hm
    obtain ⟨⟨p, hp, -, modem, kit, hmodem, -⟩, -⟩ := h.modem hm
    rw [hres]
    simp only [hp, hmodem, bind, Except.bind]
    apply fine_ok
    have hchain := h.chain
    rw [hposts] at hchain
    refine { h with
      chain := hchain.send hm hp.symm rfl, resampled := ?_
      good := ?_
      asked := ⟨h.asked.typed_of_ne fun _ hs => (by cases hs), h.asked.pending,
        fun _ _ hs => (by cases hs)⟩ }
    · intro q hq
      rcases List.mem_append.mp hq with hq | hq
      · exact h.resampled q (by rw [hposts]; exact hq)
      · rw [List.mem_singleton.mp hq]
        exact ⟨hrated, by rw [hrate]⟩
    · intro c hc
      apply h.good c
      simp only [State.commands, hstep]
      exact hc
  · apply fine_ok
    refine h.goto ?_ (fun _ hc => by cases hc) (fun _ _ hs => by cases hs)
    rw [hstep]
    rfl

theorem Sound.pushPost (h : s.Sound) {resamp : PostIQData F}
    (hstep : s.step = .pushPost inp resamp) :
    ({ s with iqOutputQueue := s.iqOutputQueue ++ [resamp], step := .drain inp } :
      State F).Sound := by
  have hposts : s.iqOutputQueue ++ [resamp] ++ [] = s.posts := by
    rw [posts, hstep]
    exact List.append_nil _
  have hchain := h.chain
  have hres := h.resampled
  rw [← hposts] at hchain hres
  refine { h with
    chain := hchain, resampled := hres, good := ?_
    asked := ⟨h.asked.typed_of_ne fun _ hs => (by cases hs), h.asked.pending,
      fun _ _ hs => (by cases hs)⟩ }
  intro c hc
  apply h.good c
  simp only [State.commands, hstep]
  exact hc

theorem Sound.takeResult (h : s.Sound) {result : Result} {results : List Result}
    (hres : s.workerResults = result :: results) :
    Fine (some (({ s with workerResults := results } : State F).takeResult inp result)) := by
  have hresults : s.results = result :: (results ++ s.worker.step.results) := by
    rw [State.results, hres]
    rfl
  have hin : result ∈ s.results := by
    rw [hresults]
    exact List.mem_cons_self
  obtain ⟨hm, hk⟩ := h.chain.onResults result hin
  obtain ⟨m, k, hm', hk', hhand⟩ := hand_of_isSome hm hk
  have hbuilt := h.built result hin
  obtain ⟨modem, kit, -, hkit, -⟩ := h.chain.alive (p := (m, k)) (by
    simp only [behind, List.mem_append, List.mem_flatMap]
    exact .inr (.inr (.inr (.inl ⟨result, hin, by rw [hhand]; exact List.mem_singleton_self _⟩))))
  have hchain := h.chain
  rw [hresults] at hchain
  have htake := hchain.take
  rw [hm', hk'] at htake
  have hrated := hbuilt.rated
  rw [hk'] at hrated
  unfold State.takeResult
  simp only [hm', hk', Option.isSome_some, if_true, hkit, Except.map, bind, Except.bind,
    if_pos hbuilt.bandwidth, if_pos hbuilt.sampleRate, hbuilt.iqResampler]
  apply fine_ok
  refine { h with
    chain := htake, built := fun r hr => h.built r (by rw [hresults]; exact .tail _ hr)
    current := fun _ => ⟨hrated, rfl⟩
    asked := ⟨?_, h.asked.pending, h.asked.due⟩ }
  rintro (hd | hrest)
  · exact h.asked.typed (.inl (Bool.and_eq_true _ _ ▸ hd).1)
  · exact h.asked.typed (.inr hrest)

theorem Sound.pre (h : s.Sound) : Fine s.pre := by
  unfold State.pre
  split
  · next inp hstep =>
    have hposts : ∀ step : PreStep F, step.posts = [] → step.posts = s.step.posts := by
      intro step hp
      rw [hp, hstep]
      rfl
    apply fine_ok
    split
    · exact h.goto (hposts _ rfl) (fun _ hc => by cases hc) (fun _ _ hs => by cases hs)
    · exact h.goto (hposts _ rfl) (fun _ hc => by cases hc) (fun _ _ hs => by cases hs)
  · next inp hstep =>
    have hfreq := h.withFrequency s.newFrequency s.frequencyChanged
    refine fine_ok (hfreq.goto ?_ (fun _ hc => by cases hc) (fun _ _ hs => by cases hs))
    show [] = s.step.posts
    rw [hstep]
    rfl
  · next inp hstep =>
    have hfreq := h.withFrequency s.currentFrequency false
    refine fine_ok (hfreq.goto ?_ (fun _ hc => by cases hc) (fun _ _ hs => by cases hs))
    show [] = s.step.posts
    rw [hstep]
    rfl
  · next inp hstep => exact h.test hstep
  · next inp cmd hstep => exact fine_ok (h.makeCommand hstep)
  · next inp command hstep =>
    split
    · exact fine_ok (h.pushed hstep)
    · exact fine_none
  · next inp hstep => exact fine_ok (h.shift hstep)
  · next inp resamp hstep =>
    split
    · exact fine_ok (h.pushPost hstep)
    · exact fine_none
  · next inp hstep =>
    split
    · refine fine_ok ((h.withUndrained 0).goto ?_ (fun _ hc => by cases hc)
        (fun _ _ hs => by cases hs))
      show [] = s.step.posts
      rw [hstep]
      rfl
    · next result results hres => exact h.takeResult hres
  · exact fine_none
  · exact fine_none
  · exact fine_none

/-! ### The worker and the demodulator thread -/

theorem Sound.withWork (h : s.Sound) {queue : List Command} {step : WorkStep}
    (hresults : step.results = s.worker.step.results)
    (hmem : ∀ c ∈ queue ++ (s.step.commands ++ step.batch.commands), c ∈ s.commands)
    (hsorted : step.batch.Sorted) :
    ({ s with workerQueue := queue, worker := { s.worker with step := step } } :
      State F).Sound := by
  have heq : s.workerResults ++ step.results = s.results := congrArg (s.workerResults ++ ·) hresults
  have hchain := h.chain
  have hbuilt := h.built
  rw [← heq] at hchain hbuilt
  exact { h with
    chain := hchain, built := hbuilt, good := fun c hc => h.good c (hmem c hc), sorted := hsorted
    asked := ⟨h.asked.typed, h.asked.pending, h.asked.due⟩ }

theorem mem_take_commands {batch : Batch} {command c : Command}
    (hc : c ∈ (batch.take command).commands) : c = command ∨ c ∈ batch.commands := by
  unfold Batch.take at hc
  rw [Batch.mem_commands] at hc
  rw [Batch.mem_commands]
  split at hc
  · rcases hc with hc | hc
    · exact .inl (Option.some.inj hc).symm
    · exact .inr (.inr hc)
  · rcases hc with hc | hc
    · exact .inr (.inl hc)
    · exact .inl (Option.some.inj hc).symm

theorem sorted_take {batch : Batch} (h : batch.Sorted) (command : Command) :
    (batch.take command).Sorted := by
  unfold Batch.take
  split
  · next hcmd =>
    refine ⟨?_, h.demod⟩
    intro c hc
    rw [← Option.some.inj hc]
    exact hcmd
  · next hcmd =>
    refine ⟨h.filter, ?_⟩
    intro c hc
    rw [← Option.some.inj hc]
    exact hcmd

theorem sorted_none : (⟨none, none⟩ : Batch).Sorted :=
  ⟨fun _ hc => (by cases hc), fun _ hc => (by cases hc)⟩

/-- The worker's modem is the last in line. -/
theorem Sound.last (h : s.Sound) {m : Nat} (hm : s.worker.cModem = some m) :
    (∃ modem, s.heap.modem (some m) = .ok modem) ∧
      ∀ q ∈ hand s.demodulator.cModem s.demodulator.cModemKit ++
        behind s.posts (s.cModem, s.cModemKit) s.results (s.worker.cModem, s.worker.cModemKit),
        q.1 ≤ m := by
  have hk : s.worker.cModemKit.isSome := h.chain.worker ▸ (by rw [hm]; rfl)
  obtain ⟨k, hk⟩ := Option.isSome_iff_exists.mp hk
  have hline : hand s.demodulator.cModem s.demodulator.cModemKit ++
      behind s.posts (s.cModem, s.cModemKit) s.results (s.worker.cModem, s.worker.cModemKit) =
        (hand s.demodulator.cModem s.demodulator.cModemKit ++
          behind s.posts (s.cModem, s.cModemKit) s.results (none, none)) ++ [(m, k)] := by
    rw [behind, behind, hm, hk]
    simp [hand]
  constructor
  · obtain ⟨modem, -, hmodem, -⟩ := h.chain.alive (p := (m, k)) (by rw [hline]; simp)
    exact ⟨modem, hmodem⟩
  · intro q hq
    have hord := h.chain.line.ordered
    rw [hline] at hq hord
    rcases List.mem_append.mp hq with hq | hq
    · exact ((List.pairwise_append.mp hord).2.2 q hq (m, k) (by simp)).1
    · rw [List.mem_singleton.mp hq]

theorem Sound.build (h : s.Sound) {batch : Batch} {command : Command}
    (hstep : s.worker.step = .build batch) (hlead : batch.leading = some command) :
    Fine (some ((s.worker.build s.heap batch command).map fun r =>
      { s with heap := r.1, worker := r.2 })) := by
  have hbatch : s.worker.step.batch = batch := by
    rw [hstep]
    rfl
  have hin : ∀ c ∈ batch.commands, c ∈ s.commands := by
    intro c hc
    rw [← hbatch] at hc
    exact List.mem_append_right _ (List.mem_append_right _ hc)
  obtain ⟨h', w', r, m, hbuild, hw, hwm, hwk, hrm, hrk, hr, hext, hkeep, hmat, hnew⟩ :=
    Worker.build_ok hlead (fun c hc => (h.good c (hin c hc)).1) (hbatch ▸ h.sorted) (by
      intro hcmd
      obtain ⟨m, hm⟩ := Option.isSome_iff_exists.mp
        ((h.good command (hin command (Batch.leading_mem hlead))).2 hcmd)
      obtain ⟨modem, hmodem⟩ := (h.last hm).1
      exact ⟨m, modem, hm, hmodem⟩)
  rw [hbuild]
  apply fine_ok
  have hresults : s.results = s.workerResults := by
    rw [State.results, hstep]
    exact List.append_nil _
  have hchain := h.chain.renew hext (h.chain.spares.mono hkeep) hmat hrm hrk (by
    intro q hq
    refine ⟨?_, Nat.le_of_lt (h.chain.line.matched q hq).kit_lt⟩
    rcases hnew with hge | hold
    · exact Nat.le_of_lt ((h.chain.line.matched q hq).1.trans_le hge)
    · exact (h.last hold).2 q hq)
  rw [hresults, ← hwm, ← hwk] at hchain
  refine
    { chain := ?_, resampled := fun p hp => (h.resampled p hp).mono hext, built := ?_
      current := fun hm => ⟨(h.current hm).1.mono hext, (h.current hm).2⟩, good := ?_
      sorted := ?_, asked := ⟨h.asked.typed, h.asked.pending, ?_⟩ }
  · simp only [State.results, hw]
    exact hchain
  · intro r' hr'
    simp only [State.results, hw, WorkStep.results, List.mem_append, List.mem_singleton] at hr'
    rcases hr' with hr' | rfl
    · exact (h.built r' (by rw [hresults]; exact hr')).mono hext
    · exact hr
  · intro c hc
    simp only [State.commands, hw, WorkStep.batch, List.mem_append] at hc
    refine ⟨(h.good c ?_).1, fun _ => by rw [hwm]; rfl⟩
    simp only [State.commands, List.mem_append]
    rcases hc with hc | hc | hc
    · exact .inl hc
    · exact .inr (.inl hc)
    · cases hc
  · simp only [hw]
    exact sorted_none
  · intro inp' cmd hs
    exact ⟨(h.asked.due inp' cmd hs).1, fun _ => by rw [hwm]; rfl⟩

theorem Sound.work (h : s.Sound) : Fine s.work := by
  unfold State.work
  split
  · next batch hstep =>
    have hbatch : s.worker.step.batch = batch := by
      rw [hstep]
      rfl
    split
    · exact fine_none
    · next command commands hq =>
      refine fine_ok (h.withWork (by rw [hstep]; rfl) ?_ (sorted_take (hbatch ▸ h.sorted) _))
      intro c hc
      simp only [State.commands, hq, hbatch, List.mem_append, List.mem_cons] at hc ⊢
      rcases hc with hc | hc | hc
      · exact .inl (.inr hc)
      · exact .inr (.inl hc)
      · rcases mem_take_commands hc with hc | hc
        · exact .inl (.inl hc)
        · exact .inr (.inr hc)
  · next batch hstep =>
    have hbatch : s.worker.step.batch = batch := by
      rw [hstep]
      rfl
    apply fine_ok
    have hsame : ∀ step : WorkStep, step.results = [] → step.batch = batch →
        ({ s with worker := { s.worker with step := step } } : State F).Sound := by
      intro step hr hb
      refine h.withWork (by rw [hstep, hr]; rfl) ?_ (by rw [hb]; exact hbatch ▸ h.sorted)
      intro c hc
      rw [hb, ← hbatch] at hc
      exact hc
    split
    · exact hsame _ rfl rfl
    · exact hsame _ rfl rfl
  · next batch hstep =>
    split
    · refine fine_ok (h.withWork (by rw [hstep]; rfl) ?_ sorted_none)
      intro c hc
      simp only [State.commands, WorkStep.batch, List.mem_append] at hc ⊢
      rcases hc with hc | hc | hc
      · exact .inl hc
      · exact .inr (.inl hc)
      · cases hc
    · next command hlead => exact h.build hstep hlead
  · next result hstep =>
    split
    · have hresults : s.workerResults ++ [result] ++ [] = s.results := by
        rw [State.results, hstep]
        exact List.append_nil _
      have hchain := h.chain
      have hbuilt := h.built
      rw [← hresults] at hchain hbuilt
      apply fine_ok
      refine { h with
        chain := hchain, built := hbuilt, good := ?_, sorted := sorted_none
        asked := ⟨h.asked.typed, h.asked.pending, h.asked.due⟩ }
      intro c hc
      apply h.good c
      simp only [State.commands, WorkStep.batch, List.mem_append] at hc ⊢
      rcases hc with hc | hc | hc
      · exact .inl hc
      · exact .inr (.inl hc)
      · cases hc
    · exact fine_none

theorem Sound.demodulate (h : s.Sound) {inp : PostIQData F} {rest : List (PostIQData F)}
    (hq : s.iqOutputQueue = inp :: rest) :
    Fine (some ((s.demodulator.demodulate s.heap inp).map fun r =>
      { s with iqOutputQueue := rest, heap := r.1, demodulator := r.2 })) := by
  have hposts : s.posts = inp :: (rest ++ s.step.posts) := by
    rw [posts, hq]
    rfl
  have hchain := h.chain
  rw [hposts] at hchain
  obtain ⟨h', d', hdem, hchain', hext⟩ := hchain.demodulate
  rw [hdem]
  apply fine_ok
  exact
    { chain := hchain'
      resampled := fun p hp => (h.resampled p (by rw [hposts]; exact .tail _ hp)).mono hext
      built := fun r hr => (h.built r hr).mono hext
      current := fun hm => ⟨(h.current hm).1.mono hext, (h.current hm).2⟩
      good := h.good
      sorted := h.sorted
      asked := ⟨h.asked.typed, h.asked.pending, h.asked.due⟩ }

/-- **No step fails**, and every step keeps the invariant. -/
theorem Sound.fine (h : s.Sound) {l : Label F} (hl : l.Positive) : Fine (s.next l) := by
  cases l with
  | call c => exact fine_ok (h.begin hl)
  | finish i =>
    simp only [next]
    cases hc : s.pending[i]? with
    | none => exact fine_none
    | some c => exact fine_ok (h.finish hc)
  | block inp =>
    simp only [next]
    split
    · next hstep =>
      refine fine_ok ((h.withUndrained (s.undrained + 1)).goto ?_ (fun _ hc => by cases hc)
        (fun _ _ hs => by cases hs))
      show [] = s.step.posts
      rw [hstep]
      rfl
    · exact fine_none
  | rates rate rate' rate'' =>
    simp only [next]
    split
    · next inp hstep => exact fine_ok (h.rates hstep rate rate' rate'')
    · exact fine_none
  | resample numWritten =>
    simp only [next]
    split
    · next inp hstep => exact h.send hstep numWritten
    · exact fine_none
  | pre => exact h.pre
  | work => exact h.work
  | demodulate =>
    simp only [next]
    split
    · exact fine_none
    · next inp rest hq => exact h.demodulate hq

theorem sound_of_run {ls : List (Label F)} (h : Run Step start ls s)
    (hpos : ∀ l ∈ ls, l.Positive) : s.Sound := by
  refine h.invariant_on (I := Sound) (P := Label.Positive) ?_ hpos sound_start
  intro u l t hl hu hstep
  obtain ⟨t', ht', hsound⟩ := hu.fine hl _ hstep
  cases ht'
  exact hsound

/-- **The modem of every block can be used.**  However the callers, the thread, its worker
and the demodulator thread interleave, none of them follows a null pointer or one to a
deleted modem or kit, nothing is deleted twice, a kit is used and disposed of only by the
modem that built it, and every block on its way to the demodulator thread was resampled
from its own rate to that of its kit. -/
theorem hands_over {ls : List (Label F)} (h : Run Step start ls s)
    (hpos : ∀ l ∈ ls, l.Positive) :
    (∀ l : Label F, l.Positive → ∀ f, s.next l ≠ some (.error f)) ∧
      ∀ p ∈ s.iqOutputQueue, Resampled s.heap p := by
  have hsound := sound_of_run h hpos
  constructor
  · intro l hl f hf
    obtain ⟨t, ht, -⟩ := hsound.fine hl _ hf
    cases ht
  · intro p hp
    exact hsound.resampled p (List.mem_append_left _ hp)

/-- The state after the steps `ls`, if all of them can be taken and none fails. -/
def after (s : State F) : List (Label F) → Option (State F)
  | [] => some s
  | l :: ls =>
    match s.next l with
    | some (.ok t) => t.after ls
    | _ => none

theorem run_of_after {ls : List (Label F)} {t : State F} (h : s.after ls = some t) :
    Run Step s ls t := by
  induction ls generalizing s with
  | nil =>
    cases h
    exact .nil _
  | cons l ls ih =>
    simp only [after] at h
    split at h
    · next u hu => exact .cons hu (ih h)
    · cases h

/-- The calls before the threads are started, and a first block that they make a modem for. -/
def firstBlocks : List (Label Int) :=
  let block : DemodulatorThreadIQData Int := ⟨100000000, 48000, [⟨1, 0⟩]⟩
  [.call (.setDemodType .NBFM), .finish 0, .call (.setBandwidth 12500), .finish 0,
    .call (.setFrequency 100001000), .finish 0,
    .block block, .pre, .pre, .pre, .rates 44100 0 0, .pre, .pre, .pre, .pre, .resample 0,
    .work, .work, .work, .work, .pre, .pre,
    .block block, .pre, .rates 44100 0 0, .pre, .pre, .pre, .pre, .resample 13, .pre]

/-- The second block goes to the modem with its first kit. -/
theorem hands_over_first :
    ∃ s : State Int, (s.iqOutputQueue.map fun p => (p.modem, p.modemKit, p.resampler)) =
        [(some 0, some 0, (12500, 48000))] ∧ ∀ p ∈ s.iqOutputQueue, Resampled s.heap p := by
  have hafter : ∃ s : State Int, (start : State Int).after firstBlocks = some s ∧
      (s.iqOutputQueue.map fun p => (p.modem, p.modemKit, p.resampler)) =
        [(some 0, some 0, (12500, 48000))] := ⟨_, rfl, rfl⟩
  obtain ⟨s, hs, hqueue⟩ := hafter
  exact ⟨s, hqueue, (hands_over (run_of_after hs) (by decide)).2⟩

end State

end PiScan.Cubic.DemodulatorPreThread

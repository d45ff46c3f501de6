import PiScan.Scan.SentinelLine

/-!
# What arrives of a Sentinel file

* `run_iff`: what the lines behind a `C-Group` line add to its system and to the list;
* `converts_iff`: a file is converted to the systems and channels that its columns
  name exactly when every line from its first `C-Group` line on is `Kept`.
-/

namespace PiScan.Scan

open TwosComplement Delimited PropertyTree SentinelFile

/-! ## The run over a file -/

/-- The line is read without an early end. -/
def Line.Read (w : Nat) : Line → Prop
  | .group g => ∃ s, systemOf (tokensOf (Line.group g).chars) = .ok s
  | .freq f => ∃ e, entryOf w (tokensOf (Line.freq f).chars) = .ok e

/-- What a `C-Group` line adds. -/
def Group.heard (g : Group) : Listed :=
  match systemOf (tokensOf (Line.group g).chars) with
  | .ok s => s.listed
  | .error _ => { tag := "", lockout := false, channels := [] }

/-- What a `C-Freq` line adds to the system before it. -/
def Freq.heard (w : Nat) (f : Freq) : Option Listing :=
  match entryOf w (tokensOf (Line.freq f).chars) with
  | .ok (some e) => some e.listing
  | _ => none

/-- The systems that the lines make where none of them ends the run. -/
def heard (w : Nat) : List Line → List Listed
  | [] => []
  | .group g :: ls =>
    { g.heard with channels := (following ls).filterMap (Freq.heard w) } :: heard w ls
  | .freq _ :: ls => heard w ls

/-- `_system` is the last system of the list. -/
structure Last (before : List AnalogSystem) (s : AnalogSystem) (sf : SentinelFile) : Prop where
  systems : sf.list.systems = before ++ [s]
  system : sf.system = some before.length

theorem readLine_group (w : Nat) (sf : SentinelFile) (g : Group) :
    readLine w sf (Line.group g).chars =
      newAnalogSys sf (tokensOf (Line.group g).chars) := by
  unfold readLine
  rw [tokensOf_group]
  rfl

theorem readLine_freq {w : Nat} {sf : SentinelFile} {i : Nat} (h : sf.system = some i)
    (f : Freq) :
    readLine w sf (Line.freq f).chars =
      newAnalogEntry w sf (tokensOf (Line.freq f).chars) := by
  unfold readLine
  rw [tokensOf_freq]
  show (if C_FREQ = C_GROUP then _ else _) = _
  rw [if_neg (by decide), if_pos ⟨rfl, by rw [h]; rfl⟩]

/-- A `C-Freq` line before every `C-Group` line is passed over. -/
theorem readLine_freq_none {w : Nat} {sf : SentinelFile} (h : sf.system = none) (f : Freq) :
    readLine w sf (Line.freq f).chars = .ok sf := by
  unfold readLine
  rw [tokensOf_freq]
  show (if C_FREQ = C_GROUP then _ else _) = _
  rw [if_neg (by decide), if_neg (by simp [h])]

theorem modify_last {before : List AnalogSystem} (s : AnalogSystem)
    (f : AnalogSystem → AnalogSystem) :
    (before ++ [s]).modify before.length f = before ++ [f s] := by
  induction before with
  | nil => rfl
  | cons b before ih => rw [List.cons_append, List.length_cons, List.modify_succ_cons, ih]; rfl

theorem listed_addEntry (s : AnalogSystem) (e : Entry) :
    (s.addEntry e).listed =
      { s.listed with channels := s.listed.channels ++ [e.listing] } := by
  rw [AnalogSystem.listed, AnalogSystem.addEntry, List.map_append]
  rfl

theorem Last.addNewEntry {before : List AnalogSystem} {s : AnalogSystem} {sf : SentinelFile}
    (h : Last before s sf) (e : Entry) :
    ∃ s', Last before s' (addNewEntry sf before.length e) ∧
      s'.listed = { s.listed with channels := s.listed.channels ++ [e.listing] } := by
  refine ⟨s.addEntry { e with sysIndex := sf.list.size - 1, entryIndex := s.size },
    ⟨?_, h.system⟩, ?_⟩
  · show sf.list.systems.modify before.length _ = _
    rw [h.systems, modify_last]
  · rw [listed_addEntry]
    rfl

/-- From `sf`, the lines lead to these systems. -/
def RunsTo (w : Nat) (sf : SentinelFile) (lines : List Line) (systems : List Listed) : Prop :=
  ∃ sf', (lines.map Line.chars).foldlM (readLine w) sf = .ok sf' ∧
    sf'.list.systems.map AnalogSystem.listed = systems

theorem runsTo_nil {w : Nat} {sf : SentinelFile} {systems : List Listed} :
    RunsTo w sf [] systems ↔ sf.list.systems.map AnalogSystem.listed = systems := by
  simp only [RunsTo, List.map_nil, List.foldlM_nil, pure_eq_ok, exists_eq_left']

theorem runsTo_cons {w : Nat} {sf : SentinelFile} {l : Line} {lines : List Line}
    {systems : List Listed} :
    RunsTo w sf (l :: lines) systems ↔
      ∃ sf', readLine w sf l.chars = .ok sf' ∧ RunsTo w sf' lines systems := by
  simp only [RunsTo, List.map_cons, List.foldlM_cons, bind_eq_ok]
  constructor
  · rintro ⟨sf'', ⟨sf', hline, hrun⟩, hsystems⟩
    exact ⟨sf', hline, sf'', hrun, hsystems⟩
  · rintro ⟨sf', hline, sf'', hrun, hsystems⟩
    exact ⟨sf'', ⟨sf', hline, hrun⟩, hsystems⟩

/-- The run over lines behind a `C-Group` line. -/
def RunIff (w : Nat) (lines : List Line) : Prop :=
  ∀ {before : List AnalogSystem} {s : AnalogSystem} {sf : SentinelFile}, Last before s sf →
    ∀ systems, RunsTo w sf lines systems ↔
      (∀ l ∈ lines, l.Read w) ∧
        before.map AnalogSystem.listed ++ { s.listed with
          channels := s.listed.channels ++ (following lines).filterMap (Freq.heard w) } ::
            heard w lines = systems

/-- A `C-Group` line starts the next system, with no channels yet. -/
theorem runsTo_group {w : Nat} {lines : List Line} (h : RunIff w lines) (sf : SentinelFile)
    (g : Group) (systems : List Listed) :
    RunsTo w sf (.group g :: lines) systems ↔
      ((Line.group g).Read w ∧ ∀ l ∈ lines, l.Read w) ∧
        sf.list.systems.map AnalogSystem.listed ++ heard w (.group g :: lines) = systems := by
  rw [runsTo_cons, readLine_group, newAnalogSys]
  cases hsystem : systemOf (tokensOf (Line.group g).chars) with
  | error e =>
    constructor
    · rintro ⟨sf', hline, -⟩
      cases hline
    · rintro ⟨⟨⟨s, hread⟩, -⟩, -⟩
      rw [hsystem] at hread
      cases hread
  | ok s =>
    have hread : (Line.group g).Read w := ⟨s, hsystem⟩
    have hlast : Last sf.list.systems s
        { list := sf.list.addSystem s, system := some sf.list.size } := ⟨rfl, rfl⟩
    obtain ⟨tag, lo, rfl⟩ := systemOf_ok hsystem
    have hheard : g.heard = (AnalogSystem.new tag lo).listed := by
      rw [Group.heard, hsystem]
    show (∃ sf', (.ok _ : Except Failure SentinelFile) = .ok sf' ∧ _) ↔ _
    simp only [Except.ok.injEq, exists_eq_left', h hlast, hread, true_and, heard, hheard]
    rfl

theorem newAnalogEntry_error {w : Nat} {sf : SentinelFile} {i : Nat} {tokens : List String}
    {e : Failure} (hsystem : sf.system = some i) (h : entryOf w tokens = .error e) :
    newAnalogEntry w sf tokens = .error e := by
  rw [newAnalogEntry, hsystem, h]
  rfl

theorem newAnalogEntry_none {w : Nat} {sf : SentinelFile} {i : Nat} {tokens : List String}
    (hsystem : sf.system = some i) (h : entryOf w tokens = .ok none) :
    newAnalogEntry w sf tokens = .ok sf := by
  rw [newAnalogEntry, hsystem, h]
  rfl

theorem newAnalogEntry_some {w : Nat} {sf : SentinelFile} {i : Nat} {tokens : List String}
    {e : Entry} (hsystem : sf.system = some i) (h : entryOf w tokens = .ok (some e)) :
    newAnalogEntry w sf tokens = .ok (addNewEntry sf i e) := by
  rw [newAnalogEntry, hsystem, h]
  rfl

/-- A `C-Freq` line adds a channel to the last system, or none. -/
theorem runsTo_freq {w : Nat} {lines : List Line} (h : RunIff w lines)
    {before : List AnalogSystem} {s : AnalogSystem} {sf : SentinelFile} (hlast : Last before s sf)
    (f : Freq) (systems : List Listed) :
    RunsTo w sf (.freq f :: lines) systems ↔
      ((Line.freq f).Read w ∧ ∀ l ∈ lines, l.Read w) ∧
        before.map AnalogSystem.listed ++ { s.listed with
          channels := s.listed.channels ++
            (following (.freq f :: lines)).filterMap (Freq.heard w) } ::
              heard w (.freq f :: lines) = systems := by
  rw [runsTo_cons, readLine_freq hlast.system]
  cases hentry : entryOf w (tokensOf (Line.freq f).chars) with
  | error e =>
    rw [newAnalogEntry_error hlast.system hentry]
    constructor
    · rintro ⟨sf', hline, -⟩
      cases hline
    · rintro ⟨⟨⟨e', hread⟩, -⟩, -⟩
      rw [hentry] at hread
      cases hread
  | ok newEntry =>
    have hread : (Line.freq f).Read w := ⟨newEntry, hentry⟩
    cases newEntry with
    | none =>
      have hheard : f.heard w = none := by
        rw [Freq.heard, hentry]
      rw [newAnalogEntry_none hlast.system hentry]
      simp only [Except.ok.injEq, exists_eq_left', h hlast, hread, true_and, following, heard,
        List.filterMap_cons, hheard]
    | some e =>
      have hheard : f.heard w = some e.listing := by
        rw [Freq.heard, hentry]
      obtain ⟨s', hlast', hlisted⟩ := hlast.addNewEntry e
      rw [newAnalogEntry_some hlast.system hentry]
      simp only [Except.ok.injEq, exists_eq_left', h hlast', hlisted, hread, true_and, following,
        heard, List.filterMap_cons, hheard, List.append_assoc, List.singleton_append]

/-- Induction on the lines, with the system that the next entry goes to. -/
theorem run_iff (w : Nat) (lines : List Line) : RunIff w lines := by
  induction lines with
  | nil =>
    intro before s sf hlast systems
    simp only [runsTo_nil, hlast.systems, List.map_append, List.map_cons, List.map_nil, following,
      heard, List.filterMap_nil, List.append_nil, List.not_mem_nil, false_implies, implies_true,
      true_and]
  | cons l lines ih =>
    intro before s sf hlast systems
    rw [List.forall_mem_cons]
    cases l with
    | group g =>
      rw [runsTo_group ih, hlast.systems]
      simp only [following, List.filterMap_nil, List.append_nil, List.map_append, List.map_cons,
        List.map_nil, List.append_assoc, List.singleton_append]
    | freq f => exact runsTo_freq ih hlast f systems

/-- The run over a whole file. -/
theorem run_file_iff (w : Nat) (lines : List Line) (systems : List Listed) :
    RunsTo w { list := .empty, system := none } lines systems ↔
      (∀ l ∈ grouped lines, l.Read w) ∧ heard w lines = systems := by
  induction lines with
  | nil =>
    rw [runsTo_nil]
    simp only [grouped, heard, List.not_mem_nil, false_implies, implies_true, true_and]
    rfl
  | cons l lines ih =>
    cases l with
    | group g =>
      rw [runsTo_group (run_iff w lines)]
      simp only [grouped, List.forall_mem_cons]
      rfl
    | freq f =>
      rw [runsTo_cons, readLine_freq_none rfl]
      simp only [Except.ok.injEq, exists_eq_left', ih, grouped, heard]

/-! ## The text of a file -/

/-- An empty line changes nothing, so the loop over the lines of a text is a loop over
its pieces. -/
theorem foldlM_getlines (w : Nat) (text : List Char) (sf : SentinelFile) :
    (getlines '\n' text).foldlM (readLine w) sf = (pieces '\n' text).foldlM (readLine w) sf := by
  have hempty : ∀ sf : SentinelFile, readLine w sf [] = .ok sf := fun _ => rfl
  unfold pieces
  induction getlines '\n' text generalizing sf with
  | nil => rfl
  | cons l ls ih =>
    by_cases hl : l = []
    · subst hl
      rw [List.foldlM_cons, hempty, List.filter_cons_of_neg (by simp)]
      exact ih sf
    · rw [List.foldlM_cons, List.filter_cons_of_pos (by simpa using hl), List.foldlM_cons]
      exact bind_congr ih

theorem chars_ne (l : Line) : l.chars ≠ [] := by
  intro h
  have htokens : tokensOf l.chars = [] := by
    rw [h]
    rfl
  cases l with
  | group g =>
    rw [tokensOf_group] at htokens
    cases htokens
  | freq f =>
    rw [tokensOf_freq] at htokens
    cases htokens

theorem pieces_fileText (lines : List Line) (ended : Bool) :
    pieces '\n' (fileText lines ended) = lines.map Line.chars := by
  have hplain : ∀ cs ∈ lines.map Line.chars, '\n' ∉ cs := by
    intro cs hcs
    obtain ⟨l, -, rfl⟩ := List.mem_map.mp hcs
    exact not_newline_chars l
  have hall : (lines.map Line.chars).filter (fun cs => cs ≠ []) = lines.map Line.chars := by
    apply List.filter_eq_self.mpr
    intro cs hcs
    obtain ⟨l, -, rfl⟩ := List.mem_map.mp hcs
    simpa using chars_ne l
  cases ended with
  | false => exact (pieces_intercalate hplain).trans hall
  | true => exact (pieces_concat _ _).trans ((pieces_intercalate hplain).trans hall)

theorem convertsTo_iff_runsTo (w : Nat) (lines : List Line) (ended : Bool)
    (systems : List Listed) :
    ConvertsTo w (fileText lines ended) systems ↔
      RunsTo w { list := .empty, system := none } lines systems := by
  simp only [ConvertsTo, generateSystemList, foldlM_getlines, pieces_fileText, bind_eq_ok,
    Except.ok.injEq, Prod.mk.injEq, true_and, exists_eq_right, RunsTo]

/-! ## The conversion of a file -/

/-- The line is heard as its columns name it. -/
def Line.Right (w : Nat) : Line → Prop
  | .group g => g.heard.tag = g.name.text ∧ g.heard.lockout = g.avoid
  | .freq f => f.heard w = some f.listing

theorem read_right_iff_arrives (w : Nat) (l : Line) : l.Read w ∧ l.Right w ↔ l.Arrives w := by
  cases l with
  | group g =>
    constructor
    · rintro ⟨⟨s, hread⟩, htag, hlo⟩
      obtain ⟨tag, lo, rfl⟩ := systemOf_ok hread
      have hheard : g.heard = (AnalogSystem.new tag lo).listed := by
        rw [Group.heard, hread]
      rw [hheard] at htag hlo
      have htag' : tag = g.name.text := htag
      have hlo' : lo = g.avoid := hlo
      show systemOf (tokensOf (Line.group g).chars) = _
      rw [hread, htag', hlo']
    · intro harrives
      have hsystem : systemOf (tokensOf (Line.group g).chars) =
          .ok (.new g.name.text g.avoid) := harrives
      have hheard : g.heard = (AnalogSystem.new g.name.text g.avoid).listed := by
        rw [Group.heard, hsystem]
      refine ⟨⟨_, hsystem⟩, ?_, ?_⟩
      · rw [hheard]
        rfl
      · rw [hheard]
        rfl
  | freq f =>
    constructor
    · rintro ⟨⟨e, hread⟩, hright⟩
      have hheard : f.heard w = some f.listing := hright
      rw [Freq.heard, hread] at hheard
      cases e with
      | none => cases hheard
      | some e => exact ⟨e, hread, Option.some.inj hheard⟩
    · rintro ⟨e, hentry, hlisting⟩
      refine ⟨⟨some e, hentry⟩, ?_⟩
      show f.heard w = _
      rw [Freq.heard, hentry, ← hlisting]

theorem forall_grouped_iff (lines : List Line) (P : Line → Prop) :
    (∀ l ∈ lines, P l) ↔ (∀ f ∈ following lines, P (.freq f)) ∧ ∀ l ∈ grouped lines, P l := by
  induction lines with
  | nil => simp [following, grouped]
  | cons l lines ih =>
    cases l with
    | group g => simp [following, grouped]
    | freq f => simp only [following, grouped, List.forall_mem_cons, ih, and_assoc]

/-- What is heard is what the columns name, line by line: a channel that is missing
makes the list of its system shorter. -/
theorem heard_eq_expected_iff (w : Nat) (lines : List Line) :
    heard w lines = expected lines ↔ ∀ l ∈ grouped lines, l.Right w := by
  induction lines with
  | nil => simp [heard, expected, grouped]
  | cons l lines ih =>
    cases l with
    | group g =>
      simp only [heard, expected, grouped, List.cons.injEq, Listed.mk.injEq, ih,
        List.filterMap_eq_map_iff_forall_eq_some, List.forall_mem_cons,
        forall_grouped_iff lines]
      constructor
      · rintro ⟨⟨htag, hlo, hfreq⟩, hrest⟩
        exact ⟨⟨htag, hlo⟩, hfreq, hrest⟩
      · rintro ⟨⟨htag, hlo⟩, hfreq, hrest⟩
        exact ⟨⟨htag, hlo, hfreq⟩, hrest⟩
    | freq f => exact ih

theorem convertsTo_expected_iff (w : Nat) (lines : List Line) (ended : Bool) :
    ConvertsTo w (fileText lines ended) (expected lines) ↔ ∀ l ∈ grouped lines, l.Arrives w := by
  rw [convertsTo_iff_runsTo, run_file_iff, heard_eq_expected_iff, ← forall₂_and]
  simp only [read_right_iff_arrives]

/-- **Converting a file.**  The text of any `C-Group` and `C-Freq` lines is converted to
the systems and channels that their columns name, in order, exactly when every line
from the first `C-Group` line on is `Kept`. -/
theorem converts_iff {w : Nat} (hw : 0 < w) (lines : List Line) (ended : Bool) :
    ConvertsTo w (fileText lines ended) (expected lines) ↔ ∀ l ∈ grouped lines, l.Kept w := by
  rw [convertsTo_expected_iff]
  simp only [arrives_iff hw]

/-- A system "Airport" and its channel "Tower". -/
def airport : Group :=
  { blanks := 0, ids := 2, name := column "Airport", avoid := false, rest := [] }

theorem tower_ne : (column "Tower").text ≠ "" := by decide

def tower (tone : Tone) : Freq :=
  { blanks := 0, ids := 2, tag := column "Tower", tag_ne := tower_ne, avoid := false,
    freq := .ofNat 118500000, mode := .NFM, tone, extra := (column "17", column "Off"),
    delay := .ofNat 2, rest := [column "0"] }

theorem converts_tower :
    ConvertsTo 64
      (fileText [.group airport, .freq (tower (.ctcss (column "100.0")))] true)
      (expected [.group airport, .freq (tower (.ctcss (column "100.0")))]) := by
  apply (converts_iff (by decide) _ true).mpr
  simp only [grouped, List.forall_mem_cons, List.not_mem_nil, false_implies, implies_true,
    and_true]
  constructor
  · show (column "Airport").text ≠ ""
    decide
  · apply (Freq.kept_iff_of_filled (by rintro ⟨⟩) ⟨by decide, by decide⟩).mpr
    simp only [tower, Digits.value_ofNat]
    decide

/-- Without the tone, the columns behind it move up and the channel is lost. -/
theorem tower_lost :
    ¬ConvertsTo 64 (fileText [.group airport, .freq (tower .csq)] true)
      (expected [.group airport, .freq (tower .csq)]) := by
  rw [convertsTo_expected_iff]
  intro h
  have hkept := (freq_arrives_iff (by decide) (tower .csq)).mp (h _ (by simp [grouped]))
  apply Freq.not_kept_of_csq _ _ _ hkept
  · decide
  · rfl
  · decide

end PiScan.Scan

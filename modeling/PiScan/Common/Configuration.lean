import PiScan.Lib.KeySet
import PiScan.Lib.PropertyTree

/-!
# The configuration file

`Configuration` of `common/Configuration.cpp`: `saveAll` writes the sections to
the tree, `loadAll` reads them back.  `w` is the width of `long`.

* `SocketServerConfig.load_save`, `DemodConfig.load_save`,
  `AudioServerConfig.load_save`: what these sections save they load;
* `TunerList.load_save`: the tuners come back, with their sample rates as `int`s;
* `Configuration.saved_iff`: `saveAll` keeps the settings and a fresh
  configuration loads them if and only if the tree held the log verbosity before
  and every sample rate is an `int`: `GeneralConfig::save` only reads.
-/

namespace PiScan.Common

open PropertyTree TwosComplement

/-! ## Log and servers -/

def DEFAULT_LOGFILE_VERBOSITY : Int := 0

structure GeneralConfig where
  logfileVerbosity : Int
  deriving DecidableEq, Repr

namespace GeneralConfig

def new : GeneralConfig := { logfileVerbosity := DEFAULT_LOGFILE_VERBOSITY }

/-- `GeneralConfig::load`. -/
def load (pTree : Tree) : GeneralConfig :=
  { logfileVerbosity :=
      pTree.get (readInt 32) ["config", "general", "log_verbosity"] DEFAULT_LOGFILE_VERBOSITY }

/-- `GeneralConfig::save`: it reads the tree instead of writing to it. -/
def save (_ : GeneralConfig) (pTree : Tree) : GeneralConfig × Tree :=
  ({ logfileVerbosity :=
      pTree.get (readInt 32) ["config", "general", "log_verbosity"] DEFAULT_LOGFILE_VERBOSITY },
    pTree)

end GeneralConfig

def DEFAULT_TCP_PORT : Int := 1234
def MAX_TCP_CONNECTIONS : Int := 5
def DEFAULT_SPAWN_CLIENT : Bool := false
def DEFAULT_PY_CLIENT_LOCATION : String := "./"
def DEFAULT_PY_ENV_LOCATION : String := "python"

structure SocketServerConfig where
  tcpPort : Int
  maxConnections : Int
  spawnLocalClient : Bool
  pythonClient : String
  pythonBinary : String
  deriving DecidableEq, Repr

namespace SocketServerConfig

def new : SocketServerConfig :=
  { tcpPort := DEFAULT_TCP_PORT
    maxConnections := MAX_TCP_CONNECTIONS
    spawnLocalClient := DEFAULT_SPAWN_CLIENT
    pythonClient := DEFAULT_PY_CLIENT_LOCATION
    pythonBinary := DEFAULT_PY_ENV_LOCATION }

/-- `SocketServerConfig::load`. -/
def load (pTree : Tree) : SocketServerConfig :=
  { maxConnections :=
      pTree.get (readInt 32) ["config", "socket", "max_connections"] MAX_TCP_CONNECTIONS
    tcpPort := pTree.get (readInt 32) ["config", "socket", "port"] DEFAULT_TCP_PORT
    spawnLocalClient := pTree.get readBool ["config", "socket", "use_gui"] DEFAULT_SPAWN_CLIENT
    pythonClient := pTree.get some ["config", "socket", "client_path"] DEFAULT_PY_CLIENT_LOCATION
    pythonBinary := pTree.get some ["config", "socket", "python_path"] DEFAULT_PY_ENV_LOCATION }

/-- `SocketServerConfig::save`. -/
def save (c : SocketServerConfig) (pTree : Tree) : Tree :=
  let pTree := pTree.put ["config", "socket", "port"] (toString c.tcpPort)
  let pTree := pTree.put ["config", "socket", "max_connections"] (toString c.maxConnections)
  let pTree := pTree.put ["config", "socket", "use_gui"] (boolText c.spawnLocalClient)
  let pTree := pTree.put ["config", "socket", "client_path"] c.pythonClient
  pTree.put ["config", "socket", "python_path"] c.pythonBinary

/-- The members hold values of their types. -/
structure InRange (c : SocketServerConfig) : Prop where
  tcpPort : Fits 32 c.tcpPort
  maxConnections : Fits 32 c.maxConnections

theorem load_save {c : SocketServerConfig} (h : c.InRange) (pTree : Tree) :
    load (c.save pTree) = c := by
  simp (disch := decide) only [load, save, Tree.get_put_apart, Tree.get_put_path,
    readInt_toString, readBool_boolText, if_pos h.tcpPort, if_pos h.maxConnections,
    Option.getD_some]

end SocketServerConfig

def TUNER_RETUNE_TIME : Int := 225000
def DEMOD_BUFFER_TIME : Int := 10000
def SQUELCH_DBM : Int := 0
def DEFAULT_SQUELCH_MODE : Int := SQUELCH_DBM

structure DemodConfig where
  retuneDelay : Int
  demodDelay : Int
  squelchType : Int
  deriving DecidableEq, Repr

namespace DemodConfig

def new : DemodConfig :=
  { retuneDelay := TUNER_RETUNE_TIME
    demodDelay := DEMOD_BUFFER_TIME
    squelchType := DEFAULT_SQUELCH_MODE }

/-- `DemodConfig::load`. -/
def load (w : Nat) (pTree : Tree) : DemodConfig :=
  { retuneDelay := pTree.get (readInt w) ["config", "demod", "retune_delay"] TUNER_RETUNE_TIME
    demodDelay := pTree.get (readInt w) ["config", "demod", "demod_delay"] DEMOD_BUFFER_TIME
    squelchType := pTree.get (readInt 32) ["config", "demod", "squelch_mode"] DEFAULT_SQUELCH_MODE }

/-- `DemodConfig::save`. -/
def save (c : DemodConfig) (pTree : Tree) : Tree :=
  let pTree := pTree.put ["config", "demod", "retune_delay"] (toString c.retuneDelay)
  let pTree := pTree.put ["config", "demod", "demod_delay"] (toString c.demodDelay)
  pTree.put ["config", "demod", "squelch_mode"] (toString c.squelchType)

/-- The members hold values of their types. -/
structure InRange (w : Nat) (c : DemodConfig) : Prop where
  retuneDelay : Fits w c.retuneDelay
  demodDelay : Fits w c.demodDelay
  squelchType : Fits 32 c.squelchType

theorem load_save {w : Nat} {c : DemodConfig} (h : c.InRange w) (pTree : Tree) :
    load w (c.save pTree) = c := by
  simp (disch := decide) only [load, save, Tree.get_put_apart, Tree.get_put_path,
    readInt_toString, if_pos h.retuneDelay, if_pos h.demodDelay, if_pos h.squelchType,
    Option.getD_some]

end DemodConfig

def DEFAULT_RTSP_PORT : Int := 8554
def DEFAULT_RTSP_OVER_HTTP : Bool := false

structure AudioServerConfig where
  rtspPort : Int
  httpTunneling : Bool
  deriving DecidableEq, Repr

namespace AudioServerConfig

def new : AudioServerConfig :=
  { rtspPort := DEFAULT_RTSP_PORT, httpTunneling := DEFAULT_RTSP_OVER_HTTP }

/-- `AudioServerConfig::load`. -/
def load (pTree : Tree) : AudioServerConfig :=
  { rtspPort := pTree.get (readInt 32) ["config", "audio_stream", "rtsp_port"] DEFAULT_RTSP_PORT
    httpTunneling :=
      pTree.get readBool ["config", "audio_stream", "http_tunneling"] DEFAULT_RTSP_OVER_HTTP }

/-- `AudioServerConfig::save`. -/
def save (c : AudioServerConfig) (pTree : Tree) : Tree :=
  let pTree := pTree.put ["config", "audio_stream", "rtsp_port"] (toString c.rtspPort)
  pTree.put ["config", "audio_stream", "http_tunneling"] (boolText c.httpTunneling)

/-- The members hold values of their types. -/
structure InRange (c : AudioServerConfig) : Prop where
  rtspPort : Fits 32 c.rtspPort

theorem load_save {c : AudioServerConfig} (h : c.InRange) (pTree : Tree) :
    load (c.save pTree) = c := by
  simp (disch := decide) only [load, save, Tree.get_put_apart, Tree.get_put_path,
    readInt_toString, readBool_boolText, if_pos h.rtspPort, Option.getD_some]

end AudioServerConfig

/-! ## Tuners -/

def DEFAULT_RANK : Int := 0
def DEFAULT_DESC : String := "null"
def DEFAULT_DRIVER : String := "null"
def DEFAULT_PPM : Int := 0
def DEFAULT_TUNER_SAMPLE_RATE : Int := 2048000

structure TunerConfig where
  rank : Int
  descriptor : String
  driver : String
  ppmCorrection : Int
  sampleRate : Int
  deriving DecidableEq, Repr

namespace TunerConfig

def new : TunerConfig :=
  { rank := DEFAULT_RANK
    descriptor := DEFAULT_DESC
    driver := DEFAULT_DRIVER
    ppmCorrection := DEFAULT_PPM
    sampleRate := DEFAULT_TUNER_SAMPLE_RATE }

/-- The record that `TunerList::load` reads.  The default of `sample_rate` is an
`int`, the member a `long`. -/
def load (tunerPT : Tree) : TunerConfig :=
  { rank := tunerPT.get (readInt 32) ["rank"] 0
    descriptor := tunerPT.get some ["descriptor"] "null"
    driver := tunerPT.get some ["driver"] "null"
    ppmCorrection := tunerPT.get (readInt 32) ["ppm_correction"] 0
    sampleRate := tunerPT.get (readInt 32) ["sample_rate"] 2048000 }

/-- What the loop of `TunerList::save` puts into `p`. -/
def save (c : TunerConfig) (p : Tree) : Tree :=
  let p := p.put ["rank"] (toString c.rank)
  let p := p.put ["descriptor"] c.descriptor
  let p := p.put ["driver"] c.driver
  let p := p.put ["ppm_correction"] (toString c.ppmCorrection)
  p.put ["sample_rate"] (toString c.sampleRate)

/-- The members hold values of their types. -/
structure InRange (w : Nat) (c : TunerConfig) : Prop where
  rank : Fits 32 c.rank
  ppmCorrection : Fits 32 c.ppmCorrection
  sampleRate : Fits w c.sampleRate

/-- The record with a sample rate that is an `int`. -/
def narrow (c : TunerConfig) : TunerConfig :=
  { c with sampleRate := if Fits 32 c.sampleRate then c.sampleRate else 2048000 }

theorem load_save {w : Nat} {c : TunerConfig} (h : c.InRange w) (p : Tree) :
    load (c.save p) = c.narrow := by
  simp (disch := decide) only [load, save, Tree.get_put_apart, Tree.get_put_path,
    readInt_toString, if_pos h.rank, if_pos h.ppmCorrection, Option.getD_some, narrow]
  congr 1
  split <;> rfl

theorem narrow_eq_iff (c : TunerConfig) : c.narrow = c ↔ Fits 32 c.sampleRate := by
  constructor
  · intro h
    have hrate := congrArg sampleRate h
    simp only [narrow] at hrate
    by_contra hfits
    rw [if_neg hfits] at hrate
    exact hfits (hrate ▸ by decide)
  · intro h
    rw [narrow, if_pos h]

end TunerConfig

/-- `std::set<TunerConfig, TunerComparator>`. -/
abbrev TunerSet := KeySet TunerConfig.rank

namespace TunerList

/-- The records of `config.tuners`. -/
def records (pTree : Tree) : List (String × Tree) :=
  match pTree.getChild? ["config", "tuners"] with
  | none => []
  | some list => list.children

/-- `TunerList::load`; a missing list is an exception that is caught. -/
def load (pTree : Tree) (tuners : TunerSet) : TunerSet :=
  (records pTree).foldl (fun tuners v => tuners.insert (TunerConfig.load v.2)) tuners

/-- The loop of `TunerList::save`; `p` goes from one record to the next. -/
def saveLoop : Tree → List TunerConfig → List Tree
  | _, [] => []
  | p, c :: cs => c.save p :: saveLoop (c.save p) cs

/-- `TunerList::save`.  `erase` takes the whole path for a name. -/
def save (tuners : TunerSet) (pTree : Tree) : Tree :=
  let tunerList := Tree.array (saveLoop .empty tuners.toList)
  (pTree.erase "config.tuners").putChild ["config", "tuners"] tunerList

theorem load_empty (pTree : Tree) :
    load pTree .empty = KeySet.ofList ((records pTree).map fun v => TunerConfig.load v.2) := by
  rw [KeySet.ofList, List.foldl_map]
  rfl

theorem records_save (tuners : TunerSet) (pTree : Tree) :
    records (save tuners pTree) = (saveLoop .empty tuners.toList).map fun t => ("", t) := by
  simp only [records, save, Tree.getChild?_putChild, Tree.children_array]

theorem load_saveLoop {w : Nat} {cs : List TunerConfig} (h : ∀ c ∈ cs, c.InRange w) (p : Tree) :
    (saveLoop p cs).map TunerConfig.load = cs.map TunerConfig.narrow := by
  induction cs generalizing p with
  | nil => rfl
  | cons c cs ih =>
    have hc := TunerConfig.load_save (h c (List.mem_cons_self ..)) p
    have hcs := ih (fun d hd => h d (List.mem_cons_of_mem c hd)) (c.save p)
    simp only [saveLoop, List.map_cons, hc, hcs]

/-- **What a fresh list loads.** -/
theorem load_save {w : Nat} {tuners : TunerSet} (h : ∀ c ∈ tuners, c.InRange w) (pTree : Tree) :
    (load (save tuners pTree) .empty).toList = tuners.toList.map TunerConfig.narrow := by
  have hrecords : (records (save tuners pTree)).map (fun v => TunerConfig.load v.2) =
      tuners.toList.map TunerConfig.narrow := by
    rw [records_save, List.map_map]
    exact load_saveLoop h .empty
  rw [load_empty, hrecords]
  apply KeySet.toList_ofList
  rw [List.pairwise_map]
  exact tuners.sorted

/-- The tuners come back if their sample rates are `int`s, and only then. -/
theorem load_save_iff {w : Nat} {tuners : TunerSet} (h : ∀ c ∈ tuners, c.InRange w)
    (pTree : Tree) :
    load (save tuners pTree) .empty = tuners ↔ ∀ c ∈ tuners, Fits 32 c.sampleRate := by
  have hlist : load (save tuners pTree) .empty = tuners ↔
      tuners.toList.map TunerConfig.narrow = tuners.toList.map id := by
    rw [List.map_id, ← load_save h pTree]
    constructor
    · intro heq
      rw [heq]
    · exact KeySet.ext
  rw [hlist, List.map_inj_left]
  simp only [id_eq, TunerConfig.narrow_eq_iff, KeySet.mem_toList]

/-- Saving the tuners leaves the rest of the file alone. -/
theorem get_save {α : Type} (read : String → Option α) (fallback : α) {path : List String}
    (h : Tree.Apart ["config", "tuners"] path = true) (hname : path.head? ≠ some "config.tuners")
    (tuners : TunerSet) (pTree : Tree) :
    (save tuners pTree).get read path fallback = pTree.get read path fallback := by
  cases path with
  | nil => cases h
  | cons name path =>
    have hne : name ≠ "config.tuners" := fun heq => hname (congrArg some heq)
    rw [save, Tree.get_putChild_apart _ _ h, Tree.get_erase _ _ hne]

end TunerList

/-! ## Saving and loading -/

structure Configuration where
  generalConfig : GeneralConfig
  socketConfig : SocketServerConfig
  demodConfig : DemodConfig
  rtspConfig : AudioServerConfig
  tunerList : TunerSet
  pt : Tree

namespace Configuration

def new : Configuration :=
  { generalConfig := .new
    socketConfig := .new
    demodConfig := .new
    rtspConfig := .new
    tunerList := .empty
    pt := .empty }

/-- `Configuration::loadAll`. -/
def loadAll (w : Nat) (c : Configuration) : Configuration :=
  { c with
    generalConfig := .load c.pt
    socketConfig := .load c.pt
    demodConfig := .load w c.pt
    rtspConfig := .load c.pt
    tunerList := TunerList.load c.pt c.tunerList }

/-- `Configuration::saveAll`. -/
def saveAll (c : Configuration) : Configuration :=
  let (generalConfig, pt) := c.generalConfig.save c.pt
  let pt := c.socketConfig.save pt
  let pt := c.demodConfig.save pt
  let pt := c.rtspConfig.save pt
  let pt := TunerList.save c.tunerList pt
  { c with generalConfig, pt }

/-- A fresh configuration that read the tree. -/
def restart (w : Nat) (pt : Tree) : Configuration := ({ new with pt } : Configuration).loadAll w

/-- The settings in memory are the same. -/
structure SameSettings (c d : Configuration) : Prop where
  generalConfig : c.generalConfig = d.generalConfig
  socketConfig : c.socketConfig = d.socketConfig
  demodConfig : c.demodConfig = d.demodConfig
  rtspConfig : c.rtspConfig = d.rtspConfig
  tunerList : c.tunerList = d.tunerList

/-- The members hold values of their types. -/
structure InRange (w : Nat) (c : Configuration) : Prop where
  socketConfig : c.socketConfig.InRange
  demodConfig : c.demodConfig.InRange w
  rtspConfig : c.rtspConfig.InRange
  tunerList : ∀ t ∈ c.tunerList, t.InRange w

/-- The defaults are values of their types. -/
theorem inRange_new {w : Nat} (hw : 32 ≤ w) : new.InRange w := by
  refine ⟨⟨by decide, by decide⟩, ⟨?_, ?_, by decide⟩, ⟨by decide⟩, ?_⟩
  · exact fits_mono hw (by decide)
  · exact fits_mono hw (by decide)
  · intro t ht
    cases ht

/-- A fresh configuration has the settings of `c` when each section loads them. -/
theorem sameSettings_restart_iff {w : Nat} {pt : Tree} {c : Configuration} :
    (restart w pt).SameSettings c ↔
      GeneralConfig.load pt = c.generalConfig ∧ SocketServerConfig.load pt = c.socketConfig ∧
        DemodConfig.load w pt = c.demodConfig ∧ AudioServerConfig.load pt = c.rtspConfig ∧
          TunerList.load pt .empty = c.tunerList := by
  constructor
  · rintro ⟨hgeneral, hsocket, hdemod, hrtsp, htuners⟩
    exact ⟨hgeneral, hsocket, hdemod, hrtsp, htuners⟩
  · rintro ⟨hgeneral, hsocket, hdemod, hrtsp, htuners⟩
    exact ⟨hgeneral, hsocket, hdemod, hrtsp, htuners⟩

/-! What each section loads from the saved tree; the other sections are elsewhere. -/

theorem general_saveAll (c : Configuration) :
    GeneralConfig.load c.saveAll.pt = GeneralConfig.load c.pt := by
  simp (disch := decide) only [GeneralConfig.load, saveAll, GeneralConfig.save,
    TunerList.get_save, AudioServerConfig.save, DemodConfig.save, SocketServerConfig.save,
    Tree.get_put_apart]

theorem socket_saveAll {w : Nat} {c : Configuration} (h : c.InRange w) :
    SocketServerConfig.load c.saveAll.pt = c.socketConfig := by
  have hrest : SocketServerConfig.load c.saveAll.pt =
      SocketServerConfig.load (c.socketConfig.save c.pt) := by
    simp (disch := decide) only [SocketServerConfig.load, saveAll, GeneralConfig.save,
      TunerList.get_save, AudioServerConfig.save, DemodConfig.save, Tree.get_put_apart]
  rw [hrest, SocketServerConfig.load_save h.socketConfig]

theorem demod_saveAll {w : Nat} {c : Configuration} (h : c.InRange w) :
    DemodConfig.load w c.saveAll.pt = c.demodConfig := by
  have hrest : DemodConfig.load w c.saveAll.pt =
      DemodConfig.load w (c.demodConfig.save (c.socketConfig.save c.pt)) := by
    simp (disch := decide) only [DemodConfig.load, saveAll, GeneralConfig.save,
      TunerList.get_save, AudioServerConfig.save, Tree.get_put_apart]
  rw [hrest, DemodConfig.load_save h.demodConfig]

theorem rtsp_saveAll {w : Nat} {c : Configuration} (h : c.InRange w) :
    AudioServerConfig.load c.saveAll.pt = c.rtspConfig := by
  have hrest : AudioServerConfig.load c.saveAll.pt = AudioServerConfig.load
      (c.rtspConfig.save (c.demodConfig.save (c.socketConfig.save c.pt))) := by
    simp (disch := decide) only [AudioServerConfig.load, saveAll, GeneralConfig.save,
      TunerList.get_save]
  rw [hrest, AudioServerConfig.load_save h.rtspConfig]

/-- **Saving and loading are inverse** if and only if the tree held the log
verbosity before, and every sample rate is an `int`. -/
theorem saved_iff {w : Nat} (c : Configuration) (h : c.InRange w) :
    (c.saveAll.SameSettings c ∧ (restart w c.saveAll.pt).SameSettings c) ↔
      c.pt.get (readInt 32) ["config", "general", "log_verbosity"] DEFAULT_LOGFILE_VERBOSITY =
          c.generalConfig.logfileVerbosity ∧
        ∀ t ∈ c.tunerList, Fits 32 t.sampleRate := by
  have hgeneral : c.pt.get (readInt 32) ["config", "general", "log_verbosity"]
      DEFAULT_LOGFILE_VERBOSITY = c.generalConfig.logfileVerbosity ↔
        GeneralConfig.load c.pt = c.generalConfig := by
    constructor
    · intro heq
      rw [GeneralConfig.load, heq]
    · intro heq
      rw [← heq, GeneralConfig.load]
  have htuners : TunerList.load c.saveAll.pt .empty = c.tunerList ↔
      ∀ t ∈ c.tunerList, Fits 32 t.sampleRate := TunerList.load_save_iff h.tunerList _
  rw [hgeneral, ← htuners, sameSettings_restart_iff]
  constructor
  · rintro ⟨hsave, -, -, -, -, hset⟩
    exact ⟨hsave.generalConfig, hset⟩
  · rintro ⟨hverbosity, hset⟩
    refine ⟨⟨hverbosity, rfl, rfl, rfl, rfl⟩, ?_⟩
    exact ⟨(general_saveAll c).trans hverbosity, socket_saveAll h, demod_saveAll h,
      rtsp_saveAll h, hset⟩

/-- A configuration with one tuner, over a fresh tree. -/
def oneTuner (logfileVerbosity : Int) : Configuration :=
  { new with
    generalConfig := { logfileVerbosity }
    tunerList := KeySet.ofList
      [{ TunerConfig.new with descriptor := "Generic RTL2832U", driver := "rtlsdr" }] }

theorem inRange_oneTuner (logfileVerbosity : Int) : (oneTuner logfileVerbosity).InRange 64 := by
  have hnew : new.InRange 64 := inRange_new (by decide)
  refine ⟨hnew.socketConfig, hnew.demodConfig, hnew.rtspConfig, ?_⟩
  intro t ht
  obtain rfl := List.mem_singleton.mp ht
  exact ⟨by decide, by decide, by decide⟩

theorem saved_oneTuner : (oneTuner 0).saveAll.SameSettings (oneTuner 0) ∧
    (restart 64 (oneTuner 0).saveAll.pt).SameSettings (oneTuner 0) := by
  refine (saved_iff (oneTuner 0) (inRange_oneTuner 0)).mpr ⟨by decide +kernel, ?_⟩
  intro t ht
  obtain rfl := List.mem_singleton.mp ht
  decide

/-- Another log verbosity is neither kept nor saved. -/
theorem verbosity_lost : (oneTuner 5).InRange 64 ∧
    ¬(oneTuner 5).saveAll.SameSettings (oneTuner 5) ∧
      (oneTuner 5).saveAll.generalConfig.logfileVerbosity = 0 ∧
      ¬(restart 64 (oneTuner 5).saveAll.pt).SameSettings (oneTuner 5) := by
  have hread : (oneTuner 5).saveAll.generalConfig.logfileVerbosity = 0 := by decide +kernel
  have hload : GeneralConfig.load (oneTuner 5).saveAll.pt ≠ (oneTuner 5).generalConfig := by
    rw [general_saveAll]
    decide +kernel
  refine ⟨inRange_oneTuner 5, ?_, hread, ?_⟩
  · intro h
    have hsame := congrArg GeneralConfig.logfileVerbosity h.generalConfig
    rw [hread] at hsame
    exact absurd hsame (by decide)
  · intro h
    exact hload h.generalConfig

end Configuration

end PiScan.Common

import UnknownTunnel.Admin.Console

/-!
# Files of the administration commands

Configurations and secrets are replaced through a temporary file that is
renamed. A failure before the renaming leaves the file as it was; a failure of
the last change of mode comes after it.

## Implementation notes

Files are found by their absolute cleaned paths, without links. The outcomes of
the operating system and of the commands run are parameters, and so is the
encoding of configurations.
-/

namespace UnknownTunnel.Admin

open Foundation ConfigFile

/-- What the commands depend on besides the answers and the files. -/
structure System where
  lib : Library
  configDir : Bytes
  workDir : Bytes
  root : Bool
  encode : Config → Bytes
  decode : Bytes → Option Config
  unreadable : Bytes → Bool
  directory : Bytes → Bool
  statFails : Bytes → Bool
  makesConfigDir : Bool
  random : Option Bytes
  secretIO : FileOp → Bool
  saveIO : FileOp → Bool
  active : Bool
  reloads : Bool
  starts : Bool
  restarts : Bool

variable (sys : System)

/-! ## Reading -/

/-- The absolute path that a path stands for. -/
def locate (path : Bytes) : Bytes :=
  if path.head? = some 47 then Text.clean path else Text.clean (sys.workDir ++ [47] ++ path)

/-- `os.ReadFile`, where a file may be unreadable. -/
def readFile (path : Bytes) (files : Table Bytes Bytes) : Option Bytes :=
  if sys.unreadable (locate sys path) then none else Finmap.lookup (locate sys path) files

/-- What `os.Stat` reports. -/
inductive Stat
  | found
  | missing
  | failed
  deriving DecidableEq

/-- `os.Stat`. -/
def stat (path : Bytes) (files : Table Bytes Bytes) : Stat :=
  if sys.statFails (locate sys path) then .failed
  else if sys.directory (locate sys path) ∨ (Finmap.lookup (locate sys path) files).isSome then
    .found
  else .missing

/-- `Load`. -/
def load (path : Bytes) (files : Table Bytes Bytes) : Except LoadError Config :=
  match readFile sys path files with
  | none => .error .read
  | some data =>
      match sys.decode data with
      | none => .error .parse
      | some cfg =>
          let (errors, normal) := cfg.validate sys.lib
          if errors = [] then .ok normal else .error (.invalid errors)

/-- What is wrong with the length of a trimmed secret. -/
def secretLength (secret : Bytes) : Option SecretError :=
  if secret.length < 32 then some .short
  else if 4096 < secret.length then some .large
  else none

/-- The error of `ReadSecret`, if any. -/
def readSecret (path : Bytes) (files : Table Bytes Bytes) : Option SecretError :=
  match readFile sys path files with
  | none => some .read
  | some data => secretLength (Text.trimSpace data)

/-- The path of the configuration of an instance. -/
def configPath (instanceName : Bytes) : Bytes :=
  Text.join sys.configDir (instanceName ++ ofString ".json")

/-- The instance whose configuration the file at an absolute path is. -/
def instanceOf (path : Bytes) : Option Bytes :=
  let base := (path.splitOn 47).getLastD []
  let name := base.take (base.length - 5)
  if identifierRE name ∧ locate sys (configPath sys name) = path then some name else none

/-- Another instance's configuration uses an interface. -/
def interfaceUsed (excluded name : Bytes) (files : Table Bytes Bytes) : Prop :=
  ∃ path ∈ files.keys, ∃ other ∈ instanceOf sys path, other ≠ excluded ∧
    ∃ cfg ∈ (load sys (configPath sys other) files).toOption, cfg.l3.interface = name

instance (excluded name : Bytes) (files : Table Bytes Bytes) :
    Decidable (interfaceUsed sys excluded name files) :=
  inferInstanceAs (Decidable (∃ path ∈ files.keys, _))

/-- The first interface name that no other configuration uses. -/
def nextInterface (excluded : Bytes) (files : Table Bytes Bytes) : Bytes :=
  let names := (List.range 1000).map fun i => ofString "utun" ++ Text.itoa i
  (names.find? fun name => ¬ interfaceUsed sys excluded name files).getD (ofString "utun0")

/-! ## Writing -/

/-- The calls up to the renaming. -/
def beforeRename : List FileOp :=
  [.mkdirAll, .createTemp, .chmodTemp, .write, .sync, .close, .rename]

/-- All calls up to the renaming succeed. -/
def Renames (io : FileOp → Bool) : Prop := ∀ op ∈ beforeRename, io op = true

instance (io : FileOp → Bool) : Decidable (Renames io) :=
  inferInstanceAs (Decidable (∀ op ∈ beforeRename, io op = true))

/-- A file is replaced. `saves` tells the configuration from a secret. -/
def replaceFile (io : FileOp → Bool) (saves : Bool) (path data : Bytes) : Dialogue Unit := do
  match beforeRename.find? fun op => !io op with
  | some op => stop (.file op)
  | none =>
      modify fun h =>
        { h with files := h.files.insert (locate sys path) data, saved := h.saved || saves }
      if io .chmod then pure () else stop (.file .chmod)

/-- The error for a secret that is not to be replaced. It is looked for once its
directory has been made. -/
def secretInTheWay (path : Bytes) (files : Table Bytes Bytes) : Option AdminError :=
  if sys.secretIO .mkdirAll = false then none
  else
    match stat sys path files with
    | .found => some .secretExists
    | .failed => some .stat
    | .missing => none

/-- `WriteSecret`. -/
def writeSecret (path secret : Bytes) (overwrite : Bool) : Dialogue Unit := do
  match secretLength (Text.trimSpace secret) with
  | some error => stop (.secret error)
  | none =>
      let h ← get
      match if overwrite then none else secretInTheWay sys path h.files with
      | some error => stop error
      | none => replaceFile sys sys.secretIO false path (Text.trimSpace secret ++ [10])

/-- `Save`. -/
def save (path : Bytes) (cfg : Config) : Dialogue Unit :=
  let (errors, normal) := cfg.validate sys.lib
  if errors = [] then replaceFile sys sys.saveIO true path (sys.encode normal ++ [10])
  else stop (.invalid errors)

/-! ### What reading gives -/

variable {sys}

theorem lookup_of_readFile {path data : Bytes} {files : Table Bytes Bytes}
    (h : readFile sys path files = some data) :
    Finmap.lookup (locate sys path) files = some data := by
  unfold readFile at h
  split at h
  · cases h
  · exact h

/-- What is loaded is the normal form of what was decoded and accepted. -/
theorem load_eq_ok_iff {path : Bytes} {files : Table Bytes Bytes} {cfg : Config} :
    load sys path files = .ok cfg ↔
      ∃ data raw, readFile sys path files = some data ∧ sys.decode data = some raw ∧
        raw.Accepted sys.lib ∧ cfg = raw.normalize sys.lib := by
  constructor
  · intro h
    unfold load at h
    split at h
    · cases h
    · rename_i data hdata
      split at h
      · cases h
      · rename_i raw hraw
        simp only at h
        split at h
        · rename_i haccepted
          cases h
          exact ⟨data, raw, hdata, hraw, haccepted, rfl⟩
        · cases h
  · rintro ⟨data, raw, hdata, hraw, haccepted, rfl⟩
    have herrors : (raw.validate sys.lib).1 = [] := haccepted
    simp only [load, hdata, hraw, herrors, if_true]
    rfl

theorem valid_of_load {path : Bytes} {files : Table Bytes Bytes} {cfg : Config}
    (h : load sys path files = .ok cfg) : cfg.Valid sys.lib := by
  obtain ⟨data, raw, -, -, haccepted, rfl⟩ := load_eq_ok_iff.mp h
  exact Config.accepted_iff.mp haccepted

/-! ### What writing does -/

/-- The host after a file has been renamed into place. -/
def Host.replaced (h : Host) (saves : Bool) (path data : Bytes) : Host :=
  { h with files := h.files.insert path data, saved := h.saved || saves }

theorem replaceFile_of_renames {io : FileOp → Bool} (hio : Renames io) (saves : Bool)
    (path data : Bytes) (h : Host) :
    replaceFile sys io saves path data h =
      if io .chmod then .ok () (h.replaced saves (locate sys path) data)
      else .error (.error (.file .chmod)) (h.replaced saves (locate sys path) data) := by
  have hfind : (beforeRename.find? fun op => !io op) = none := by
    rw [List.find?_eq_none]
    intro op hop
    simp [hio op hop]
  unfold replaceFile
  rw [hfind]
  cases hchmod : io .chmod <;> rfl

/-- A failure before the renaming leaves everything as it was. -/
theorem replaceFile_of_not_renames {io : FileOp → Bool} (hio : ¬ Renames io) (saves : Bool)
    (path data : Bytes) (h : Host) :
    ∃ error, replaceFile sys io saves path data h = .error (.error error) h := by
  cases hfind : beforeRename.find? fun op => !io op with
  | none =>
      rw [List.find?_eq_none] at hfind
      exact absurd (fun op hop => by simpa using hfind op hop) hio
  | some op =>
      refine ⟨.file op, ?_⟩
      unfold replaceFile
      rw [hfind]
      rfl

/-- `Save` replaces the configuration file. -/
def Saves (sys : System) (cfg : Config) : Prop := cfg.Accepted sys.lib ∧ Renames sys.saveIO

theorem save_of_accepted {cfg : Config} (h : cfg.Accepted sys.lib) (path : Bytes) :
    save sys path cfg =
      replaceFile sys sys.saveIO true path (sys.encode (cfg.normalize sys.lib) ++ [10]) :=
  if_pos h

theorem save_of_saves {cfg : Config} (hsaves : Saves sys cfg) (path : Bytes) (h : Host) :
    (finalState (save sys path cfg h)).saved = true := by
  rw [save_of_accepted hsaves.1, replaceFile_of_renames hsaves.2]
  split <;> simp [finalState, Host.replaced]

theorem save_of_not_saves {cfg : Config} (hsaves : ¬ Saves sys cfg) (path : Bytes) (h : Host) :
    ∃ error, save sys path cfg h = .error (.error error) h := by
  by_cases haccepted : cfg.Accepted sys.lib
  · rw [save_of_accepted haccepted]
    exact replaceFile_of_not_renames (fun hio => hsaves ⟨haccepted, hio⟩) _ _ _ _
  · have hsave : save sys path cfg = stop (.invalid (cfg.validate sys.lib).1) := if_neg haccepted
    rw [hsave]
    exact ⟨_, rfl⟩

end UnknownTunnel.Admin

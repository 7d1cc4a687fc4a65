import Mathlib.Data.Finset.Sort
import Mathlib.Data.Finset.Union
import Mathlib.Data.Finset.Option
import UnknownTunnel.Admin.Commands
import UnknownTunnel.Foundation.Paths
import UnknownTunnel.Foundation.Trace

/-!
# The commands and the control panel

All commands of the administration program, with a record of what they do to
configuration files and services. `Setup` and `Edit` without their record are
the programs of `Admin/Commands`.

## Implementation notes

The directory of the configurations lists the files of the host, and its name
has no characters that have a meaning in patterns. What is done to files other
than configurations is not recorded. A run of the menu may see other outcomes
of the operating system in every round.
-/

namespace UnknownTunnel.Admin.Panel

open Foundation ConfigFile

/-! ## Actions -/

/-- The actions that `Service` supports. -/
inductive ServiceAction
  | start
  | stop
  | restart
  | enable
  | disable
  | status
  deriving DecidableEq

/-- The words of the command line. -/
def ServiceAction.text : ServiceAction → Bytes
  | start => ofString "start"
  | stop => ofString "stop"
  | restart => ofString "restart"
  | enable => ofString "enable"
  | disable => ofString "disable"
  | status => ofString "status"

def ServiceAction.all : List ServiceAction := [start, stop, restart, enable, disable, status]

/-- The action that a word names. -/
def serviceAction (action : Bytes) : Option ServiceAction :=
  ServiceAction.all.find? fun a => a.text = action

/-- What `systemctl` is run for. -/
inductive Verb
  | service (action : ServiceAction)
  | enableNow
  | disableNow
  | daemonReload
  | isActive
  | isEnabled
  deriving DecidableEq

/-- What a command does to configurations and services. The files of the
instances of a survey may be read until one is found. -/
inductive Action
  | makeConfigDir
  | stat (path : Bytes)
  | read (path : Bytes)
  | save (path : Bytes)
  | remove (path : Bytes)
  | survey (instances : List Bytes)
  | systemctl (verb : Verb) (unit : Option Bytes)
  | journalctl (unit : Bytes) (lines : Int) (follow : Bool)
  deriving DecidableEq

/-- The outcomes that the other commands depend on besides: which files can be
removed, and how the programs end that are run. -/
structure Environment extends System where
  removes : Bytes → Bool
  exits : ServiceAction → Option Nat
  journal : Bool

/-- A unit that is not running is no error of its status. -/
def Environment.completes (env : Environment) : ServiceAction → Bool
  | .restart => env.restarts
  | .status => env.exits .status = some 0 ∨ env.exits .status = some 3
  | action => env.exits action = some 0

/-- A program that records what it does to configurations and services. -/
abbrev Command (α : Type) := EStateM Stop (Recorded Host Action) α

def fail {α : Type} (error : AdminError) : Command α := throw (.error error)

/-- A command whose errors are printed. -/
def attempt (m : Command Unit) : Command Unit := fun s =>
  match m s with
  | .ok _ t => .ok () t
  | .error (.error _) t => .ok () t
  | .error .loops t => .error .loops t

def unit (instanceName : Bytes) : Bytes :=
  ofString "unknowntunnel@" ++ instanceName ++ ofString ".service"

/-! ## Instances -/

section Instances

variable (sys : System)

/-- The names of the configurations in the directory, sorted. -/
def instances (files : Table Bytes Bytes) : List Bytes :=
  (files.keys.biUnion fun path => (instanceOf sys path).toFinset).sort (· ≤ ·)

/-- The configurations that are looked at apart from an excluded one. -/
def others (excluded : Bytes) (files : Table Bytes Bytes) : List Bytes :=
  (instances sys files).filter (· ≠ excluded)

/-- Another configuration that can be loaded names a secret. -/
def secretReferencedElsewhere (path excluded : Bytes) (files : Table Bytes Bytes) : Prop :=
  ∃ name ∈ others sys excluded files,
    ∃ cfg ∈ (load sys (configPath sys name) files).toOption,
      Text.clean cfg.auth.secretFile = Text.clean path

instance (path excluded : Bytes) (files : Table Bytes Bytes) :
    Decidable (secretReferencedElsewhere sys path excluded files) :=
  inferInstanceAs (Decidable (∃ name ∈ others sys excluded files, _))

/-- The instance that an answer selects, by its number or its name. -/
def selected (names : List Bytes) (value : Bytes) : Option Bytes :=
  match inRange 1 names.length value with
  | some index => names[index.toNat - 1]?
  | none => if identifierRE value ∧ value ∈ names then some value else none

variable {sys}

theorem element_of_identifier {name : Bytes} (h : identifierRE name = true) :
    Text.Element (name ++ ofString ".json") := by
  have hlength : 5 ≤ (name ++ ofString ".json").length := by
    rw [List.length_append]
    exact Nat.le_add_left 5 _
  constructor
  · intro hslash
    rcases List.mem_append.mp hslash with hslash | hslash
    · exact notMem_of_identifier h (by decide) hslash
    · exact absurd hslash (by decide)
  · intro heq
    rw [heq] at hlength
    exact absurd hlength (by decide)
  · intro heq
    rw [heq] at hlength
    exact absurd hlength (by decide)
  · intro heq
    rw [heq] at hlength
    exact absurd hlength (by decide)

/-- The configuration of an identifier lies in the directory itself. -/
theorem dir_configPath {name : Bytes} (h : identifierRE name = true) :
    Text.dir (configPath sys name) = Text.clean sys.configDir :=
  (element_of_identifier h).dir_join _

theorem instanceOf_eq_some_iff {path name : Bytes} :
    instanceOf sys path = some name ↔
      identifierRE name = true ∧ locate sys (configPath sys name) = path := by
  constructor
  · intro h
    simp only [instanceOf] at h
    split at h
    · rename_i hmatch
      cases h
      exact hmatch
    · cases h
  · rintro ⟨hname, rfl⟩
    have helement := element_of_identifier hname
    have hends : Text.Ends (name ++ ofString ".json") (locate sys (configPath sys name)) := by
      have hjoin := helement.ends_join sys.configDir
      unfold locate
      split
      · exact helement.ends_clean hjoin
      · exact helement.ends_clean (hjoin.append _)
    have hbase := hends.getLastD_splitOn helement.noSlash
    have hlength : (name ++ ofString ".json").length - 5 = name.length := by
      rw [List.length_append]
      exact Nat.add_sub_cancel _ 5
    simp only [instanceOf, hbase, hlength, List.take_left, hname, and_self, if_true]

theorem mem_instances_iff {files : Table Bytes Bytes} {name : Bytes} :
    name ∈ instances sys files ↔
      identifierRE name = true ∧ locate sys (configPath sys name) ∈ files := by
  simp only [instances, Finset.mem_sort, Finset.mem_biUnion, Option.mem_toFinset, Option.mem_def,
    instanceOf_eq_some_iff, Finmap.mem_keys]
  constructor
  · rintro ⟨path, hpath, hname, rfl⟩
    exact ⟨hname, hpath⟩
  · rintro ⟨hname, hfile⟩
    exact ⟨_, hfile, hname, rfl⟩

end Instances

/-! ## The commands -/

section Commands

variable (env : Environment)

/-- A configuration is read if there is a file that can be read. -/
def loadConfig (path : Bytes) : Command Config := do
  let h ← perform get
  recordIf ((readFile env.toSystem path h.files).isSome) (.read path)
  match load env.toSystem path h.files with
  | .error error => fail (.load error)
  | .ok cfg => pure cfg

/-- A configuration is written once it is accepted. -/
def saveConfig (path : Bytes) (cfg : Config) : Command Unit := do
  recordIf (cfg.Accepted env.lib) (.save path)
  perform (save env.toSystem path cfg)

/-- `systemctl` is run, with its output on the terminal. -/
def runSystemctl (verb : Verb) (name : Option Bytes) (succeeds : Bool) : Command Unit := do
  record (.systemctl verb name)
  if succeeds then pure () else fail .systemctl

/-- `Service`: the name, the configuration and the action are checked in this order. -/
def service (instanceName action : Bytes) : Command Unit := do
  perform (requireRoot env.toSystem)
  if identifierRE instanceName = false then fail .instanceName
  else
    record (.stat (configPath env.toSystem instanceName))
    let h ← perform get
    if stat env.toSystem (configPath env.toSystem instanceName) h.files ≠ .found then
      fail .noConfiguration
    else
      match serviceAction action with
      | none => fail .unsupportedAction
      | some a => runSystemctl (.service a) (some (unit instanceName)) (env.completes a)

/-- `Logs`, with a hundred lines unless a positive number is given. -/
def logs (instanceName : Bytes) (lines : Int) (follow : Bool) : Command Unit :=
  if identifierRE instanceName = false then fail .instanceName
  else do
    record (.journalctl (unit instanceName) (if lines ≤ 0 then 100 else lines) follow)
    if env.journal then pure () else fail .journalctl

/-- `Show`. -/
def showConfig (instanceName : Bytes) : Command Unit := do
  let _ ← loadConfig env (configPath env.toSystem instanceName)
  pure ()

/-- What `os.Remove` reports. -/
inductive Removal
  | removed
  | missing
  | failed
  deriving DecidableEq

/-- A host without the file at an absolute path. -/
def without (path : Bytes) (h : Host) : Host := { h with files := h.files.erase path }

/-- `os.Remove`. -/
def removeFile (path : Bytes) : Dialogue Removal := fun h =>
  if (Finmap.lookup (locate env.toSystem path) h.files).isNone then .ok .missing h
  else if env.removes (locate env.toSystem path) then
    .ok .removed (without (locate env.toSystem path) h)
  else .ok .failed h

/-- A configuration that is missing counts as removed. -/
def removeConfig (path : Bytes) : Command Unit := do
  record (.remove path)
  let removal ← perform (removeFile env path)
  if removal = .failed then fail .remove else pure ()

/-- `Delete` after the configuration is removed. -/
def offerSecret (instanceName : Bytes) (force : Bool) (cfg : Config) : Command Unit := do
  let h ← perform get
  record (.survey (others env.toSystem instanceName h.files))
  let removeSecret ← perform (askIf
    (¬ secretReferencedElsewhere env.toSystem cfg.auth.secretFile instanceName h.files ∧
      force = false)
    (yesNo env.lib false) false)
  if removeSecret then
    -- a secret that cannot be removed is no error
    let _ ← perform (removeFile env cfg.auth.secretFile)
    pure ()
  else pure ()

/-- `Delete` once it is confirmed. -/
def deleteConfirmed (instanceName : Bytes) (force : Bool) (cfg : Config) : Command Unit := do
  record (.systemctl .disableNow (some (unit instanceName)))
  removeConfig env (configPath env.toSystem instanceName)
  offerSecret env instanceName force cfg

/-- `Delete`, which asks unless it is forced. -/
def delete (instanceName : Bytes) (force : Bool) : Command Unit := do
  perform (requireRoot env.toSystem)
  let cfg ← loadConfig env (configPath env.toSystem instanceName)
  let confirmed ← perform (askIf (force = false) (yesNo env.lib false) true)
  if confirmed = false then pure () else deleteConfirmed env instanceName force cfg

/-! ### Creating and editing -/

/-- `configureL3`, which looks at other configurations for a free interface. -/
def configureL3Recorded (instanceName : Bytes) (cfg : Config) : Command Config := do
  let enabled ← perform (yesNo env.lib cfg.l3.enabled)
  if enabled = false then pure { cfg with l3 := noL3 }
  else
    let h ← perform get
    recordIf (cfg.l3.interface = []) (.survey (others env.toSystem instanceName h.files))
    perform (enabledL3 env.toSystem instanceName cfg)

/-- The wizard. -/
def wizardRecorded (instanceName : Bytes) (current : Option Config) :
    Command (Config × Bytes) := do
  let cfg ← perform (opening env.toSystem instanceName current)
  let cfg ← perform (configureTransport env.toSystem cfg)
  let cfg ← configureL3Recorded env instanceName cfg
  perform do
    let cfg ← configureServices env.toSystem cfg
    let cfg ← configureForwards env.toSystem cfg
    let (cfg, shown) ← configureSecret env.toSystem instanceName cfg current.isSome
    let (errors, normal) := cfg.validate env.lib
    if errors = [] then pure (normal, shown) else stop (.generatedInvalid errors)

/-- `Setup` after saving. -/
def setupService (instanceName : Bytes) : Command Unit := do
  runSystemctl .daemonReload none env.reloads
  let start ← perform (yesNo env.lib true)
  if start then
    record (.systemctl .enableNow (some (unit instanceName)))
    -- a service that does not start is reported with its status, and is no error
    if env.starts then pure ()
    else attempt (service env instanceName (ofString "status"))
  else pure ()

/-- There must not be a configuration already. -/
def checkFree (name : Bytes) : Command Bytes := do
  record (.stat (configPath env.toSystem name))
  let h ← perform get
  match stat env.toSystem (configPath env.toSystem name) h.files with
  | .found => fail (.exists name)
  | .failed => fail .stat
  | .missing => pure name

/-- `Setup` before the wizard. -/
def beginSetupRecorded (instanceName : Bytes) : Command Bytes := do
  perform (requireRoot env.toSystem)
  if env.makesConfigDir = false then fail .configDir
  else
    record .makeConfigDir
    let name ← perform
      (askIf (instanceName = []) (promptIdentifier (ofString "tunnel1")) instanceName)
    if identifierRE name = false then fail .instanceName else checkFree env name

/-- `Setup` with its record. -/
def setup (instanceName : Bytes) : Command Unit := do
  let name ← beginSetupRecorded env instanceName
  let (cfg, _) ← wizardRecorded env name none
  saveConfig env (configPath env.toSystem name) cfg
  setupService env name

/-- `Edit` after saving. -/
def editService (instanceName : Bytes) : Command Unit := do
  if env.active then
    let again ← perform (yesNo env.lib true)
    if again then service env instanceName (ofString "restart") else pure ()
  else
    let start ← perform (yesNo env.lib false)
    if start then runSystemctl .enableNow (some (unit instanceName)) env.starts else pure ()

/-- `Edit` before the wizard. -/
def beginEditRecorded (instanceName : Bytes) : Command Config := do
  perform (requireRoot env.toSystem)
  loadConfig env (configPath env.toSystem instanceName)

/-- `Edit` with its record. -/
def edit (instanceName : Bytes) : Command Unit := do
  let current ← beginEditRecorded env instanceName
  record (.systemctl .isActive (some (unit instanceName)))
  let (cfg, _) ← wizardRecorded env instanceName (some current)
  saveConfig env (configPath env.toSystem instanceName) cfg
  editService env instanceName

/-! ### Commands about all instances -/

def recordAll : List Action → Command Unit
  | [] => pure ()
  | action :: rest => do
      record action
      recordAll rest

/-- `List`: every configuration is read and its unit is asked for its state. -/
def list : Command Unit := do
  let h ← perform get
  let names := instances env.toSystem h.files
  record (.survey names)
  recordAll (names.flatMap fun name =>
    [.systemctl .isActive (some (unit name)), .systemctl .isEnabled (some (unit name))])

/-- The configuration and the secret of an instance can be loaded. -/
def usable (files : Table Bytes Bytes) (name : Bytes) : Bool :=
  match load env.toSystem (configPath env.toSystem name) files with
  | .error _ => false
  | .ok cfg => (readSecret env.toSystem cfg.auth.secretFile files).isNone

/-- `ValidateAll`: the instances that are not usable make the error. -/
def validateAll : Command Unit := do
  let h ← perform get
  let names := instances env.toSystem h.files
  record (.survey names)
  let failed := names.filter fun name => !usable env h.files name
  if failed = [] then pure () else fail (.invalidConfigurations failed)

/-- The operator selects one of the instances, if there are any. -/
def selectInstance : Command Bytes := do
  let h ← perform get
  let names := instances env.toSystem h.files
  if names = [] then fail .noInstances
  else
    recordAll (names.map fun name => .systemctl .isActive (some (unit name)))
    perform (ask [] (selected names))

end Commands

/-! ## Without the record -/

section Erasure

variable (env : Environment)

theorem erases_fail {α : Type} (error : AdminError) :
    Erases (fail error : Command α) (Admin.stop error) := Erases.throw _

theorem erases_saveConfig (path : Bytes) (cfg : Config) :
    Erases (saveConfig env path cfg) (save env.toSystem path cfg) :=
  Erases.recordIf_then _ _ (Erases.perform _)

theorem erases_runSystemctl (verb : Verb) (name : Option Bytes) (succeeds : Bool) :
    Erases (runSystemctl verb name succeeds)
      (if succeeds then pure () else Admin.stop .systemctl) :=
  Erases.record_then _ (Erases.ite (fun _ => Erases.pure _) fun _ => erases_fail _)

theorem erases_restart (instanceName : Bytes) :
    Erases (service env instanceName (ofString "restart"))
      (restart env.toSystem instanceName) := by
  have haction : serviceAction (ofString "restart") = some .restart := by decide
  unfold service restart
  rw [haction]
  refine Erases.bind (Erases.perform _) fun _ => ?_
  refine Erases.ite (fun _ => erases_fail _) fun _ => ?_
  refine Erases.record_then _ (Erases.bind (Erases.perform _) fun h => ?_)
  exact Erases.ite (fun _ => erases_fail _) fun _ => erases_runSystemctl _ _ _

theorem erases_configureL3 (instanceName : Bytes) (cfg : Config) :
    Erases (configureL3Recorded env instanceName cfg)
      (configureL3 env.toSystem instanceName cfg) := by
  unfold configureL3
  refine Erases.bind (Erases.perform _) fun enabled => ?_
  refine Erases.ite (fun _ => Erases.pure _) fun _ => ?_
  intro s
  exact (Erases.recordIf_then _ _ (Erases.perform _) : Erases _ _) s

theorem wizard_eq (sys : System) (instanceName : Bytes) (current : Option Config) :
    wizard sys instanceName current = (do
      let cfg ← opening sys instanceName current
      let cfg ← configureTransport sys cfg
      let cfg ← configureL3 sys instanceName cfg
      let cfg ← configureServices sys cfg
      let cfg ← configureForwards sys cfg
      let (cfg, shown) ← configureSecret sys instanceName cfg current.isSome
      let (errors, normal) := cfg.validate sys.lib
      if errors = [] then pure (normal, shown) else stop (.generatedInvalid errors)) := by
  simp only [wizard, draft, bind_assoc]

theorem erases_wizard (instanceName : Bytes) (current : Option Config) :
    Erases (wizardRecorded env instanceName current)
      (wizard env.toSystem instanceName current) := by
  rw [wizard_eq]
  refine Erases.bind (Erases.perform _) fun cfg => ?_
  refine Erases.bind (Erases.perform _) fun cfg => ?_
  exact Erases.bind (erases_configureL3 env _ _) fun cfg => Erases.perform _

theorem erases_beginSetup (instanceName : Bytes) :
    Erases (beginSetupRecorded env instanceName) (beginSetup env.toSystem instanceName) := by
  refine Erases.bind (Erases.perform _) fun _ => ?_
  refine Erases.ite (fun _ => erases_fail _) fun _ => ?_
  refine Erases.record_then _ (Erases.bind (Erases.perform _) fun name => ?_)
  refine Erases.ite (fun _ => erases_fail _) fun _ => ?_
  refine Erases.record_then _ (Erases.bind (Erases.perform _) fun h => ?_)
  cases stat env.toSystem (configPath env.toSystem name) h.files with
  | found => exact erases_fail _
  | failed => exact erases_fail _
  | missing => exact Erases.pure _

theorem keeps_service (instanceName action : Bytes) :
    Keeps Recorded.state (service env instanceName action) := by
  have hroot : Keeps id (requireRoot env.toSystem) :=
    Keeps.ite (fun _ => Keeps.pure _) fun _ => Keeps.throw _
  refine Keeps.bind hroot.perform fun _ => ?_
  refine Keeps.ite (fun _ => Keeps.throw _) fun _ => ?_
  refine Keeps.bind (Keeps.record _) fun _ => ?_
  refine Keeps.bind Keeps.get.perform fun h => ?_
  refine Keeps.ite (fun _ => Keeps.throw _) fun _ => ?_
  cases serviceAction action with
  | none => exact Keeps.throw _
  | some a =>
      exact Keeps.bind (Keeps.record _) fun _ =>
        Keeps.ite (fun _ => Keeps.pure _) fun _ => Keeps.throw _

theorem never_fail {α : Type} (error : AdminError) : Never .loops (fail error : Command α) :=
  Never.throw (Stop.noConfusion)

theorem never_service (instanceName action : Bytes) :
    Never .loops (service env instanceName action) := by
  refine Never.bind (never_requireRoot env.toSystem).perform fun _ => ?_
  refine Never.ite (fun _ => never_fail _) fun _ => ?_
  refine Never.bind (Never.record _) fun _ => ?_
  refine Never.bind Never.get.perform fun h => ?_
  refine Never.ite (fun _ => never_fail _) fun _ => ?_
  cases serviceAction action with
  | none => exact never_fail _
  | some a =>
      exact Never.bind (Never.record _) fun _ =>
        Never.ite (fun _ => Never.pure _) fun _ => never_fail _

/-- Errors of a service are printed, and leave the host as it was. -/
theorem attempt_service (instanceName action : Bytes) (s : Recorded Host Action) :
    ∃ t, attempt (service env instanceName action) s = .ok () t ∧ t.state = s.state := by
  have hkeeps := keeps_service env instanceName action s
  unfold attempt
  cases h : service env instanceName action s with
  | ok a t =>
      rw [h] at hkeeps
      exact ⟨t, rfl, hkeeps⟩
  | error e t =>
      rw [h] at hkeeps
      cases e with
      | error error => exact ⟨t, rfl, hkeeps⟩
      | loops => exact absurd ⟨t, h⟩ (never_service env instanceName action s)

theorem erases_setupService (instanceName : Bytes) :
    Erases (setupService env instanceName) (endSetup env.toSystem) := by
  simp only [setupService, endSetup, runSystemctl, bind_assoc]
  refine Erases.record_then _ ?_
  cases env.reloads with
  | false => exact fun s => rfl
  | true =>
      simp only [if_true, pure_bind, Bool.true_eq_false, if_false]
      refine Erases.bind (Erases.perform _) fun start => ?_
      refine Erases.of_keeps fun s => ?_
      cases start with
      | false => exact ⟨s, rfl, rfl⟩
      | true =>
          cases env.starts with
          | true => exact ⟨_, rfl, rfl⟩
          | false => exact attempt_service env instanceName (ofString "status") _

theorem erases_beginEdit (instanceName : Bytes) :
    Erases (beginEditRecorded env instanceName) (beginEdit env.toSystem instanceName) := by
  refine Erases.bind (Erases.perform _) fun _ => ?_
  refine Erases.bind (Erases.perform _) fun h => Erases.recordIf_then _ _ ?_
  cases load env.toSystem (configPath env.toSystem instanceName) h.files with
  | error error => exact erases_fail _
  | ok cfg => exact Erases.pure _

theorem erases_setup (instanceName : Bytes) :
    Erases (setup env instanceName) (Admin.setup env.toSystem instanceName) := by
  refine Erases.bind (erases_beginSetup env _) fun name => ?_
  refine Erases.bind (erases_wizard env _ _) fun result => ?_
  exact Erases.bind (erases_saveConfig env _ _) fun _ => erases_setupService env _

theorem erases_editService (instanceName : Bytes) :
    Erases (editService env instanceName) (endEdit env.toSystem instanceName) := by
  refine Erases.ite (fun _ => ?_) fun _ => ?_
  · refine Erases.bind (Erases.perform _) fun again => ?_
    exact Erases.ite (fun _ => erases_restart env _) fun _ => Erases.pure _
  · refine Erases.bind (Erases.perform _) fun start => ?_
    exact Erases.ite (fun _ => erases_runSystemctl _ _ _) fun _ => Erases.pure _

theorem erases_edit (instanceName : Bytes) :
    Erases (edit env instanceName) (Admin.edit env.toSystem instanceName) := by
  refine Erases.bind (erases_beginEdit env _) fun current => ?_
  refine Erases.record_then _ (Erases.bind (erases_wizard env _ _) fun result => ?_)
  exact Erases.bind (erases_saveConfig env _ _) fun _ => erases_editService env _

end Erasure

/-! ## The menu -/

/-- The entries of the menu. -/
inductive Entry
  | create
  | edit
  | list
  | service (action : ServiceAction)
  | logs
  | showConfig
  | delete
  | validateAll
  | exit
  deriving DecidableEq

/-- The answers of the menu. -/
def entries : List (Bytes × Entry) :=
  [(ofString "1", .create), (ofString "2", .edit), (ofString "3", .list),
    (ofString "4", .service .start), (ofString "5", .service .stop),
    (ofString "6", .service .restart), (ofString "7", .service .enable),
    (ofString "8", .service .disable), (ofString "9", .service .status), (ofString "10", .logs),
    (ofString "11", .showConfig), (ofString "12", .delete), (ofString "13", .validateAll),
    (ofString "0", .exit), (ofString "q", .exit), (ofString "quit", .exit),
    (ofString "exit", .exit)]

/-- What an entry of the menu does. An answer that is none does nothing. -/
def choose (env : Environment) : Option Entry → Command Unit
  | none => pure ()
  | some .create => setup env []
  | some .edit => do edit env (← selectInstance env)
  | some .list => list env
  | some (.service action) => do service env (← selectInstance env) action.text
  | some .logs => do logs env (← selectInstance env) 100 false
  | some .showConfig => do showConfig env (← selectInstance env)
  | some .delete => do delete env (← selectInstance env) false
  | some .validateAll => validateAll env
  | some .exit => pure ()

/-- One round of the menu, with the result that it is left. -/
def menuRound (env : Environment) : Command Bool := do
  let answer ← perform (prompt [])
  let entry := entries.lookup answer
  if entry = some .exit then pure true
  else
    attempt (choose env entry)
    pure false

/-- The rounds from the `i`-th one on, with the result that the menu is left
within a number of them. -/
def menuLoop (envs : Nat → Environment) : (rounds i : Nat) → Command Bool
  | 0, _ => pure false
  | rounds + 1, i => do
      let left ← menuRound (envs i)
      if left then pure true else menuLoop envs rounds (i + 1)

/-- The menu, followed for a number of rounds. -/
def menu (envs : Nat → Environment) (rounds : Nat) : Command Bool := do
  perform (requireRoot (envs 0).toSystem)
  if (envs 0).makesConfigDir = false then fail .configDir
  else
    record .makeConfigDir
    menuLoop envs rounds 0

end UnknownTunnel.Admin.Panel

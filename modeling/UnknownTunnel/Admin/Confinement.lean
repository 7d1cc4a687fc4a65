import UnknownTunnel.Admin.DeleteSafety

/-!
# Commands and the configuration directory

A command is given the name of an instance. It should act on the configuration
and the unit of that instance only, and only if the name is an identifier, so
that the configuration lies in the configuration directory itself. `Setup`,
`Service` and `Logs` check the name; `Edit`, `Show` and `Delete` do not.

## Implementation notes

Looking for a free interface and for other users of a secret reads further
configurations. These are named by identifiers as well, and are not changed.

Reading, replacing and removing a secret is not recorded. The path of the secret
comes from the configuration and not from the name of the instance, and it is not
excluded that it is the file of another configuration.
-/

namespace UnknownTunnel.Admin.Panel

open Foundation ConfigFile

/-- The commands that are given an instance. -/
inductive AdminCommand
  | setup
  | edit
  | showConfig
  | delete (force : Bool)
  | service (action : Bytes)
  | logs (lines : Int) (follow : Bool)
  deriving DecidableEq

/-- The command with its arguments. -/
def AdminCommand.run (env : Environment) (instanceName : Bytes) : AdminCommand → Command Unit
  | setup => Panel.setup env instanceName
  | edit => Panel.edit env instanceName
  | showConfig => Panel.showConfig env instanceName
  | delete force => Panel.delete env instanceName force
  | service action => Panel.service env instanceName action
  | logs lines follow => Panel.logs env instanceName lines follow

/-- The commands that check the name of the instance. -/
def AdminCommand.Guarded : AdminCommand → Prop
  | setup | service _ | logs _ _ => True
  | edit | showConfig | delete _ => False

/-- The other commands that are for the administrator only. -/
def AdminCommand.NeedsRoot : AdminCommand → Prop
  | edit | delete _ => True
  | _ => False

/-- An action concerns an instance. -/
def Concerns (sys : System) (name : Bytes) : Action → Prop
  | .makeConfigDir => True
  | .stat path | .read path | .save path | .remove path => path = configPath sys name
  | .survey names => ∀ other ∈ names, identifierRE other = true
  | .systemctl _ service => ∀ u ∈ service, u = unit name
  | .journalctl service _ _ => service = unit name

/-- The instance that a command is about. `Setup` asks for it if it is not given. -/
def AdminCommand.About (cmd : AdminCommand) (instanceName name : Bytes) : Prop :=
  name = instanceName ∨ (cmd = .setup ∧ instanceName = [])

/-- A command fails and leaves configurations and services alone, or it acts on
one instance, whose name is an identifier and whose configuration lies in the
configuration directory. -/
def Confined (sys : System) (cmd : AdminCommand) (instanceName : Bytes)
    (result : EStateM.Result Stop (Recorded Host Action) Unit) : Prop :=
  (∃ error s, result = .error (.error error) s ∧ ∀ a ∈ s.trace, a = .makeConfigDir) ∨
  ∃ name, cmd.About instanceName name ∧ identifierRE name = true ∧
    Text.dir (configPath sys name) = Text.clean sys.configDir ∧
    ∀ a ∈ (finalState result).trace, Concerns sys name a

/-! ## What the commands record -/

section Records

variable (env : Environment) (name : Bytes)

theorem concerns_others (sys : System) (excluded : Bytes) (files : Table Bytes Bytes) :
    Concerns sys name (.survey (others sys excluded files)) := by
  intro other hother
  exact (mem_instances_iff.mp (List.mem_of_mem_filter hother)).1

theorem concerns_unit (sys : System) (verb : Verb) :
    Concerns sys name (.systemctl verb (some (unit name))) := by
  intro u hu
  exact (Option.some.inj hu).symm

theorem Records.attempt {P : Action → Prop} {m : Command Unit} (h : Records P m) :
    Records P (attempt m) := by
  intro s
  obtain ⟨new, hnew, hP⟩ := h s
  refine ⟨new, ?_, hP⟩
  rw [← hnew]
  unfold Panel.attempt
  cases m s with
  | ok a t => rfl
  | error e t => cases e <;> rfl

theorem records_loadConfig :
    Records (Concerns env.toSystem name) (loadConfig env (configPath env.toSystem name)) := by
  refine Records.bind (Records.perform _) fun h => ?_
  refine Records.bind (Records.recordIf fun _ => rfl) fun _ => ?_
  split
  · exact Records.throw _
  · exact Records.pure _

theorem records_saveConfig (cfg : Config) :
    Records (Concerns env.toSystem name) (saveConfig env (configPath env.toSystem name) cfg) :=
  Records.bind (Records.recordIf fun _ => rfl) fun _ => Records.perform _

theorem records_runSystemctl (verb : Verb) (succeeds : Bool) :
    Records (Concerns env.toSystem name) (runSystemctl verb (some (unit name)) succeeds) := by
  refine Records.bind (Records.record (concerns_unit name _ _)) fun _ => ?_
  exact Records.ite (fun _ => Records.pure _) fun _ => Records.throw _

theorem records_service (action : Bytes) :
    Records (Concerns env.toSystem name) (service env name action) := by
  refine Records.bind (Records.perform _) fun _ => ?_
  refine Records.ite (fun _ => Records.throw _) fun _ => ?_
  refine Records.bind (Records.record rfl) fun _ => ?_
  refine Records.bind (Records.perform _) fun h => ?_
  refine Records.ite (fun _ => Records.throw _) fun _ => ?_
  split
  · exact Records.throw _
  · exact records_runSystemctl env name _ _

theorem records_logs (lines : Int) (follow : Bool) :
    Records (Concerns env.toSystem name) (logs env name lines follow) := by
  refine Records.ite (fun _ => Records.throw _) fun _ => ?_
  refine Records.bind (Records.record rfl) fun _ => ?_
  exact Records.ite (fun _ => Records.pure _) fun _ => Records.throw _

theorem records_offerSecret (force : Bool) (cfg : Config) :
    Records (Concerns env.toSystem name) (offerSecret env name force cfg) := by
  refine Records.bind (Records.perform _) fun h => ?_
  refine Records.bind (Records.record (concerns_others name _ _ _)) fun _ => ?_
  refine Records.bind (Records.perform _) fun removeSecret => ?_
  refine Records.ite (fun _ => ?_) fun _ => Records.pure _
  exact Records.bind (Records.perform _) fun _ => Records.pure _

/-- `Delete` after the configuration is loaded. -/
theorem records_delete_rest (force : Bool) (cfg : Config) :
    Records (Concerns env.toSystem name) (do
      let confirmed ← perform (askIf (force = false) (yesNo env.lib false) true)
      if confirmed = false then pure () else deleteConfirmed env name force cfg) := by
  refine Records.bind (Records.perform _) fun confirmed => ?_
  refine Records.ite (fun _ => Records.pure _) fun _ => ?_
  refine Records.bind (Records.record (concerns_unit name _ _)) fun _ => ?_
  refine Records.bind ?_ fun _ => records_offerSecret env name force cfg
  refine Records.bind (Records.record rfl) fun _ => ?_
  refine Records.bind (Records.perform _) fun removal => ?_
  exact Records.ite (fun _ => Records.throw _) fun _ => Records.pure _

theorem records_wizard (current : Option Config) :
    Records (Concerns env.toSystem name) (wizardRecorded env name current) := by
  refine Records.bind (Records.perform _) fun cfg => ?_
  refine Records.bind (Records.perform _) fun cfg => ?_
  refine Records.bind ?_ fun cfg => Records.perform _
  refine Records.bind (Records.perform _) fun enabled => ?_
  refine Records.ite (fun _ => Records.pure _) fun _ => ?_
  refine Records.bind (Records.perform _) fun h => ?_
  exact Records.bind (Records.recordIf fun _ => concerns_others name _ _ _) fun _ =>
    Records.perform _

theorem records_setupService :
    Records (Concerns env.toSystem name) (setupService env name) := by
  have hreload : Concerns env.toSystem name (.systemctl .daemonReload none) := by
    intro u hu
    cases hu
  refine Records.bind (Records.bind (Records.record hreload) fun _ => ?_) fun _ => ?_
  · exact Records.ite (fun _ => Records.pure _) fun _ => Records.throw _
  refine Records.bind (Records.perform _) fun start => ?_
  refine Records.ite (fun _ => ?_) fun _ => Records.pure _
  refine Records.bind (Records.record (concerns_unit name _ _)) fun _ => ?_
  exact Records.ite (fun _ => Records.pure _) fun _ =>
    Records.attempt (records_service env name _)

/-- `Setup` of an instance after its beginning. -/
theorem records_setup_rest :
    Records (Concerns env.toSystem name) (do
      let (cfg, _) ← wizardRecorded env name none
      saveConfig env (configPath env.toSystem name) cfg
      setupService env name) := by
  refine Records.bind (records_wizard env name none) fun result => ?_
  exact Records.bind (records_saveConfig env name _) fun _ => records_setupService env name

/-- `Edit` after the configuration is loaded. -/
theorem records_edit_rest (current : Config) :
    Records (Concerns env.toSystem name) (do
      record (.systemctl .isActive (some (unit name)))
      let (cfg, _) ← wizardRecorded env name (some current)
      saveConfig env (configPath env.toSystem name) cfg
      editService env name) := by
  refine Records.bind (Records.record (concerns_unit name _ _)) fun _ => ?_
  refine Records.bind (records_wizard env name _) fun result => ?_
  refine Records.bind (records_saveConfig env name _) fun _ => ?_
  refine Records.ite (fun _ => ?_) fun _ => ?_
  · refine Records.bind (Records.perform _) fun again => ?_
    exact Records.ite (fun _ => records_service env name _) fun _ => Records.pure _
  · refine Records.bind (Records.perform _) fun start => ?_
    exact Records.ite (fun _ => records_runSystemctl env name _ _) fun _ => Records.pure _

end Records

/-! ## The name that `Setup` uses -/

theorem records_checkFree (env : Environment) (name : Bytes) :
    Records (Concerns env.toSystem name) (checkFree env name) := by
  refine Records.bind (Records.record rfl) fun _ => ?_
  refine Records.bind (Records.perform _) fun h => ?_
  split
  · exact Records.throw _
  · exact Records.throw _
  · exact Records.pure _

theorem gives_checkFree (env : Environment) (name : Bytes) :
    Gives (· = name) (checkFree env name) := by
  refine Gives.bind (Gives.any _) fun _ _ => ?_
  refine Gives.bind (Gives.any _) fun h _ => ?_
  split
  · exact Gives.throw _
  · exact Gives.throw _
  · exact Gives.pure rfl

/-- `Setup` fails before it looks at a file, or has settled on an identifier. -/
theorem beginSetup_cases (env : Environment) (instanceName : Bytes) (h : Host) :
    (∃ error s, beginSetupRecorded env instanceName ⟨h, []⟩ = .error (.error error) s ∧
      ∀ a ∈ s.trace, a = .makeConfigDir) ∨
    ∃ name, AdminCommand.setup.About instanceName name ∧ identifierRE name = true ∧
      (∀ a ∈ (finalState (beginSetupRecorded env instanceName ⟨h, []⟩)).trace,
        Concerns env.toSystem name a) ∧
      ∀ b t, beginSetupRecorded env instanceName ⟨h, []⟩ = .ok b t → b = name := by
  have hempty : ∀ a ∈ ([] : List Action), a = .makeConfigDir :=
    fun a ha => absurd ha List.not_mem_nil
  have hmade : ∀ a ∈ [Action.makeConfigDir], a = .makeConfigDir :=
    fun a ha => List.mem_singleton.mp ha
  unfold beginSetupRecorded
  cases hroot : env.root with
  | false =>
      exact Or.inl ⟨_, _,
        bind_of_error (perform_of_error (requireRoot_of_not_root hroot h) _), hempty⟩
  | true =>
  rw [bind_of_ok (perform_of_ok (requireRoot_of_root hroot h) _)]
  by_cases hdir : env.makesConfigDir = false
  · rw [if_pos hdir]
    exact Or.inl ⟨_, _, rfl, hempty⟩
  rw [if_neg hdir, record_bind, List.nil_append]
  have hnever : Never .loops (askIf (instanceName = []) (promptIdentifier (ofString "tunnel1"))
      instanceName : Dialogue Bytes) := by
    refine never_askIf fun _ => @never_ask _ _ _ (ofString "tunnel1") ?_
    decide
  cases hask : (askIf (instanceName = []) (promptIdentifier (ofString "tunnel1")) instanceName :
      Dialogue Bytes) h with
  | error e t =>
      cases e with
      | error error => exact Or.inl ⟨_, _, bind_of_error (perform_of_error hask _), hmade⟩
      | loops => exact absurd ⟨t, hask⟩ (hnever h)
  | ok name t =>
  rw [bind_of_ok (perform_of_ok hask _)]
  cases hname : identifierRE name with
  | false =>
      rw [if_pos rfl]
      exact Or.inl ⟨_, _, rfl, hmade⟩
  | true =>
      refine Or.inr ⟨name, ?_, hname, ?_, ?_⟩
      · by_cases hgiven : instanceName = []
        · exact Or.inr ⟨rfl, hgiven⟩
        · rw [askIf, if_neg hgiven] at hask
          cases hask
          exact Or.inl rfl
      · rw [if_neg (by decide)]
        exact (records_checkFree env name).forall_final fun a ha => by rw [hmade a ha]; trivial
      · rw [if_neg (by decide)]
        exact fun b s hb => gives_checkFree env name _ b s hb

theorem setup_confined (env : Environment) (instanceName : Bytes) (h : Host) :
    Confined env.toSystem .setup instanceName (setup env instanceName ⟨h, []⟩) := by
  rcases beginSetup_cases env instanceName h with
    ⟨error, s, hfails, hmade⟩ | ⟨name, habout, hname, hconcerns, hgives⟩
  · exact Or.inl ⟨error, s, bind_of_error hfails, hmade⟩
  · refine Or.inr ⟨name, habout, hname, dir_configPath hname, ?_⟩
    unfold setup
    cases hbegin : beginSetupRecorded env instanceName ⟨h, []⟩ with
    | error e s =>
        rw [hbegin] at hconcerns
        rw [bind_of_error hbegin]
        exact hconcerns
    | ok b s =>
        obtain rfl := hgives b s hbegin
        rw [hbegin] at hconcerns
        rw [bind_of_ok hbegin]
        exact (records_setup_rest env b).forall_final hconcerns

/-! ## All commands -/

variable {env : Environment} {instanceName : Bytes}

theorem confined_of_records (cmd : AdminCommand) (hname : identifierRE instanceName = true)
    {m : Command Unit} (hm : Records (Concerns env.toSystem instanceName) m) (h : Host) :
    Confined env.toSystem cmd instanceName (m ⟨h, []⟩) :=
  Or.inr ⟨instanceName, Or.inl rfl, hname, dir_configPath hname, hm.forall_trace h⟩

theorem confined_of_error (cmd : AdminCommand) {m : Command Unit} {h : Host} {error : AdminError}
    (hm : m ⟨h, []⟩ = .error (.error error) ⟨h, []⟩) :
    Confined env.toSystem cmd instanceName (m ⟨h, []⟩) :=
  Or.inl ⟨error, _, hm, fun _ ha => absurd ha List.not_mem_nil⟩

/-- A command that begins with a check for the administrator fails without it. -/
theorem confined_of_not_root (cmd : AdminCommand) (hroot : env.root = false)
    (k : Unit → Command Unit) (h : Host) :
    Confined env.toSystem cmd instanceName
      ((perform (requireRoot env.toSystem) >>= k) ⟨h, []⟩) :=
  confined_of_error cmd (bind_of_error (perform_of_error (requireRoot_of_not_root hroot h) _))

theorem service_confined (action : Bytes) (h : Host) :
    Confined env.toSystem (.service action) instanceName
      (service env instanceName action ⟨h, []⟩) := by
  cases hname : identifierRE instanceName with
  | true => exact confined_of_records _ hname (records_service env instanceName action) h
  | false =>
      cases hroot : env.root with
      | false => exact confined_of_not_root _ hroot _ h
      | true =>
          have hfails : service env instanceName action ⟨h, []⟩ =
              .error (.error .instanceName) ⟨h, []⟩ := by
            rw [service, bind_of_ok (perform_of_ok (requireRoot_of_root hroot h) _), if_pos hname]
            rfl
          exact confined_of_error _ hfails

theorem logs_confined (lines : Int) (follow : Bool) (h : Host) :
    Confined env.toSystem (.logs lines follow) instanceName
      (logs env instanceName lines follow ⟨h, []⟩) := by
  cases hname : identifierRE instanceName with
  | true => exact confined_of_records _ hname (records_logs env instanceName lines follow) h
  | false =>
      have hfails : logs env instanceName lines follow ⟨h, []⟩ =
          .error (.error .instanceName) ⟨h, []⟩ := by
        rw [logs, if_pos hname]
        rfl
      exact confined_of_error _ hfails

/-- Without a file nothing is recorded. -/
theorem loadConfig_of_unread {path : Bytes} {h : Host}
    (hread : readFile env.toSystem path h.files = none) :
    loadConfig env path ⟨h, []⟩ = .error (.error (.load .read)) ⟨h, []⟩ := by
  have hload : load env.toSystem path h.files = .error .read := by rw [load, hread]
  unfold loadConfig
  rw [perform_get_bind, hload, hread]
  rfl

/-- With a file that can be read, reading it is recorded. -/
theorem loadConfig_records {path : Bytes} {h : Host}
    (hread : (readFile env.toSystem path h.files).isSome = true) :
    .read path ∈ (finalState (loadConfig env path ⟨h, []⟩)).trace := by
  unfold loadConfig
  rw [perform_get_bind, recordIf, if_pos hread, record_bind]
  cases load env.toSystem path h.files with
  | error error => exact List.mem_singleton.mpr rfl
  | ok cfg => exact List.mem_singleton.mpr rfl

/-- The commands without a check of the name begin with loading a configuration. -/
theorem run_of_not_guarded {cmd : AdminCommand} (hcmd : ¬ cmd.Guarded)
    (hroot : cmd.NeedsRoot → env.root = true) (h : Host) :
    ∃ k : Config → Command Unit, (∀ cfg, Records (Concerns env.toSystem instanceName) (k cfg)) ∧
      cmd.run env instanceName ⟨h, []⟩ =
        (loadConfig env (configPath env.toSystem instanceName) >>= k) ⟨h, []⟩ := by
  cases cmd with
  | setup => exact absurd trivial hcmd
  | service action => exact absurd trivial hcmd
  | logs lines follow => exact absurd trivial hcmd
  | showConfig => exact ⟨_, fun cfg => Records.pure (), rfl⟩
  | delete force =>
      refine ⟨_, records_delete_rest env instanceName force, ?_⟩
      exact bind_of_ok (perform_of_ok (requireRoot_of_root (hroot trivial) h) _)
  | edit =>
      refine ⟨_, records_edit_rest env instanceName, ?_⟩
      rw [AdminCommand.run, edit, beginEditRecorded, bind_assoc]
      exact bind_of_ok (perform_of_ok (requireRoot_of_root (hroot trivial) h) _)

theorem confined_of_not_guarded {cmd : AdminCommand} (hcmd : ¬ cmd.Guarded)
    (hneeds : cmd.NeedsRoot) (hroot : env.root = false) (h : Host) :
    Confined env.toSystem cmd instanceName (cmd.run env instanceName ⟨h, []⟩) := by
  cases cmd with
  | setup => exact absurd trivial hcmd
  | service action => exact absurd trivial hcmd
  | logs lines follow => exact absurd trivial hcmd
  | showConfig => exact absurd hneeds id
  | delete force => exact confined_of_not_root _ hroot _ h
  | edit =>
      rw [AdminCommand.run, edit, beginEditRecorded, bind_assoc]
      exact confined_of_not_root _ hroot _ h

theorem confined_of_guarded {cmd : AdminCommand} (hcmd : cmd.Guarded) (h : Host) :
    Confined env.toSystem cmd instanceName (cmd.run env instanceName ⟨h, []⟩) := by
  cases cmd with
  | setup => exact setup_confined env instanceName h
  | service action => exact service_confined action h
  | logs lines follow => exact logs_confined lines follow h
  | showConfig => exact absurd hcmd id
  | delete force => exact absurd hcmd id
  | edit => exact absurd hcmd id

/-- An unchecked name that is no identifier is not confined once a configuration
is read. -/
theorem not_confined_of_read {cmd : AdminCommand} (hcmd : ¬ cmd.Guarded)
    (hroot : cmd.NeedsRoot → env.root = true) (hname : identifierRE instanceName = false) {h : Host}
    (hread : (readFile env.toSystem (configPath env.toSystem instanceName) h.files).isSome = true) :
    ¬ Confined env.toSystem cmd instanceName (cmd.run env instanceName ⟨h, []⟩) := by
  obtain ⟨k, hk, hrun⟩ := @run_of_not_guarded env instanceName cmd hcmd hroot h
  have hmem : .read (configPath env.toSystem instanceName) ∈
      (finalState (cmd.run env instanceName ⟨h, []⟩)).trace := by
    have hload := loadConfig_records hread
    rw [hrun]
    rcases bind_cases (loadConfig env (configPath env.toSystem instanceName)) k ⟨h, []⟩ with
      ⟨e, t, ht, hbind⟩ | ⟨cfg, t, ht, hbind⟩
    · rw [hbind]
      rw [ht] at hload
      exact hload
    · rw [hbind]
      rw [ht] at hload
      exact (hk cfg).mem_trace hload
  rintro (⟨error, s, hresult, hmade⟩ | ⟨name, habout, hidentifier, -⟩)
  · rw [hresult] at hmem
    cases hmade _ hmem
  · rcases habout with rfl | ⟨rfl, -⟩
    · rw [hname] at hidentifier
      cases hidentifier
    · exact hcmd trivial

variable (env instanceName)

/-- A command stays with the instance it is given exactly if it checks the
name, or the name is an identifier, or it is refused to the caller, or there is
no file to read where the name leads. -/
theorem commands_confined_iff (cmd : AdminCommand) (h : Host) :
    Confined env.toSystem cmd instanceName (cmd.run env instanceName ⟨h, []⟩) ↔
      cmd.Guarded ∨ identifierRE instanceName = true ∨ (cmd.NeedsRoot ∧ env.root = false) ∨
        readFile env.toSystem (configPath env.toSystem instanceName) h.files = none := by
  constructor
  · intro hconfined
    by_contra hnot
    simp only [not_or, not_and, Bool.not_eq_true, Bool.not_eq_false] at hnot
    obtain ⟨hcmd, hname, hroot, hread⟩ := hnot
    exact not_confined_of_read hcmd hroot hname (Option.isSome_iff_ne_none.mpr hread) hconfined
  · intro hcondition
    by_cases hcmd : cmd.Guarded
    · exact confined_of_guarded hcmd h
    by_cases hrefused : cmd.NeedsRoot ∧ env.root = false
    · exact confined_of_not_guarded hcmd hrefused.1 hrefused.2 h
    have hroot : cmd.NeedsRoot → env.root = true := by
      intro hneeds
      rw [← Bool.not_eq_false]
      exact fun hfalse => hrefused ⟨hneeds, hfalse⟩
    obtain ⟨k, hk, hrun⟩ := @run_of_not_guarded env instanceName cmd hcmd hroot h
    rw [hrun]
    rcases hcondition with hguarded | hname | hneeds | hread
    · exact absurd hguarded hcmd
    · exact confined_of_records cmd hname
        (Records.bind (records_loadConfig env instanceName) hk) h
    · exact absurd hneeds hrefused
    · exact confined_of_error cmd (bind_of_error (loadConfig_of_unread hread))

/-! ## A configuration outside the directory -/

def outsideFiles : Table Bytes Bytes :=
  (∅ : Table Bytes Bytes).insert (ofString "/etc/other.json") (sampleText sampleConfig)

/-- A name with two dots leads out of the directory, and the file is deleted there. -/
theorem delete_outside_directory :
    identifierRE (ofString "../other") = false ∧
      configPath sharedEnvironment.toSystem (ofString "../other") = ofString "/etc/other.json" ∧
      ¬ Confined sharedEnvironment.toSystem (.delete true) (ofString "../other")
        (AdminCommand.run sharedEnvironment (ofString "../other") (.delete true)
          ⟨⟨[], outsideFiles, false⟩, []⟩) ∧
      ofString "/etc/other.json" ∉ (finalState (AdminCommand.run sharedEnvironment
        (ofString "../other") (.delete true) ⟨⟨[], outsideFiles, false⟩, []⟩)).state.files := by
  have hpath : configPath sharedEnvironment.toSystem (ofString "../other") =
      ofString "/etc/other.json" := by decide +kernel
  have hload : load sharedEnvironment.toSystem
      (configPath sharedEnvironment.toSystem (ofString "../other")) outsideFiles =
        .ok (sampleConfig.normalize sampleLibrary) := load_sampleText (by decide +kernel)
  have hd : Deletes sharedEnvironment (ofString "../other") true ⟨[], outsideFiles, false⟩
      (sampleConfig.normalize sampleLibrary) ⟨[], outsideFiles, false⟩ := ⟨rfl, hload, rfl, rfl⟩
  refine ⟨by decide, hpath, not_confined_of_read id (fun _ => rfl) (by decide) (by decide +kernel),
    ?_⟩
  rw [AdminCommand.run, files_of_not_removesSecret hd (fun hs => by cases hs.asks),
    Finmap.mem_erase]
  rintro ⟨hne, -⟩
  exact hne (by decide +kernel)

end UnknownTunnel.Admin.Panel

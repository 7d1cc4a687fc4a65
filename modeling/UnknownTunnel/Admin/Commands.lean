import UnknownTunnel.Admin.Wizard

/-!
# Creating and editing a tunnel

`Setup` and `Edit` prepare, run the wizard, save the configuration it returns,
and then turn to the service.
-/

namespace UnknownTunnel.Admin

open Foundation ConfigFile

variable (sys : System)

/-- Only the administrator may go on. -/
def requireRoot : Dialogue Unit := if sys.root then pure () else stop .root

/-- `Service` with the action `restart`. -/
def restart (instanceName : Bytes) : Dialogue Unit := do
  requireRoot sys
  if identifierRE instanceName = false then stop .instanceName
  else
    let h ← get
    if stat sys (configPath sys instanceName) h.files ≠ .found then stop .noConfiguration
    else if sys.restarts then pure () else stop .systemctl

/-- `Setup` before the wizard. -/
def beginSetup (instanceName : Bytes) : Dialogue Bytes := do
  requireRoot sys
  if sys.makesConfigDir = false then stop .configDir
  else
    let name ← askIf (instanceName = []) (promptIdentifier (ofString "tunnel1")) instanceName
    if identifierRE name = false then stop .instanceName
    else
      let h ← get
      match stat sys (configPath sys name) h.files with
      | .found => stop (.exists name)
      | .failed => stop .stat
      | .missing => pure name

/-- `Setup` after saving. -/
def endSetup : Dialogue Unit := do
  if sys.reloads = false then stop .systemctl
  else
    -- a service that does not start is reported, and is no error
    let _ ← yesNo sys.lib true
    pure ()

/-- `Setup`: nothing is saved before all questions of the wizard are answered. -/
def setup (instanceName : Bytes) : Dialogue Unit := do
  let name ← beginSetup sys instanceName
  let (cfg, _) ← wizard sys name none
  save sys (configPath sys name) cfg
  endSetup sys

/-- `Edit` before the wizard. -/
def beginEdit (instanceName : Bytes) : Dialogue Config := do
  requireRoot sys
  let h ← get
  match load sys (configPath sys instanceName) h.files with
  | .error error => stop (.load error)
  | .ok current => pure current

/-- `Edit` after saving. -/
def endEdit (instanceName : Bytes) : Dialogue Unit := do
  if sys.active then
    let again ← yesNo sys.lib true
    if again then restart sys instanceName else pure ()
  else
    let start ← yesNo sys.lib false
    if start then if sys.starts then pure () else stop .systemctl else pure ()

/-- `Edit`: the wizard starts from the configuration that is loaded. -/
def edit (instanceName : Bytes) : Dialogue Unit := do
  let current ← beginEdit sys instanceName
  let (cfg, _) ← wizard sys instanceName (some current)
  save sys (configPath sys instanceName) cfg
  endEdit sys instanceName

theorem requireRoot_of_root {sys : System} (h : sys.root = true) (host : Host) :
    requireRoot sys host = .ok () host := by
  rw [requireRoot, if_pos h]
  rfl

theorem requireRoot_of_not_root {sys : System} (h : sys.root = false) (host : Host) :
    requireRoot sys host = .error (.error .root) host := by
  rw [requireRoot, if_neg (by rw [h]; decide)]
  rfl

theorem never_requireRoot : Never .loops (requireRoot sys) :=
  Never.ite (fun _ => Never.pure _) fun _ => never_stop _

/-! ## Only the wizard and saving write -/

theorem reads_requireRoot : Moves Reads (requireRoot sys) :=
  Moves.ite (fun _ => Moves.pure _) fun _ => reads_stop _

theorem reads_restart (instanceName : Bytes) : Moves Reads (restart sys instanceName) := by
  refine Moves.bind (reads_requireRoot sys) fun _ => ?_
  refine Moves.ite (fun _ => reads_stop _) fun _ => ?_
  refine Moves.bind Moves.get fun h => ?_
  refine Moves.ite (fun _ => reads_stop _) fun _ => ?_
  exact Moves.ite (fun _ => Moves.pure _) fun _ => reads_stop _

theorem reads_beginSetup (instanceName : Bytes) :
    Moves Reads (beginSetup sys instanceName) := by
  refine Moves.bind (reads_requireRoot sys) fun _ => ?_
  refine Moves.ite (fun _ => reads_stop _) fun _ => ?_
  refine Moves.bind (reads_askIf (reads_ask _ _)) fun name => ?_
  refine Moves.ite (fun _ => reads_stop _) fun _ => ?_
  refine Moves.bind Moves.get fun h => ?_
  split
  · exact reads_stop _
  · exact reads_stop _
  · exact Moves.pure _

theorem reads_endSetup : Moves Reads (endSetup sys) := by
  refine Moves.ite (fun _ => reads_stop _) fun _ => ?_
  exact Moves.bind (reads_ask _ _) fun _ => Moves.pure _

theorem reads_beginEdit (instanceName : Bytes) :
    Moves Reads (beginEdit sys instanceName) := by
  refine Moves.bind (reads_requireRoot sys) fun _ => ?_
  refine Moves.bind Moves.get fun h => ?_
  split
  · exact reads_stop _
  · exact Moves.pure _

theorem reads_endEdit (instanceName : Bytes) : Moves Reads (endEdit sys instanceName) := by
  refine Moves.ite (fun _ => ?_) fun _ => ?_
  · refine Moves.bind (reads_ask _ _) fun again => ?_
    exact Moves.ite (fun _ => reads_restart sys _) fun _ => Moves.pure _
  · refine Moves.bind (reads_ask _ _) fun start => ?_
    refine Moves.ite (fun _ => ?_) fun _ => Moves.pure _
    exact Moves.ite (fun _ => Moves.pure _) fun _ => reads_stop _

end UnknownTunnel.Admin

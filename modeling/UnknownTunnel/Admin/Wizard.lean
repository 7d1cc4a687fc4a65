import Mathlib.Data.List.Sort
import UnknownTunnel.Admin.Files

/-!
# The configuration wizard

The wizard asks for each part of a configuration in turn, with the current
values as defaults. It then deals with the secret, and last validates what it
has put together. The secret is the only part that is written to a file on
the way.

## Implementation notes

`configureSecret` makes all its checks and asks all its questions before it
writes, so it is a plan and its execution.
-/

namespace UnknownTunnel.Admin

open Foundation ConfigFile

/-- The first of the given endpoints that can be split. -/
def firstEndpoint : List Bytes → Option (Bytes × Bytes)
  | [] => none
  | value :: rest =>
      if value = [] then firstEndpoint rest
      else
        match Text.splitHostPort value with
        | .ok endpoint => some endpoint
        | .error _ => firstEndpoint rest

def sortedServiceNames (services : Services) : List Bytes :=
  services.keys.insertionSort (· ≤ ·)

/-- The parts of a list with commas; blank text has none. -/
def splitCSV (value : Bytes) : List Bytes :=
  if Text.trimSpace value = [] then [] else Text.splitCommas value

variable (sys : System)

/-- The answer that stands for a list of protocols. -/
def protocolsChoice (protocols : List Bytes) : Bytes :=
  let seen := protocols.map sys.lib.toLower
  if tcp ∈ seen ∧ udp ∈ seen then both else if udp ∈ seen then udp else tcp

/-- The configuration that a new tunnel starts from. -/
def defaultConfig (instanceName : Bytes) : Config where
  nodeID := instanceName
  peerID := ofString "peer"
  role := client
  auth := ⟨[]⟩
  transport :=
    { mode := both, prefer := udp, listenTCP := [], listenUDP := [], connectTCP := []
      connectUDP := [] }
  l3 :=
    { enabled := true, interface := [], address := [], mtu := 1200, routes := []
      allowProtocols := [tcp, udp] }
  services := ∅
  forwards := []

/-- The port of the UDP endpoint, which is asked for only if it is to differ. -/
def udpPort (t : TransportConfig) (port : Bytes) : Dialogue Bytes := do
  let separate ← askIf (t.mode = both) (yesNo sys.lib false) false
  askIf ((t.mode = udp ∨ t.mode = both) ∧ separate) (promptPort port) port

/-- The endpoints of the role: a server listens and a client connects. The other
endpoints are cleared. -/
def configureTransport (cfg : Config) : Dialogue Config := do
  let t := cfg.transport
  let needsTCP : Bool := t.mode = tcp ∨ t.mode = both
  let needsUDP : Bool := t.mode = udp ∨ t.mode = both
  let cleared :=
    { t with listenTCP := [], listenUDP := [], connectTCP := [], connectUDP := [] }
  if cfg.role = server then
    let old := (firstEndpoint [t.listenTCP, t.listenUDP]).getD
      (ofString "0.0.0.0", ofString "8443")
    let host ← prompt old.1
    let port ← promptPort old.2
    let second ← udpPort sys t port
    pure { cfg with
      transport := { cleared with
        listenTCP := if needsTCP then Text.joinHostPort host port else []
        listenUDP := if needsUDP then Text.joinHostPort host second else [] } }
  else
    let old := (firstEndpoint [t.connectTCP, t.connectUDP]).getD ([], ofString "8443")
    let host ← promptRequired old.1
    let port ← promptPort old.2
    let second ← udpPort sys t port
    pure { cfg with
      transport := { cleared with
        connectTCP := if needsTCP then Text.joinHostPort host port else []
        connectUDP := if needsUDP then Text.joinHostPort host second else [] } }

/-- The section that is left if Layer 3 is not enabled. -/
def noL3 : L3Config where
  enabled := false
  interface := []
  address := []
  mtu := 0
  routes := []
  allowProtocols := []

/-- `configureL3` once Layer 3 is to be enabled. -/
def enabledL3 (instanceName : Bytes) (cfg : Config) : Dialogue Config := do
  let h ← get
  let interface ← promptInterface
    (valueOr cfg.l3.interface (nextInterface sys instanceName h.files))
  let address ← promptCIDR sys.lib (valueOr cfg.l3.address
    (if cfg.role = server then ofString "10.77.0.2/30" else ofString "10.77.0.1/30"))
  let mtu ← promptInt (if cfg.l3.mtu = 0 then 1200 else cfg.l3.mtu) 576 1300
  let packets ← choice sys.lib [tcp, udp, both] (protocolsChoice sys cfg.l3.allowProtocols)
  let routesText ← prompt (List.intercalate [44] cfg.l3.routes)
  match (splitCSV routesText).find? fun route => !sys.lib.parseCIDR route with
  | some route => stop (.invalidRoute route)
  | none =>
      pure { cfg with
        l3 :=
          { enabled := true, interface, address, mtu, routes := splitCSV routesText
            allowProtocols := if packets = both then [tcp, udp] else [packets] } }

/-- The section on Layer 3, emptied unless it is enabled. -/
def configureL3 (instanceName : Bytes) (cfg : Config) : Dialogue Config := do
  let enabled ← yesNo sys.lib cfg.l3.enabled
  if enabled = false then pure { cfg with l3 := noL3 } else enabledL3 sys instanceName cfg

/-- The services that are still to be asked for, after the first `i`. -/
def serviceLoop (names : List Bytes) (old : Services) :
    (remaining i : Nat) → Services → Dialogue Services
  | 0, _, services => pure services
  | remaining + 1, i, services => do
      let oldName := names.getD i []
      let previous := (names[i]?.bind fun name => old.lookup name).getD
        ⟨tcp, ofString "127.0.0.1:443"⟩
      let name ← promptIdentifier
        (valueOr oldName (ofString "service-" ++ Text.itoa (i + 1)))
      if name ∈ services then stop (.duplicateService name)
      else
        let network ← choice sys.lib [tcp, udp] (valueOr previous.network tcp)
        let address ← promptRequired (valueOr previous.address (ofString "127.0.0.1:443"))
        serviceLoop names old remaining (i + 1) (services.insert name ⟨network, address⟩)

/-- The services, asked for one after the other. -/
def configureServices (cfg : Config) : Dialogue Config := do
  let configure ← yesNo sys.lib (cfg.role = server ∨ 0 < cfg.services.keys.length)
  if configure = false then pure { cfg with services := ∅ }
  else
    let names := sortedServiceNames cfg.services
    let count ← promptInt names.length 0 256
    let services ← serviceLoop sys names cfg.services count.toNat 0 ∅
    pure { cfg with services }

/-- The forwards that are still to be asked for, after the given ones. -/
def forwardLoop (old : List Forward) : (remaining : Nat) → List Forward → Dialogue (List Forward)
  | 0, forwards => pure forwards
  | remaining + 1, forwards => do
      let i := forwards.length
      let previous := old.getD i
        ⟨[], tcp, ofString "0.0.0.0:443", ofString "service-1"⟩
      let name ← promptIdentifier
        (valueOr previous.name (ofString "forward-" ++ Text.itoa (i + 1)))
      if name ∈ forwards.map Forward.name then stop (.duplicateForward name)
      else
        let protocol ← choice sys.lib [tcp, udp] (valueOr previous.protocol tcp)
        let listen ← promptRequired (valueOr previous.listen (ofString "0.0.0.0:443"))
        let service ← promptIdentifier (valueOr previous.service (ofString "service-1"))
        forwardLoop old remaining (forwards ++ [⟨name, protocol, listen, service⟩])

/-- The forwards, asked for one after the other. -/
def configureForwards (cfg : Config) : Dialogue Config := do
  let configure ← yesNo sys.lib (cfg.role = client ∨ 0 < cfg.forwards.length)
  if configure = false then pure { cfg with forwards := [] }
  else
    let count ← promptInt cfg.forwards.length 0 256
    let forwards ← forwardLoop sys cfg.forwards count.toNat []
    pure { cfg with forwards }

/-! ### The questions only read -/

theorem reads_udpPort (t : TransportConfig) (port : Bytes) :
    Moves Reads (udpPort sys t port) := by
  refine Moves.bind (reads_askIf (reads_ask _ _)) fun separate => ?_
  exact reads_askIf (reads_ask _ _)

theorem reads_configureTransport (cfg : Config) :
    Moves Reads (configureTransport sys cfg) := by
  refine Moves.ite (fun _ => ?_) fun _ => ?_
  · refine Moves.bind (reads_ask _ _) fun host => ?_
    refine Moves.bind (reads_ask _ _) fun port => ?_
    exact Moves.bind (reads_udpPort sys _ _) fun second => Moves.pure _
  · refine Moves.bind (reads_ask _ _) fun host => ?_
    refine Moves.bind (reads_ask _ _) fun port => ?_
    exact Moves.bind (reads_udpPort sys _ _) fun second => Moves.pure _

theorem reads_enabledL3 (instanceName : Bytes) (cfg : Config) :
    Moves Reads (enabledL3 sys instanceName cfg) := by
  refine Moves.bind Moves.get fun h => ?_
  refine Moves.bind (reads_ask _ _) fun interface => ?_
  refine Moves.bind (reads_ask _ _) fun address => ?_
  refine Moves.bind (reads_ask _ _) fun mtu => ?_
  refine Moves.bind (reads_ask _ _) fun packets => ?_
  refine Moves.bind (reads_ask _ _) fun routesText => ?_
  split
  · exact reads_stop _
  · exact Moves.pure _

theorem reads_configureL3 (instanceName : Bytes) (cfg : Config) :
    Moves Reads (configureL3 sys instanceName cfg) := by
  refine Moves.bind (reads_ask _ _) fun enabled => ?_
  exact Moves.ite (fun _ => Moves.pure _) fun _ => reads_enabledL3 sys instanceName cfg

theorem reads_serviceLoop (names : List Bytes) (old : Services) (remaining i : Nat)
    (services : Services) :
    Moves Reads (serviceLoop sys names old remaining i services) := by
  induction remaining generalizing i services with
  | zero => exact Moves.pure _
  | succ remaining ih =>
      refine Moves.bind (reads_ask _ _) fun name => ?_
      refine Moves.ite (fun _ => reads_stop _) fun _ => ?_
      refine Moves.bind (reads_ask _ _) fun network => ?_
      exact Moves.bind (reads_ask _ _) fun address => ih _ _

theorem reads_configureServices (cfg : Config) :
    Moves Reads (configureServices sys cfg) := by
  refine Moves.bind (reads_ask _ _) fun configure => ?_
  refine Moves.ite (fun _ => Moves.pure _) fun _ => ?_
  refine Moves.bind (reads_ask _ _) fun count => ?_
  exact Moves.bind (reads_serviceLoop sys _ _ _ _ _) fun services => Moves.pure _

theorem reads_forwardLoop (old : List Forward) (remaining : Nat) (forwards : List Forward) :
    Moves Reads (forwardLoop sys old remaining forwards) := by
  induction remaining generalizing forwards with
  | zero => exact Moves.pure _
  | succ remaining ih =>
      refine Moves.bind (reads_ask _ _) fun name => ?_
      refine Moves.ite (fun _ => reads_stop _) fun _ => ?_
      refine Moves.bind (reads_ask _ _) fun protocol => ?_
      refine Moves.bind (reads_ask _ _) fun listen => ?_
      exact Moves.bind (reads_ask _ _) fun service => ih _

theorem reads_configureForwards (cfg : Config) :
    Moves Reads (configureForwards sys cfg) := by
  refine Moves.bind (reads_ask _ _) fun configure => ?_
  refine Moves.ite (fun _ => Moves.pure _) fun _ => ?_
  refine Moves.bind (reads_ask _ _) fun count => ?_
  exact Moves.bind (reads_forwardLoop sys _ _ _) fun forwards => Moves.pure _

/-! ## The secret -/

/-- The secret file of the configuration, the secret to be written to it if
there is one, and whether that is shown to the operator. -/
structure SecretPlan where
  path : Bytes
  secret : Option Bytes
  generated : Bool

/-- The secret that `configureSecret` returns, empty unless it is generated. -/
def SecretPlan.shown (plan : SecretPlan) : Bytes :=
  if plan.generated then plan.secret.getD [] else []

/-- The secret stays where it is, and must be usable. -/
def keepSecret (path : Bytes) : Dialogue SecretPlan := do
  let h ← get
  match readSecret sys path h.files with
  | some error => stop (.unusableSecret error)
  | none => pure ⟨path, none, false⟩

/-- The secret is in a file that exists, and must be usable. -/
def useSecretFile (default : Bytes) : Dialogue SecretPlan := do
  let path ← promptRequired default
  let h ← get
  match readSecret sys path h.files with
  | some error => stop (.secret error)
  | none => pure ⟨path, none, false⟩

/-- The secret is typed in and written to a file. An existing file is replaced
without a question. -/
def pasteSecret (defaultPath : Bytes) : Dialogue SecretPlan := do
  let secret ← readSecretLine
  if (Text.trimSpace secret).length < 32 then stop (.secret .short)
  else
    let path ← promptRequired defaultPath
    pure ⟨path, some (Text.trimSpace secret), false⟩

/-- The secret is drawn and written to a file, which is replaced only if the
operator agrees. -/
def generateSecret (defaultPath : Bytes) : Dialogue SecretPlan := do
  match sys.random with
  | none => stop .random
  | some secret =>
      let path ← promptRequired defaultPath
      let h ← get
      let overwrite ← askIf (stat sys path h.files = .found) (yesNo sys.lib false) true
      if overwrite then pure ⟨path, some secret, true⟩ else stop .cancelled

/-- The questions of `configureSecret`. -/
def planSecret (instanceName : Bytes) (cfg : Config) (editing : Bool) :
    Dialogue SecretPlan := do
  let defaultPath := Text.join sys.configDir (instanceName ++ ofString ".key")
  let secretFile := valueOr cfg.auth.secretFile defaultPath
  let options := [ofString "generate", ofString "paste", ofString "file"]
  let action ← choice sys.lib
    (if editing then ofString "keep" :: options else options)
    (if editing then ofString "keep" else ofString "generate")
  if action = ofString "keep" then keepSecret sys secretFile
  else if action = ofString "file" then useSecretFile sys secretFile
  else if action = ofString "paste" then pasteSecret defaultPath
  else if action = ofString "generate" then generateSecret sys defaultPath
  else stop .unsupportedSecretAction

theorem reads_keepSecret (path : Bytes) : Moves Reads (keepSecret sys path) := by
  refine Moves.bind Moves.get fun h => ?_
  split
  · exact reads_stop _
  · exact Moves.pure _

theorem reads_useSecretFile (default : Bytes) : Moves Reads (useSecretFile sys default) := by
  refine Moves.bind (reads_ask _ _) fun path => ?_
  refine Moves.bind Moves.get fun h => ?_
  split
  · exact reads_stop _
  · exact Moves.pure _

theorem reads_pasteSecret (defaultPath : Bytes) : Moves Reads (pasteSecret defaultPath) := by
  refine Moves.bind (reads_ask _ _) fun secret => ?_
  refine Moves.ite (fun _ => reads_stop _) fun _ => ?_
  exact Moves.bind (reads_ask _ _) fun path => Moves.pure _

theorem reads_generateSecret (defaultPath : Bytes) :
    Moves Reads (generateSecret sys defaultPath) := by
  unfold generateSecret
  split
  · exact reads_stop _
  · refine Moves.bind (reads_ask _ _) fun path => ?_
    refine Moves.bind Moves.get fun h => ?_
    refine Moves.bind (reads_askIf (reads_ask _ _)) fun overwrite => ?_
    exact Moves.ite (fun _ => Moves.pure _) fun _ => reads_stop _

/-- Whatever becomes of the secret, nothing is written while asking for it. -/
theorem reads_planSecret (instanceName : Bytes) (cfg : Config) (editing : Bool) :
    Moves Reads (planSecret sys instanceName cfg editing) := by
  refine Moves.bind (reads_ask _ _) fun action => ?_
  refine Moves.ite (fun _ => reads_keepSecret sys _) fun _ => ?_
  refine Moves.ite (fun _ => reads_useSecretFile sys _) fun _ => ?_
  refine Moves.ite (fun _ => reads_pasteSecret _) fun _ => ?_
  exact Moves.ite (fun _ => reads_generateSecret sys _) fun _ => reads_stop _

/-- What `configureSecret` does after its questions. -/
def applySecret (plan : SecretPlan) : Dialogue Unit :=
  match plan.secret with
  | none => pure ()
  | some secret => writeSecret sys plan.path secret true

/-- The secret is written, and the configuration names its file. -/
def configureSecret (instanceName : Bytes) (cfg : Config) (editing : Bool) :
    Dialogue (Config × Bytes) := do
  let plan ← planSecret sys instanceName cfg editing
  applySecret sys plan
  pure ({ cfg with auth := ⟨plan.path⟩ }, plan.shown)

/-! ## The wizard -/

/-- The questions of the wizard before those for the carriers. -/
def opening (instanceName : Bytes) (current : Option Config) : Dialogue Config := do
  let cfg := current.getD (defaultConfig instanceName)
  let role ← choice sys.lib [server, client] cfg.role
  let nodeID ← promptIdentifier cfg.nodeID
  let peerID ← promptIdentifier cfg.peerID
  let mode ← choice sys.lib [tcp, udp, both] cfg.transport.mode
  let prefer ← askIf (mode = both) (choice sys.lib [udp, tcp] cfg.transport.prefer) mode
  pure { cfg with role, nodeID, peerID, transport := { cfg.transport with mode, prefer } }

/-- The wizard up to the secret. -/
def draft (instanceName : Bytes) (current : Option Config) : Dialogue Config := do
  let cfg ← opening sys instanceName current
  let cfg ← configureTransport sys cfg
  let cfg ← configureL3 sys instanceName cfg
  let cfg ← configureServices sys cfg
  configureForwards sys cfg

theorem reads_opening (instanceName : Bytes) (current : Option Config) :
    Moves Reads (opening sys instanceName current) := by
  refine Moves.bind (reads_ask _ _) fun role => ?_
  refine Moves.bind (reads_ask _ _) fun nodeID => ?_
  refine Moves.bind (reads_ask _ _) fun peerID => ?_
  refine Moves.bind (reads_ask _ _) fun mode => ?_
  exact Moves.bind (reads_askIf (reads_ask _ _)) fun prefer => Moves.pure _

theorem reads_draft (instanceName : Bytes) (current : Option Config) :
    Moves Reads (draft sys instanceName current) := by
  refine Moves.bind (reads_opening sys instanceName current) fun opened => ?_
  refine Moves.bind (reads_configureTransport sys _) fun withTransport => ?_
  refine Moves.bind (reads_configureL3 sys _ _) fun withL3 => ?_
  exact Moves.bind (reads_configureServices sys _) fun withServices =>
    reads_configureForwards sys _

/-- The wizard, with the secret to be shown. -/
def wizard (instanceName : Bytes) (current : Option Config) : Dialogue (Config × Bytes) := do
  let cfg ← draft sys instanceName current
  let (cfg, shown) ← configureSecret sys instanceName cfg current.isSome
  let (errors, normal) := cfg.validate sys.lib
  if errors = [] then pure (normal, shown) else stop (.generatedInvalid errors)

end UnknownTunnel.Admin

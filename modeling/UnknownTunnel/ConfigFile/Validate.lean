import Mathlib.Data.List.AList
import UnknownTunnel.ConfigFile.Identifier
import UnknownTunnel.Foundation.Text

/-!
# Configurations and their validation

`Validate` collects the errors of a configuration and brings it into normal
form on the way: names of roles, protocols and networks become lower case, and
missing preferences, sizes and protocol lists get their defaults. Everything
else in the program reads the normalised configuration.

## Implementation notes

The map of services is a list of entries with distinct names, in the order in
which one iteration visits them. Lower-casing by the tables of Unicode and the
grammar of address ranges are parameters.
-/

namespace UnknownTunnel.ConfigFile

open Foundation

/-- `strings.ToLower`, and whether `net.ParseCIDR` accepts a string. -/
structure Library where
  toLower : Bytes → Bytes
  parseCIDR : Bytes → Bool

/-- Where the shared secret is. -/
structure AuthConfig where
  secretFile : Bytes
  deriving DecidableEq

/-- The carriers, the preferred one, and their endpoints. -/
structure TransportConfig where
  mode : Bytes
  prefer : Bytes
  listenTCP : Bytes
  listenUDP : Bytes
  connectTCP : Bytes
  connectUDP : Bytes
  deriving DecidableEq

/-- The interface for IP packets. -/
structure L3Config where
  enabled : Bool
  interface : Bytes
  address : Bytes
  mtu : Int
  routes : List Bytes
  allowProtocols : List Bytes
  deriving DecidableEq

/-- What a forward of the peer may be connected to. -/
structure Service where
  network : Bytes
  address : Bytes
  deriving DecidableEq

/-- A local endpoint and the service of the peer that it leads to. -/
structure Forward where
  name : Bytes
  protocol : Bytes
  listen : Bytes
  service : Bytes
  deriving DecidableEq

/-- The services by their names. A Go map is visited in any order, here in the
order of the list. -/
abbrev Services := AList fun _ : Bytes => Service

/-- The configuration of a node. -/
structure Config where
  nodeID : Bytes
  peerID : Bytes
  role : Bytes
  auth : AuthConfig
  transport : TransportConfig
  l3 : L3Config
  services : Services
  forwards : List Forward
  deriving DecidableEq

/-- Whether `interfaceRE` matches. -/
def interfaceRE (value : Bytes) : Bool :=
  1 ≤ value.length && value.length ≤ 15 && value.all isSafe

def tcp : Bytes := ofString "tcp"
def udp : Bytes := ofString "udp"
def both : Bytes := ofString "both"
def server : Bytes := ofString "server"
def client : Bytes := ofString "client"

/-! ## Addresses -/

/-- What is wrong with a listen or dial address. -/
inductive AddressError
  | required
  | split (error : Text.AddrError)
  | controlCharacters
  | hostRequired
  | port
  | unspecified
  deriving DecidableEq

/-- The host and the port of an endpoint. A listening one may leave the host out. -/
def splitAndValidateHostPort (value : Bytes) (requireHost : Bool) :
    Except AddressError (Bytes × Int) :=
  if value = [] then .error .required
  else
    match Text.splitHostPort value with
    | .error error => .error (.split error)
    | .ok (host, portText) =>
        if 13 ∈ host ∨ 10 ∈ host ∨ 9 ∈ host then .error .controlCharacters
        else if requireHost ∧ Text.trimSpace host = [] then .error .hostRequired
        else
          match Text.atoi portText with
          | none => .error .port
          | some port => if port < 1 ∨ 65535 < port then .error .port else .ok (host, port)

/-- What is wrong with an endpoint to listen on. -/
def validateListenAddress (value : Bytes) : Option AddressError :=
  match splitAndValidateHostPort value false with
  | .error error => some error
  | .ok _ => none

/-- What is wrong with an endpoint to connect to. -/
def validateDialAddress (value : Bytes) : Option AddressError :=
  match splitAndValidateHostPort value true with
  | .error error => some error
  | .ok (host, _) =>
      if host = ofString "0.0.0.0" ∨ host = ofString "::" then some .unspecified else none

/-! ## Validation -/

/-- The errors of `Validate`, named by the field they are about. -/
inductive ValidationError
  | nodeID
  | peerID
  | sameID
  | role
  | secretFile
  | transportMode
  | transportPrefer
  | preferMismatch
  | listenTCP (error : AddressError)
  | listenUDP (error : AddressError)
  | connectTCP (error : AddressError)
  | connectUDP (error : AddressError)
  | l3Interface
  | l3Address
  | l3MTU
  | l3Route (route : Bytes)
  | l3Protocol (value : Bytes)
  | l3DuplicateProtocol (value : Bytes)
  | serviceName (name : Bytes)
  | serviceNetwork (name : Bytes)
  | serviceAddress (name : Bytes) (error : AddressError)
  | forwardName (i : Nat)
  | duplicateForward (name : Bytes)
  | forwardProtocol (name : Bytes)
  | forwardListen (name : Bytes) (error : AddressError)
  | forwardService (name : Bytes)
  deriving DecidableEq

/-- An error that is reported if a condition holds. -/
def reportIf (p : Prop) [Decidable p] (error : ValidationError) : List ValidationError :=
  if p then [error] else []

@[simp] theorem reportIf_eq_nil {p : Prop} [Decidable p] {error : ValidationError} :
    reportIf p error = [] ↔ ¬ p := by
  unfold reportIf
  split <;> simp_all

variable (L : Library)

/-- The addresses that the carriers of the mode need for the role. -/
def addressErrors (role : Bytes) (t : TransportConfig) : List ValidationError :=
  let needsTCP : Bool := t.mode = tcp ∨ t.mode = both
  let needsUDP : Bool := t.mode = udp ∨ t.mode = both
  let report (needed : Bool) (error : Option ValidationError) : List ValidationError :=
    if needed then error.toList else []
  if role = server then
    report needsTCP ((validateListenAddress t.listenTCP).map .listenTCP) ++
      report needsUDP ((validateListenAddress t.listenUDP).map .listenUDP)
  else if role = client then
    report needsTCP ((validateDialAddress t.connectTCP).map .connectTCP) ++
      report needsUDP ((validateDialAddress t.connectUDP).map .connectUDP)
  else []

/-- The transport section in normal form. -/
def normalizeTransport (t : TransportConfig) : TransportConfig :=
  let mode := L.toLower t.mode
  let prefer := L.toLower t.prefer
  { t with
    mode
    prefer := if prefer = [] then if mode = both then udp else mode else prefer }

/-- The errors of a transport section in normal form. -/
def transportErrors (role : Bytes) (t : TransportConfig) : List ValidationError :=
  reportIf (t.mode ≠ tcp ∧ t.mode ≠ udp ∧ t.mode ≠ both) .transportMode ++
    reportIf (t.prefer ≠ tcp ∧ t.prefer ≠ udp) .transportPrefer ++
    reportIf (t.mode ≠ both ∧ t.prefer ≠ t.mode) .preferMismatch ++
    addressErrors role t

/-- The section is checked in the form in which it is left behind. -/
def validateTransport (role : Bytes) (t : TransportConfig) :
    List ValidationError × TransportConfig :=
  (transportErrors role (normalizeTransport L t), normalizeTransport L t)

/-- The list of protocols in normal form. -/
def normalizeProtocols (protocols : List Bytes) : List Bytes :=
  (if protocols = [] then [tcp, udp] else protocols).map L.toLower

/-- The errors of a normalised list after the protocols already `seen`. -/
def protocolErrors (seen : List Bytes) : List Bytes → List ValidationError
  | [] => []
  | p :: rest =>
      reportIf (p ≠ tcp ∧ p ≠ udp) (.l3Protocol p) ++
        reportIf (p ∈ seen) (.l3DuplicateProtocol p) ++ protocolErrors (p :: seen) rest

/-- A section that is not enabled is left as it is. -/
def normalizeL3 (l3 : L3Config) : L3Config :=
  if l3.enabled then
    { l3 with
      mtu := if l3.mtu = 0 then 1200 else l3.mtu
      allowProtocols := normalizeProtocols L l3.allowProtocols }
  else l3

/-- The errors of a section in normal form; one that is not enabled has none. -/
def l3Errors (l3 : L3Config) : List ValidationError :=
  if l3.enabled then
    reportIf (interfaceRE l3.interface = false) .l3Interface ++
      reportIf (L.parseCIDR l3.address = false) .l3Address ++
      reportIf (l3.mtu < 576 ∨ 1300 < l3.mtu) .l3MTU ++
      (l3.routes.filter fun route => !L.parseCIDR route).map .l3Route ++
      protocolErrors [] l3.allowProtocols
  else []

/-- The section is checked in the form in which it is left behind. -/
def validateL3 (l3 : L3Config) : List ValidationError × L3Config :=
  (l3Errors L (normalizeL3 L l3), normalizeL3 L l3)

/-- A service whose name is not valid is skipped. -/
def normalizeService (name : Bytes) (s : Service) : Service :=
  if identifierRE name then { s with network := L.toLower s.network } else s

/-- The errors of a service in normal form. -/
def serviceErrors (name : Bytes) (s : Service) : List ValidationError :=
  if identifierRE name then
    reportIf (s.network ≠ tcp ∧ s.network ≠ udp) (.serviceNetwork name) ++
      ((validateDialAddress s.address).map (.serviceAddress name)).toList
  else [.serviceName name]

theorem keys_normalizeServices (services : Services) :
    (services.entries.map fun e =>
      (⟨e.1, normalizeService L e.1 e.2⟩ : Sigma fun _ => Service)).keys =
      services.entries.keys := by
  simp [List.keys, Function.comp_def]

/-- Every service in normal form, in the same order. -/
def normalizeServices (services : Services) : Services where
  entries := services.entries.map fun e => ⟨e.1, normalizeService L e.1 e.2⟩
  nodupKeys := by
    rw [List.NodupKeys, keys_normalizeServices]
    exact services.nodupKeys

/-- A forward with its protocol in lower case. -/
def normalizeForward (f : Forward) : Forward := { f with protocol := L.toLower f.protocol }

/-- The errors of normalised forwards after the names already `seen`. -/
def forwardErrors (seen : List Bytes) (i : Nat) : List Forward → List ValidationError
  | [] => []
  | f :: rest =>
      reportIf (identifierRE f.name = false) (.forwardName i) ++
        reportIf (f.name ∈ seen) (.duplicateForward f.name) ++
        reportIf (f.protocol ≠ tcp ∧ f.protocol ≠ udp) (.forwardProtocol f.name) ++
        ((validateListenAddress f.listen).map (.forwardListen f.name)).toList ++
        reportIf (identifierRE f.service = false) (.forwardService f.name) ++
        forwardErrors (f.name :: seen) (i + 1) rest

namespace Config

/-- The configuration that `Validate` leaves behind. -/
def normalize (c : Config) : Config :=
  { c with
    role := L.toLower c.role
    transport := (validateTransport L (L.toLower c.role) c.transport).2
    l3 := (validateL3 L c.l3).2
    services := normalizeServices L c.services
    forwards := c.forwards.map (normalizeForward L) }

/-- `Validate`: the errors it joins, and the configuration it leaves behind. -/
def validate (c : Config) : List ValidationError × Config :=
  let role := L.toLower c.role
  let errors :=
    reportIf (identifierRE c.nodeID = false) .nodeID ++
      reportIf (identifierRE c.peerID = false) .peerID ++
      reportIf (c.nodeID = c.peerID ∧ c.nodeID ≠ []) .sameID ++
      reportIf (role ≠ server ∧ role ≠ client) .role ++
      reportIf (c.auth.secretFile = []) .secretFile ++
      (validateTransport L role c.transport).1 ++
      (validateL3 L c.l3).1 ++
      (normalizeServices L c.services).entries.flatMap (fun e => serviceErrors e.1 e.2) ++
      forwardErrors [] 0 (c.forwards.map (normalizeForward L))
  (errors, c.normalize L)

/-- `Validate` returns no error. -/
def Accepted (c : Config) : Prop := (c.validate L).1 = []

instance (c : Config) : Decidable (c.Accepted L) :=
  inferInstanceAs (Decidable ((c.validate L).1 = []))

end Config

/-! ## Accepted configurations -/

section Accepted

variable {L}

/-- A loop that keeps what it has seen: the rest has seen one more. -/
theorem unseen_cons {α κ : Type*} (key : α → κ) (ok : α → Prop) (seen : List κ) (a : α)
    (rest : List α) :
    ((∀ b ∈ a :: rest, ok b ∧ key b ∉ seen) ∧ ((a :: rest).map key).Nodup) ↔
      ok a ∧ key a ∉ seen ∧ (∀ b ∈ rest, ok b ∧ key b ∉ key a :: seen) ∧
        (rest.map key).Nodup := by
  rw [List.forall_mem_cons]
  simp only [List.map_cons, List.nodup_cons, List.mem_map, List.mem_cons, not_exists, not_and,
    not_or]
  constructor
  · rintro ⟨⟨⟨hok, hseen⟩, hrest⟩, hdistinct, hnodup⟩
    exact ⟨hok, hseen, fun b hb => ⟨(hrest b hb).1, hdistinct b hb, (hrest b hb).2⟩, hnodup⟩
  · rintro ⟨hok, hseen, hrest, hnodup⟩
    exact ⟨⟨⟨hok, hseen⟩, fun b hb => ⟨(hrest b hb).1, (hrest b hb).2.2⟩⟩,
      fun b hb => (hrest b hb).2.1, hnodup⟩

/-- What `Validate` demands of a forward in normal form. -/
structure Forward.Valid (f : Forward) : Prop where
  name : identifierRE f.name = true
  protocol : f.protocol = tcp ∨ f.protocol = udp
  listen : validateListenAddress f.listen = none
  service : identifierRE f.service = true

theorem forwardErrors_eq_nil {seen : List Bytes} {i : Nat} {forwards : List Forward} :
    forwardErrors seen i forwards = [] ↔
      (∀ f ∈ forwards, f.Valid ∧ f.name ∉ seen) ∧ (forwards.map Forward.name).Nodup := by
  induction forwards generalizing seen i with
  | nil => simp [forwardErrors]
  | cons f rest ih =>
      rw [unseen_cons Forward.name Forward.Valid, ← ih (i := i + 1)]
      simp only [forwardErrors, List.append_eq_nil_iff, reportIf_eq_nil, Option.toList_eq_nil_iff,
        Option.map_eq_none_iff, Bool.not_eq_false, not_and_or, not_not]
      constructor
      · rintro ⟨⟨⟨⟨⟨hname, hseen⟩, hprotocol⟩, hlisten⟩, hservice⟩, hrest⟩
        exact ⟨⟨hname, hprotocol, hlisten, hservice⟩, hseen, hrest⟩
      · rintro ⟨hvalid, hseen, hrest⟩
        exact ⟨⟨⟨⟨⟨hvalid.name, hseen⟩, hvalid.protocol⟩, hvalid.listen⟩, hvalid.service⟩, hrest⟩

theorem protocolErrors_eq_nil {seen protocols : List Bytes} :
    protocolErrors seen protocols = [] ↔
      (∀ p ∈ protocols, (p = tcp ∨ p = udp) ∧ p ∉ seen) ∧ protocols.Nodup := by
  induction protocols generalizing seen with
  | nil => simp [protocolErrors]
  | cons p rest ih =>
      have hcons := unseen_cons id (fun p => p = tcp ∨ p = udp) seen p rest
      simp only [List.map_id, id] at hcons
      rw [hcons, ← ih]
      simp only [protocolErrors, List.append_eq_nil_iff, reportIf_eq_nil, not_and_or, not_not,
        and_assoc]

/-- What `Validate` demands of a service in normal form. -/
structure Service.Valid (name : Bytes) (s : Service) : Prop where
  name : identifierRE name = true
  network : s.network = tcp ∨ s.network = udp
  address : validateDialAddress s.address = none

theorem serviceErrors_eq_nil {name : Bytes} {s : Service} :
    serviceErrors name s = [] ↔ s.Valid name := by
  unfold serviceErrors
  split
  · rename_i hname
    simp only [List.append_eq_nil_iff, reportIf_eq_nil, Option.toList_eq_nil_iff,
      Option.map_eq_none_iff, not_and_or, not_not]
    exact ⟨fun ⟨hn, ha⟩ => ⟨hname, hn, ha⟩, fun h => ⟨h.network, h.address⟩⟩
  · rename_i hname
    exact ⟨nofun, fun h => absurd h.name hname⟩

/-- What `Validate` demands of an enabled L3 section in normal form. -/
structure L3Config.Valid (L : Library) (l3 : L3Config) : Prop where
  interface : interfaceRE l3.interface = true
  address : L.parseCIDR l3.address = true
  mtu : 576 ≤ l3.mtu ∧ l3.mtu ≤ 1300
  routes : ∀ route ∈ l3.routes, L.parseCIDR route = true
  protocols : ∀ p ∈ l3.allowProtocols, p = tcp ∨ p = udp
  distinct : l3.allowProtocols.Nodup

theorem l3Errors_eq_nil {l3 : L3Config} :
    l3Errors L l3 = [] ↔ (l3.enabled = true → l3.Valid L) := by
  unfold l3Errors
  split
  · rename_i henabled
    simp only [List.append_eq_nil_iff, reportIf_eq_nil, Bool.not_eq_false, List.map_eq_nil_iff,
      List.filter_eq_nil_iff, Bool.not_eq_true', not_or, not_lt, protocolErrors_eq_nil,
      List.not_mem_nil, not_false_eq_true, and_true]
    constructor
    · rintro ⟨⟨⟨⟨hi, ha⟩, hm⟩, hr⟩, hp, hn⟩ -
      exact ⟨hi, ha, hm, hr, hp, hn⟩
    · intro h
      obtain ⟨hi, ha, hm, hr, hp, hn⟩ := h henabled
      exact ⟨⟨⟨⟨hi, ha⟩, hm⟩, hr⟩, hp, hn⟩
  · rename_i hdisabled
    exact ⟨fun _ henabled => absurd henabled hdisabled, fun _ => rfl⟩

namespace Config

/-- What `Validate` demands of a configuration in normal form. -/
structure Valid (L : Library) (c : Config) : Prop where
  nodeID : identifierRE c.nodeID = true
  peerID : identifierRE c.peerID = true
  differ : c.nodeID ≠ c.peerID
  role : c.role = server ∨ c.role = client
  secretFile : c.auth.secretFile ≠ []
  transport : transportErrors c.role c.transport = []
  l3 : c.l3.enabled = true → c.l3.Valid L
  services : ∀ e ∈ c.services.entries, e.2.Valid e.1
  forwards : ∀ f ∈ c.forwards, f.Valid
  distinct : (c.forwards.map Forward.name).Nodup

/-- `Validate` accepts a configuration whose normal form meets its demands. -/
theorem accepted_iff {c : Config} : c.Accepted L ↔ (c.normalize L).Valid L := by
  simp only [Accepted, validate, List.append_eq_nil_iff, reportIf_eq_nil, Bool.not_eq_false,
    List.flatMap_eq_nil_iff, serviceErrors_eq_nil, forwardErrors_eq_nil, validateTransport,
    validateL3, l3Errors_eq_nil, List.not_mem_nil, not_false_eq_true, and_true]
  constructor
  · rintro ⟨⟨⟨⟨⟨⟨⟨⟨hnode, hpeer⟩, hdiffer⟩, hrole⟩, hsecret⟩, htransport⟩, hl3⟩, hservices⟩,
      hforwards, hdistinct⟩
    refine ⟨hnode, hpeer, ?_, ?_, hsecret, htransport, hl3, hservices, hforwards, hdistinct⟩
    · intro heq
      refine hdiffer ⟨heq, ?_⟩
      intro hnil
      rw [hnil] at hnode
      cases hnode
    · exact or_iff_not_and_not.mpr hrole
  · intro h
    exact ⟨⟨⟨⟨⟨⟨⟨⟨h.nodeID, h.peerID⟩, fun heq => h.differ heq.1⟩,
      or_iff_not_and_not.mp h.role⟩, h.secretFile⟩, h.transport⟩, h.l3⟩, h.services⟩,
      h.forwards, h.distinct⟩

theorem Accepted.forward_names {c : Config} (h : c.Accepted L) :
    (∀ f ∈ (c.normalize L).forwards, identifierRE f.name = true) ∧
      ((c.normalize L).forwards.map Forward.name).Nodup := by
  have hvalid := accepted_iff.mp h
  exact ⟨fun f hf => (hvalid.forwards f hf).name, hvalid.distinct⟩

end Config

end Accepted

/-! ## A small configuration -/

/-- The library on ASCII strings and without address ranges. -/
def sampleLibrary : Library := ⟨List.map Text.lowerByte, fun _ => false⟩

/-- A server with one UDP service, to which it forwards as well. -/
def sampleConfig : Config where
  nodeID := ofString "a"
  peerID := ofString "b"
  role := ofString "Server"
  auth := ⟨ofString "key"⟩
  transport :=
    { mode := ofString "TCP", prefer := [], listenTCP := ofString ":8443", listenUDP := []
      connectTCP := [], connectUDP := [] }
  l3 :=
    { enabled := false, interface := [], address := [], mtu := 0, routes := []
      allowProtocols := [] }
  services := AList.singleton (ofString "dns") ⟨ofString "UDP", ofString "127.0.0.1:53"⟩
  forwards := [⟨ofString "dns", ofString "udp", ofString ":53", ofString "dns"⟩]

theorem sampleConfig_accepted : sampleConfig.Accepted sampleLibrary := by decide +kernel

end UnknownTunnel.ConfigFile

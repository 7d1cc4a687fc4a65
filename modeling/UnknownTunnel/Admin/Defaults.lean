import UnknownTunnel.Admin.Outcomes
import UnknownTunnel.Admin.SecretAtomicity

/-!
# Editing with every default

An edit in which every question gets an empty answer is to change nothing. Both
carriers get the first old address that can be split as their endpoint, so the
edit keeps the endpoints exactly if every carrier in use has that one.

## Implementation notes

Endpoints are the same if their addresses are split into one host and one port;
brackets that a host does not need are not kept. The services are a map and the
allowed protocols a set.
-/

namespace UnknownTunnel.Admin

open Foundation ConfigFile

variable (sys : System) {L : Library}

/-! ## What is kept -/

theorem firstEndpoint_eq_some {values : List Bytes} {endpoint : Bytes × Bytes}
    (h : firstEndpoint values = some endpoint) :
    ∃ value ∈ values, Text.splitHostPort value = .ok endpoint := by
  induction values with
  | nil => cases h
  | cons value rest ih =>
      have hrest : firstEndpoint rest = some endpoint →
          ∃ other ∈ value :: rest, Text.splitHostPort other = .ok endpoint := by
        intro hfirst
        obtain ⟨other, hother, hsplit⟩ := ih hfirst
        exact ⟨other, List.mem_cons_of_mem _ hother, hsplit⟩
      unfold firstEndpoint at h
      split at h
      · exact hrest h
      · split at h
        · rename_i hsplit
          cases h
          exact ⟨value, List.mem_cons_self, hsplit⟩
        · exact hrest h

theorem firstEndpoint_of_ok {value : Bytes} {endpoint : Bytes × Bytes}
    (h : Text.splitHostPort value = .ok endpoint) (rest : List Bytes) :
    firstEndpoint (value :: rest) = some endpoint := by
  rw [firstEndpoint, if_neg (ne_nil_of_splitHostPort h), h]

theorem firstEndpoint_of_error {value : Bytes}
    (h : ∀ endpoint, Text.splitHostPort value ≠ .ok endpoint) (rest : List Bytes) :
    firstEndpoint (value :: rest) = firstEndpoint rest := by
  rw [firstEndpoint]
  split
  · rfl
  · split
    · rename_i endpoint hsplit
      exact absurd hsplit (h endpoint)
    · rfl

theorem plain_oldEndpoint (cfg : Config) :
    Text.Plain (oldEndpoint cfg).1 (oldEndpoint cfg).2 := by
  unfold oldEndpoint
  cases h : firstEndpoint [cfg.endpoints.1, cfg.endpoints.2] with
  | none =>
      rw [Option.getD_none]
      split
      · exact ⟨by decide, by decide⟩
      · exact ⟨by decide, by decide⟩
  | some endpoint =>
      obtain ⟨value, -, hsplit⟩ := firstEndpoint_eq_some h
      exact Text.plain_of_splitHostPort hsplit

/-- The address that is put together is that of the old endpoint. -/
theorem splitHostPort_oldEndpoint (cfg : Config) :
    Text.splitHostPort (Text.joinHostPort (oldEndpoint cfg).1 (oldEndpoint cfg).2) =
      .ok (oldEndpoint cfg) :=
  Text.splitHostPort_joinHostPort (plain_oldEndpoint cfg)

/-- The carriers share an endpoint where both are used, and no other TCP address
is left over where only UDP is. -/
structure EndpointsAgree (cfg : Config) : Prop where
  shared : cfg.transport.mode = both →
    Text.splitHostPort cfg.endpoints.2 = Text.splitHostPort cfg.endpoints.1
  leftover : cfg.transport.mode = udp → ∀ endpoint,
    Text.splitHostPort cfg.endpoints.1 = .ok endpoint →
    Text.splitHostPort cfg.endpoints.2 = .ok endpoint

/-- What accepting every default is to leave as it was. -/
structure Unchanged (old new : Config) : Prop where
  role : new.role = old.role
  nodeID : new.nodeID = old.nodeID
  peerID : new.peerID = old.peerID
  mode : new.transport.mode = old.transport.mode
  prefer : new.transport.prefer = old.transport.prefer
  endpointTCP : NeedsTCP old.transport.mode →
    Text.splitHostPort new.endpoints.1 = Text.splitHostPort old.endpoints.1
  endpointUDP : NeedsUDP old.transport.mode →
    Text.splitHostPort new.endpoints.2 = Text.splitHostPort old.endpoints.2
  services : ∀ name, new.services.lookup name = old.services.lookup name
  forwards : new.forwards = old.forwards
  secretFile : new.auth.secretFile = old.auth.secretFile
  enabled : new.l3.enabled = old.l3.enabled
  l3 : old.l3.enabled = true →
    new.l3.interface = old.l3.interface ∧ new.l3.address = old.l3.address ∧
      new.l3.mtu = old.l3.mtu ∧ new.l3.routes = old.l3.routes ∧
      ∀ p, p ∈ new.l3.allowProtocols ↔ p ∈ old.l3.allowProtocols

/-- Every carrier that is used has the old endpoint. -/
structure Covered (cfg : Config) : Prop where
  tcp : NeedsTCP cfg.transport.mode →
    Text.splitHostPort cfg.endpoints.1 = .ok (oldEndpoint cfg)
  udp : NeedsUDP cfg.transport.mode →
    Text.splitHostPort cfg.endpoints.2 = .ok (oldEndpoint cfg)

theorem oldEndpoint_of_ok {cfg : Config} {endpoint : Bytes × Bytes}
    (h : Text.splitHostPort cfg.endpoints.1 = .ok endpoint) : oldEndpoint cfg = endpoint := by
  rw [oldEndpoint, firstEndpoint_of_ok h, Option.getD_some]

theorem passes_of_valid {cfg : Config} {value : Bytes}
    (hvalid : validateEndpoint cfg.role value = none)
    (hsplit : Text.splitHostPort value = .ok (oldEndpoint cfg)) : EndpointPasses cfg := by
  obtain ⟨host, port, n, hok, hport, hlow, hhigh, hhost⟩ := endpoint_of_valid hvalid
  rw [hsplit, Except.ok.injEq] at hok
  have hne : port ≠ [] := by
    rintro rfl
    cases hport
  rw [EndpointPasses, hok]
  refine ⟨hhost, ?_⟩
  have hrange : inRange 1 65535 port = some n := by
    rw [inRange, hport, Option.filter_some, if_pos]
    simpa using ⟨hlow, hhigh⟩
  simp [hne, hrange]

theorem covered_iff {cfg : Config} (h : cfg.TransportValid) :
    Covered cfg ↔ EndpointsAgree cfg := by
  have hsplit : ∀ {value}, validateEndpoint cfg.role value = none →
      ∃ endpoint, Text.splitHostPort value = .ok endpoint := by
    intro value hvalue
    obtain ⟨host, port, _, hok, _⟩ := endpoint_of_valid hvalue
    exact ⟨_, hok⟩
  constructor
  · intro hcovered
    constructor
    · intro hmode
      rw [hcovered.tcp (Or.inr hmode), hcovered.udp (Or.inr hmode)]
    · intro hmode endpoint hok
      rw [← oldEndpoint_of_ok hok]
      exact hcovered.udp (Or.inl hmode)
  · intro hagree
    by_cases htcp : NeedsTCP cfg.transport.mode
    · -- The endpoint of the TCP carrier comes first.
      obtain ⟨endpoint, hok⟩ := hsplit (h.endpointTCP htcp)
      have hold := oldEndpoint_of_ok hok
      refine ⟨fun _ => hold ▸ hok, ?_⟩
      rintro (hudp | hboth)
      · rcases htcp with htcp | hboth
        · rw [hudp] at htcp
          exact absurd htcp (by decide)
        · rw [hudp] at hboth
          exact absurd hboth (by decide)
      · rw [hagree.shared hboth, hold]
        exact hok
    · have hmode := h.mode_of_not_tcp htcp
      refine ⟨fun hneeds => absurd hneeds htcp, fun hneeds => ?_⟩
      obtain ⟨endpoint, hok⟩ := hsplit (h.endpointUDP hneeds)
      by_cases hleft : ∃ left, Text.splitHostPort cfg.endpoints.1 = .ok left
      · obtain ⟨left, hleft⟩ := hleft
        rw [oldEndpoint_of_ok hleft]
        exact hagree.leftover hmode left hleft
      · rw [not_exists] at hleft
        rw [oldEndpoint, firstEndpoint_of_error hleft, firstEndpoint_of_ok hok, Option.getD_some]
        exact hok

theorem Covered.passes {cfg : Config} (hcovered : Covered cfg) (h : cfg.TransportValid) :
    EndpointPasses cfg := by
  by_cases htcp : NeedsTCP cfg.transport.mode
  · exact passes_of_valid (h.endpointTCP htcp) (hcovered.tcp htcp)
  · have hudp : NeedsUDP cfg.transport.mode := Or.inl (h.mode_of_not_tcp htcp)
    exact passes_of_valid (h.endpointUDP hudp) (hcovered.udp hudp)

/-! ## The result -/

section Result

variable {cfg : Config} {services : Services}

theorem mode_retyped : (retyped cfg services).transport.mode = cfg.transport.mode := by
  simp only [retyped, rejoined]
  split <;> rfl

theorem prefer_retyped : (retyped cfg services).transport.prefer = cfg.transport.prefer := by
  simp only [retyped, rejoined]
  split <;> rfl

/-- Both carriers in use get the address of the old endpoint. -/
theorem endpoints_retyped :
    (retyped cfg services).endpoints =
      (if cfg.transport.mode = tcp ∨ cfg.transport.mode = both then
          Text.joinHostPort (oldEndpoint cfg).1 (oldEndpoint cfg).2 else [],
        if cfg.transport.mode = udp ∨ cfg.transport.mode = both then
          Text.joinHostPort (oldEndpoint cfg).1 (oldEndpoint cfg).2 else []) := by
  by_cases hrole : cfg.role = server
  · simp only [retyped, rejoined, Config.endpoints, hrole, if_true]
  · simp only [retyped, rejoined, Config.endpoints, hrole, if_false]

theorem endpointTCP_retyped (h : NeedsTCP cfg.transport.mode) :
    Text.splitHostPort (retyped cfg services).endpoints.1 = .ok (oldEndpoint cfg) := by
  have hmode : cfg.transport.mode = tcp ∨ cfg.transport.mode = both := h
  rw [endpoints_retyped, if_pos hmode]
  exact splitHostPort_oldEndpoint cfg

theorem endpointUDP_retyped (h : NeedsUDP cfg.transport.mode) :
    Text.splitHostPort (retyped cfg services).endpoints.2 = .ok (oldEndpoint cfg) := by
  have hmode : cfg.transport.mode = udp ∨ cfg.transport.mode = both := h
  rw [endpoints_retyped, if_pos hmode]
  exact splitHostPort_oldEndpoint cfg

theorem rechosen_ne_nil (protocols : List Bytes) : rechosen protocols ≠ [] := by
  unfold rechosen
  split
  · nofun
  · split <;> nofun

theorem nodup_rechosen (protocols : List Bytes) : (rechosen protocols).Nodup := by
  unfold rechosen
  split
  · decide
  · split <;> decide

theorem enabled_reentered (l3 : L3Config) : (reentered l3).enabled = l3.enabled := by
  unfold reentered
  cases l3.enabled with
  | false => rfl
  | true => rfl

theorem allowProtocols_reentered_ne_nil {l3 : L3Config} (h : (reentered l3).enabled = true) :
    (reentered l3).allowProtocols ≠ [] := by
  rw [enabled_reentered] at h
  rw [reentered, if_pos h]
  exact rechosen_ne_nil _

theorem valid_reentered {l3 : L3Config} (h : l3.enabled = true → l3.Valid L)
    (hne : l3.enabled = true → l3.allowProtocols ≠ []) :
    (reentered l3).enabled = true → (reentered l3).Valid L := by
  intro henabled
  rw [enabled_reentered] at henabled
  have hvalid := h henabled
  rw [reentered, if_pos henabled]
  refine ⟨hvalid.interface, hvalid.address, hvalid.mtu, hvalid.routes, ?_, nodup_rechosen _⟩
  intro p hp
  exact hvalid.protocols p ((mem_rechosen hvalid.protocols (hne henabled) p).mp hp)

theorem valid_retyped (hvalid : cfg.Valid L) (hne : cfg.l3.enabled = true →
      cfg.l3.allowProtocols ≠ []) (hcovered : Covered cfg)
    (hservices : ∀ name, services.lookup name = cfg.services.lookup name) :
    (retyped cfg services).Valid L := by
  have htransport := (transportErrors_eq_nil hvalid.role).mp hvalid.transport
  have hnew : (retyped cfg services).TransportValid := by
    refine ⟨?_, ?_, ?_, ?_, ?_⟩
    · rw [mode_retyped]
      exact htransport.mode
    · rw [prefer_retyped]
      exact htransport.prefer
    · rw [mode_retyped, prefer_retyped]
      exact htransport.agree
    · rw [mode_retyped]
      intro hneeds
      exact (validateEndpoint_congr (endpointTCP_retyped hneeds) (hcovered.tcp hneeds) _).trans
        (htransport.endpointTCP hneeds)
    · rw [mode_retyped]
      intro hneeds
      exact (validateEndpoint_congr (endpointUDP_retyped hneeds) (hcovered.udp hneeds) _).trans
        (htransport.endpointUDP hneeds)
  have herrors : transportErrors cfg.role (retyped cfg services).transport = [] :=
    (transportErrors_eq_nil (c := retyped cfg services) hvalid.role).mpr hnew
  have hentries : ∀ e ∈ services.entries, e.2.Valid e.1 := by
    rintro ⟨name, svc⟩ he
    have hlookup : services.lookup name = some svc := AList.mem_lookup_iff.mpr he
    rw [hservices name] at hlookup
    exact hvalid.services ⟨name, svc⟩ (AList.mem_lookup_iff.mp hlookup)
  exact ⟨hvalid.nodeID, hvalid.peerID, hvalid.differ, hvalid.role, hvalid.secretFile, herrors,
    valid_reentered hvalid.l3 hne, hentries, hvalid.forwards, hvalid.distinct⟩

theorem unchanged_retyped (hvalid : cfg.Valid L) (hne : cfg.l3.enabled = true →
      cfg.l3.allowProtocols ≠ []) (hcovered : Covered cfg)
    (hservices : ∀ name, services.lookup name = cfg.services.lookup name) :
    Unchanged cfg (retyped cfg services) where
  role := rfl
  nodeID := rfl
  peerID := rfl
  mode := mode_retyped
  prefer := prefer_retyped
  endpointTCP hneeds := (endpointTCP_retyped hneeds).trans (hcovered.tcp hneeds).symm
  endpointUDP hneeds := (endpointUDP_retyped hneeds).trans (hcovered.udp hneeds).symm
  services := hservices
  forwards := rfl
  secretFile := rfl
  enabled := enabled_reentered _
  l3 henabled := by
    have hl3 : (retyped cfg services).l3 =
        { cfg.l3 with allowProtocols := rechosen cfg.l3.allowProtocols } := by
      rw [retyped, reentered, if_pos henabled]
    rw [hl3]
    exact ⟨rfl, rfl, rfl, rfl, mem_rechosen (hvalid.l3 henabled).protocols (hne henabled)⟩

/-- Whatever validation makes of the result, it keeps the addresses. -/
theorem endpoints_normalize (c : Config) (hrole : L.toLower c.role = c.role) :
    (c.normalize L).endpoints = c.endpoints := by
  simp only [Config.endpoints, Config.normalize, hrole]
  rfl

theorem covered_of_unchanged (hL : L.Standard) (hvalid : cfg.Valid L)
    (h : Unchanged cfg ((retyped cfg services).normalize L)) : Covered cfg := by
  have hendpoints := endpoints_normalize (retyped cfg services) (toLower_role hL hvalid.role)
  constructor
  · intro hneeds
    rw [← h.endpointTCP hneeds, hendpoints]
    exact endpointTCP_retyped hneeds
  · intro hneeds
    rw [← h.endpointUDP hneeds, hendpoints]
    exact endpointUDP_retyped hneeds

end Result

/-- With an empty answer to every question the wizard returns a configuration
that is unchanged if and only if the endpoints of the carriers agree. -/
theorem edit_defaults_unchanged_iff (hL : sys.lib.Standard) (instanceName : Bytes) (c : Config)
    (hc : c.Accepted sys.lib) (hservices : c.services.keys.length ≤ 256)
    (hforwards : c.forwards.length ≤ 256) (h : Host) (hblank : h.Blank)
    (hsecret : readSecret sys c.auth.secretFile h.files = none) :
    (∃ cfg shown h', wizard sys instanceName (some (c.normalize sys.lib)) h = .ok (cfg, shown) h' ∧
      Unchanged (c.normalize sys.lib) cfg) ↔ EndpointsAgree (c.normalize sys.lib) := by
  have hvalid := Config.accepted_iff.mp hc
  have htransport := (transportErrors_eq_nil hvalid.role).mp hvalid.transport
  have hne := Config.allowProtocols_normalize_ne_nil (L := sys.lib) c
  have hcount : (c.normalize sys.lib).services.keys.length ≤ 256 := by
    have hkeys : (c.normalize sys.lib).services.keys = c.services.keys :=
      keys_normalizeServices sys.lib c.services
    rw [hkeys]
    exact hservices
  have hforwards' : (c.normalize sys.lib).forwards.length ≤ 256 := by
    simpa [Config.normalize] using hforwards
  have hsilent : Silent h.files h := ⟨hblank, rfl⟩
  rw [← covered_iff htransport]
  constructor
  · rintro ⟨cfg, shown, h', hrun, hunchanged⟩
    by_cases hpasses : EndpointPasses (c.normalize sys.lib)
    · obtain ⟨services, hlookup, hout⟩ :=
        outcome_wizard sys hL instanceName hvalid hpasses hcount hforwards' hsecret
      have hresult := hout.eq_some hsilent hrun
      split at hresult
      · cases hresult
        exact covered_of_unchanged hL hvalid hunchanged
      · cases hresult
    · have hresult : none = some (cfg, shown) :=
        (outcome_wizard_of_not sys hL instanceName hvalid hpasses).eq_some hsilent hrun
      cases hresult
  · intro hcovered
    obtain ⟨services, hlookup, hout⟩ := outcome_wizard sys hL instanceName hvalid
      (hcovered.passes htransport) hcount hforwards' hsecret
    have hnew := valid_retyped hvalid hne hcovered hlookup
    have hne' : (retyped (c.normalize sys.lib) services).l3.enabled = true →
        (retyped (c.normalize sys.lib) services).l3.allowProtocols ≠ [] :=
      allowProtocols_reentered_ne_nil
    rw [if_pos (hnew.accepted hL hne'), hnew.normalize_eq hL hne'] at hout
    obtain ⟨h', hrun, -⟩ := hout h hsilent
    exact ⟨_, _, h', hrun, unchanged_retyped hvalid hne hcovered hlookup⟩

/-! ## A lost endpoint -/

/-- A server with both carriers, TCP at port 8443. -/
def bothConfig (listenUDP : Bytes) : Config :=
  { sampleConfig with transport := { sampleConfig.transport with mode := both, listenUDP } }

theorem edit_defaults_unchanged_shared :
    EndpointsAgree ((bothConfig (ofString "[]:8443")).normalize sampleLibrary) ∧
    ∃ cfg shown h', wizard sampleSystem (ofString "a")
        (some ((bothConfig (ofString "[]:8443")).normalize sampleLibrary))
        ⟨[some [10]], sampleFiles, false⟩ = .ok (cfg, shown) h' ∧
      Unchanged ((bothConfig (ofString "[]:8443")).normalize sampleLibrary) cfg := by
  have hagree : EndpointsAgree ((bothConfig (ofString "[]:8443")).normalize sampleLibrary) :=
    ⟨by decide +kernel, fun hmode => absurd hmode (by decide +kernel)⟩
  refine ⟨hagree, ?_⟩
  refine (edit_defaults_unchanged_iff sampleSystem sampleLibrary_standard (ofString "a")
    (bothConfig (ofString "[]:8443")) (by decide +kernel) (by decide +kernel) (by decide +kernel)
    ⟨[some [10]], sampleFiles, false⟩ ?_ (by decide +kernel)).mpr hagree
  intro line hline
  exact ⟨[10], List.mem_singleton.mp hline, by decide⟩

/-- A result in which the UDP carrier of a server listens at a given address. -/
def listensAt (address : Bytes) : EStateM.Result Stop Host (Config × Bytes) → Bool
  | .ok (cfg, _) _ => cfg.role = server && cfg.transport.listenUDP = address
  | .error _ _ => false

/-- With empty answers the UDP endpoint at port 9443 becomes that at port 8443. -/
theorem edit_defaults_lose_endpoint :
    (bothConfig (ofString ":9443")).Accepted sampleLibrary ∧
    readSecret sampleSystem (bothConfig (ofString ":9443")).auth.secretFile sampleFiles = none ∧
    listensAt (ofString ":8443") (wizard sampleSystem (ofString "a")
      (some ((bothConfig (ofString ":9443")).normalize sampleLibrary))
      ⟨[], sampleFiles, false⟩) = true ∧
    ¬ ∃ cfg shown h', wizard sampleSystem (ofString "a")
        (some ((bothConfig (ofString ":9443")).normalize sampleLibrary))
        ⟨[], sampleFiles, false⟩ = .ok (cfg, shown) h' ∧
      Unchanged ((bothConfig (ofString ":9443")).normalize sampleLibrary) cfg := by
  have hlistens : listensAt (ofString ":8443") (wizard sampleSystem (ofString "a")
      (some ((bothConfig (ofString ":9443")).normalize sampleLibrary))
      ⟨[], sampleFiles, false⟩) = true := by decide +kernel
  refine ⟨by decide +kernel, by decide +kernel, hlistens, ?_⟩
  rintro ⟨cfg, shown, h', hrun, hunchanged⟩
  rw [hrun, listensAt, Bool.and_eq_true, decide_eq_true_eq, decide_eq_true_eq] at hlistens
  obtain ⟨hrole, haddress⟩ := hlistens
  have hendpoint := hunchanged.endpointUDP (Or.inr (by decide +kernel))
  have hnew : cfg.endpoints.2 = ofString ":8443" := by
    rw [Config.endpoints, if_pos hrole, haddress]
  rw [hnew] at hendpoint
  exact absurd hendpoint (by decide +kernel)

end UnknownTunnel.Admin

import UnknownTunnel.ConfigFile.Validate
import UnknownTunnel.Foundation.TextRoundTrip

/-!
# Configurations in normal form

`Validate` changes nothing in a configuration that meets its demands and is
spelled as it spells it. What it demands of an address depends on the host and
the port that the address is split into, not on how the address is written.

## Implementation notes

`Standard` is what is assumed of the two library functions: `strings.ToLower`
maps ASCII strings byte by byte, and a string that `net.ParseCIDR` accepts has
digits, letters up to `f`, periods, colons and a slash, and is not empty.
-/

namespace UnknownTunnel.ConfigFile

open Foundation

/-- The bytes of address ranges. -/
def isRangeByte (b : UInt8) : Bool :=
  (48 ≤ b && b ≤ 57) || (97 ≤ b && b ≤ 102) || (65 ≤ b && b ≤ 70) || b = 46 || b = 58 || b = 47

/-- What the wizard relies on: lower case is that of ASCII on ASCII strings, and
address ranges are not empty and have only bytes of ranges. -/
structure Library.Standard (L : Library) : Prop where
  lower : ∀ s, (∀ b ∈ s, b < 128) → L.toLower s = s.map Text.lowerByte
  range_ne_nil : ∀ s, L.parseCIDR s = true → s ≠ []
  range : ∀ s, L.parseCIDR s = true → ∀ b ∈ s, isRangeByte b = true

theorem sampleLibrary_standard : sampleLibrary.Standard :=
  ⟨fun _ _ => rfl, nofun, nofun⟩

variable {L : Library}

/-- A word in small ASCII letters is not changed. -/
theorem Library.Standard.toLower_eq_self (hL : L.Standard) {s : Bytes}
    (h : s.all (fun b => b < 128 && Text.lowerByte b = b) = true) : L.toLower s = s := by
  simp only [List.all_eq_true, Bool.and_eq_true, decide_eq_true_eq] at h
  rw [hL.lower s fun b hb => (h b hb).1]
  exact Text.map_eq_self fun b hb => (h b hb).2

theorem Library.Standard.toLower_protocol (hL : L.Standard) {p : Bytes} (h : p = tcp ∨ p = udp) :
    L.toLower p = p := by
  apply hL.toLower_eq_self
  rcases h with rfl | rfl <;> decide

theorem Library.Standard.map_toLower (hL : L.Standard) {protocols : List Bytes}
    (h : ∀ p ∈ protocols, p = tcp ∨ p = udp) : protocols.map L.toLower = protocols :=
  Text.map_eq_self fun p hp => hL.toLower_protocol (h p hp)

/-! ## Addresses -/

/-- The addresses of the two carriers that the role uses, TCP first. -/
def Config.endpoints (c : Config) : Bytes × Bytes :=
  if c.role = server then (c.transport.listenTCP, c.transport.listenUDP)
  else (c.transport.connectTCP, c.transport.connectUDP)

/-- The mode uses TCP. -/
def NeedsTCP (mode : Bytes) : Prop := mode = tcp ∨ mode = both

/-- The mode uses UDP. -/
def NeedsUDP (mode : Bytes) : Prop := mode = udp ∨ mode = both

/-- The check of an address by the role. -/
def validateEndpoint (role value : Bytes) : Option AddressError :=
  if role = server then validateListenAddress value else validateDialAddress value

theorem splitHostPort_nil : Text.splitHostPort [] = .error .missingPort := rfl

theorem ne_nil_of_splitHostPort {value : Bytes} {endpoint : Bytes × Bytes}
    (h : Text.splitHostPort value = .ok endpoint) : value ≠ [] := by
  rintro rfl
  rw [splitHostPort_nil] at h
  cases h

theorem splitAndValidateHostPort_congr {value value' : Bytes} {endpoint : Bytes × Bytes}
    (h : Text.splitHostPort value = .ok endpoint) (h' : Text.splitHostPort value' = .ok endpoint)
    (requireHost : Bool) :
    splitAndValidateHostPort value requireHost = splitAndValidateHostPort value' requireHost := by
  simp only [splitAndValidateHostPort, ne_nil_of_splitHostPort h, ne_nil_of_splitHostPort h', h,
    h', if_false]

/-- Addresses with one host and one port are valid together. -/
theorem validateEndpoint_congr {value value' : Bytes} {endpoint : Bytes × Bytes}
    (h : Text.splitHostPort value = .ok endpoint) (h' : Text.splitHostPort value' = .ok endpoint)
    (role : Bytes) : validateEndpoint role value = validateEndpoint role value' := by
  simp only [validateEndpoint, validateListenAddress, validateDialAddress,
    splitAndValidateHostPort_congr h h']

theorem splitAndValidateHostPort_eq_ok {value host : Bytes} {requireHost : Bool} {n : Int}
    (h : splitAndValidateHostPort value requireHost = .ok (host, n)) :
    ∃ port, Text.splitHostPort value = .ok (host, port) ∧ Text.atoi port = some n ∧
      1 ≤ n ∧ n ≤ 65535 ∧ (requireHost = true → host ≠ []) := by
  unfold splitAndValidateHostPort at h
  split at h
  · cases h
  split at h
  · cases h
  rename_i host' port hsplit
  split at h
  · cases h
  split at h
  · cases h
  rename_i hhost
  split at h
  · cases h
  rename_i n' hport
  split at h
  · cases h
  rename_i hrange
  cases h
  obtain ⟨hlow, hhigh⟩ := not_or.mp hrange
  refine ⟨port, hsplit, hport, not_lt.mp hlow, not_lt.mp hhigh, ?_⟩
  rintro hrequired rfl
  exact hhost ⟨hrequired, rfl⟩

theorem dialAddress_eq_ok {value : Bytes} (h : validateDialAddress value = none) :
    ∃ endpoint, splitAndValidateHostPort value true = .ok endpoint := by
  unfold validateDialAddress at h
  split at h
  · cases h
  · exact ⟨_, by assumption⟩

theorem listenAddress_eq_ok {value : Bytes} (h : validateListenAddress value = none) :
    ∃ endpoint, splitAndValidateHostPort value false = .ok endpoint := by
  unfold validateListenAddress at h
  split at h
  · cases h
  · exact ⟨_, by assumption⟩

/-- A valid address has a host where one is needed and a port in range. -/
theorem endpoint_of_valid {role value : Bytes} (h : validateEndpoint role value = none) :
    ∃ host port n, Text.splitHostPort value = .ok (host, port) ∧ Text.atoi port = some n ∧
      1 ≤ n ∧ n ≤ 65535 ∧ (role = server ∨ host ≠ []) := by
  unfold validateEndpoint at h
  split at h
  · rename_i hrole
    obtain ⟨⟨host, n⟩, hok⟩ := listenAddress_eq_ok h
    obtain ⟨port, hsplit, hport, hlow, hhigh, -⟩ := splitAndValidateHostPort_eq_ok hok
    exact ⟨host, port, n, hsplit, hport, hlow, hhigh, Or.inl hrole⟩
  · obtain ⟨⟨host, n⟩, hok⟩ := dialAddress_eq_ok h
    obtain ⟨port, hsplit, hport, hlow, hhigh, hhost⟩ := splitAndValidateHostPort_eq_ok hok
    exact ⟨host, port, n, hsplit, hport, hlow, hhigh, Or.inr (hhost rfl)⟩

/-! ## Transport sections -/

/-- What `Validate` demands of the transport section in normal form. -/
structure Config.TransportValid (c : Config) : Prop where
  mode : c.transport.mode = tcp ∨ c.transport.mode = udp ∨ c.transport.mode = both
  prefer : c.transport.prefer = tcp ∨ c.transport.prefer = udp
  agree : c.transport.mode = both ∨ c.transport.prefer = c.transport.mode
  endpointTCP : NeedsTCP c.transport.mode → validateEndpoint c.role c.endpoints.1 = none
  endpointUDP : NeedsUDP c.transport.mode → validateEndpoint c.role c.endpoints.2 = none

theorem Config.TransportValid.mode_of_not_tcp {c : Config} (h : c.TransportValid)
    (htcp : ¬ NeedsTCP c.transport.mode) : c.transport.mode = udp := by
  rcases h.mode with hmode | hmode | hmode
  · exact absurd (Or.inl hmode) htcp
  · exact hmode
  · exact absurd (Or.inr hmode) htcp

theorem addressErrors_eq_nil {c : Config} (hrole : c.role = server ∨ c.role = client) :
    addressErrors c.role c.transport = [] ↔
      (NeedsTCP c.transport.mode → validateEndpoint c.role c.endpoints.1 = none) ∧
        (NeedsUDP c.transport.mode → validateEndpoint c.role c.endpoints.2 = none) := by
  have hreport : ∀ (p : Prop) [Decidable p] (error : Option ValidationError),
      (if decide p = true then error.toList else []) = [] ↔ (p → error = none) := by
    intro p _ error
    by_cases hp : p <;> simp [hp]
  have hne : client ≠ server := by decide
  rcases hrole with hrole | hrole
  · simp only [addressErrors, hrole, Config.endpoints, validateEndpoint, if_true,
      List.append_eq_nil_iff, hreport, Option.map_eq_none_iff, NeedsTCP, NeedsUDP]
  · simp only [addressErrors, hrole, Config.endpoints, validateEndpoint, hne, if_false, if_true,
      List.append_eq_nil_iff, hreport, Option.map_eq_none_iff, NeedsTCP, NeedsUDP]

theorem transportErrors_eq_nil {c : Config} (hrole : c.role = server ∨ c.role = client) :
    transportErrors c.role c.transport = [] ↔ c.TransportValid := by
  simp only [transportErrors, List.append_eq_nil_iff, reportIf_eq_nil, not_and_or, not_not,
    addressErrors_eq_nil hrole]
  constructor
  · rintro ⟨⟨⟨hmode, hprefer⟩, hagree⟩, htcp, hudp⟩
    exact ⟨hmode, hprefer, hagree, htcp, hudp⟩
  · rintro ⟨hmode, hprefer, hagree, htcp, hudp⟩
    exact ⟨⟨⟨hmode, hprefer⟩, hagree⟩, htcp, hudp⟩

/-! ## Normal forms -/

theorem toLower_mode (hL : L.Standard) {mode : Bytes} (h : mode = tcp ∨ mode = udp ∨ mode = both) :
    L.toLower mode = mode := by
  apply hL.toLower_eq_self
  rcases h with rfl | rfl | rfl <;> decide

theorem toLower_role (hL : L.Standard) {role : Bytes} (h : role = server ∨ role = client) :
    L.toLower role = role := by
  apply hL.toLower_eq_self
  rcases h with rfl | rfl <;> decide

theorem Config.TransportValid.normalize_eq (hL : L.Standard) {c : Config}
    (h : c.TransportValid) : normalizeTransport L c.transport = c.transport := by
  have hprefer : c.transport.prefer ≠ [] := by
    rcases h.prefer with hp | hp <;> rw [hp] <;> decide
  simp only [normalizeTransport, toLower_mode hL h.mode, hL.toLower_protocol h.prefer, hprefer,
    if_false]

theorem L3Config.normalize_eq (hL : L.Standard) {l3 : L3Config}
    (h : l3.enabled = true → l3.Valid L) (hne : l3.enabled = true → l3.allowProtocols ≠ []) :
    normalizeL3 L l3 = l3 := by
  unfold normalizeL3
  split
  · rename_i henabled
    have hvalid := h henabled
    have hmtu : l3.mtu ≠ 0 := by
      have hlow := hvalid.mtu.1
      omega
    have hprotocols : normalizeProtocols L l3.allowProtocols = l3.allowProtocols := by
      rw [normalizeProtocols, if_neg (hne henabled)]
      exact hL.map_toLower hvalid.protocols
    rw [if_neg hmtu, hprotocols]
  · rfl

theorem normalizeServices_eq (hL : L.Standard) {services : Services}
    (h : ∀ e ∈ services.entries, e.2.Valid e.1) : normalizeServices L services = services := by
  apply AList.ext
  apply Text.map_eq_self
  intro e he
  rw [normalizeService, if_pos (h e he).name, hL.toLower_protocol (h e he).network]

theorem normalizeForwards_eq (hL : L.Standard) {forwards : List Forward}
    (h : ∀ f ∈ forwards, f.Valid) : forwards.map (normalizeForward L) = forwards := by
  apply Text.map_eq_self
  intro f hf
  rw [normalizeForward, hL.toLower_protocol (h f hf).protocol]

/-- A configuration that meets the demands and names its protocols is in normal
form. -/
theorem Config.Valid.normalize_eq (hL : L.Standard) {c : Config} (h : c.Valid L)
    (hne : c.l3.enabled = true → c.l3.allowProtocols ≠ []) : c.normalize L = c := by
  have htransport := (transportErrors_eq_nil h.role).mp h.transport
  simp only [Config.normalize, validateTransport, validateL3, toLower_role hL h.role,
    htransport.normalize_eq hL, L3Config.normalize_eq hL h.l3 hne,
    normalizeServices_eq hL h.services, normalizeForwards_eq hL h.forwards]

theorem Config.Valid.accepted (hL : L.Standard) {c : Config} (h : c.Valid L)
    (hne : c.l3.enabled = true → c.l3.allowProtocols ≠ []) : c.Accepted L := by
  rw [Config.accepted_iff, h.normalize_eq hL hne]
  exact h

theorem normalizeProtocols_ne_nil (protocols : List Bytes) :
    normalizeProtocols L protocols ≠ [] := by
  simp only [normalizeProtocols, ne_eq, List.map_eq_nil_iff]
  split
  · exact List.cons_ne_nil _ _
  · assumption

/-- The normal form of an enabled L3 section names its protocols. -/
theorem Config.allowProtocols_normalize_ne_nil (c : Config)
    (h : (c.normalize L).l3.enabled = true) : (c.normalize L).l3.allowProtocols ≠ [] := by
  have henabled : c.l3.enabled = true := by
    by_contra hnot
    simp only [Config.normalize, validateL3, normalizeL3, hnot] at h
    exact hnot h
  simp only [Config.normalize, validateL3, normalizeL3, henabled, if_true]
  exact normalizeProtocols_ne_nil _

end UnknownTunnel.ConfigFile

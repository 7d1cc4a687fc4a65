import UnknownTunnel.Admin.Wizard
import UnknownTunnel.ConfigFile.NormalForm

/-!
# Outcomes of the wizard on empty answers

On an empty answer a question has the outcome of its check on its default. From
the questions up to the whole wizard, the outcome is that each part gives back
what it was given, up to the order of the services and of the protocols. Only
the addresses of the carriers are put together anew, from the first old address
that can be split.
-/

namespace UnknownTunnel.Admin

open Foundation ConfigFile

/-! ## Empty answers -/

/-- Every line that is left is blank. -/
def Host.Blank (h : Host) : Prop :=
  ∀ line ∈ h.input, ∃ text, line = some text ∧ Text.trimSpace text = []

/-- Only empty answers are left, and the files are the given ones. -/
def Silent (files : Table Bytes Bytes) (h : Host) : Prop := h.Blank ∧ h.files = files

variable {files : Table Bytes Bytes}

theorem askLines_blank {α : Type} (default : Bytes) (check : Bytes → Option α)
    {input : List (Option Bytes)}
    (h : ∀ line ∈ input, ∃ text, line = some text ∧ Text.trimSpace text = []) :
    askLines default check input =
      match check default with
      | some value => .answer value input.tail
      | none => .loops := by
  induction input with
  | nil => rfl
  | cons line rest ih =>
      obtain ⟨text, rfl, hblank⟩ := h line List.mem_cons_self
      have hvalue : valueOr (Text.trimSpace text) default = default := by
        rw [valueOr, if_pos hblank]
      rw [askLines, hvalue]
      cases hcheck : check default with
      | some value => rfl
      | none =>
          rw [ih fun line hline => h line (List.mem_cons_of_mem _ hline), hcheck]

/-- An empty answer is checked as the default. -/
theorem outcome_ask {α : Type} (default : Bytes) (check : Bytes → Option α) :
    Outcome (Silent files) (ask default check) (check default) := by
  cases hcheck : check default with
  | some value =>
      rintro h ⟨hblank, hfiles⟩
      refine ⟨{ h with input := h.input.tail }, ?_, ?_, hfiles⟩
      · simp only [ask, askLines_blank default check hblank, hcheck]
      · intro line hline
        exact hblank line (List.mem_of_mem_tail hline)
  | none =>
      rintro h ⟨hblank, hfiles⟩
      refine ⟨.loops, { h with input := [] }, ?_⟩
      simp only [ask, askLines_blank default check hblank, hcheck]

theorem outcome_of_check {α : Type} {default : Bytes} {check : Bytes → Option α} {value : α}
    (h : check default = some value) :
    Outcome (Silent files) (ask default check) (some value) := by
  rw [← h]
  exact outcome_ask default check

theorem outcome_accept {test : Bytes → Bool} {default : Bytes} (h : test default = true) :
    Outcome (Silent files) (ask default (accept test)) (some default) :=
  outcome_of_check (if_pos h)

/-- A default that is refused is asked for without end. -/
theorem outcome_refuse {test : Bytes → Bool} {default : Bytes} (h : test default ≠ true) :
    Outcome (Silent files) (ask default (accept test)) none := by
  have hcheck : accept test default = none := if_neg h
  rw [← hcheck]
  exact outcome_ask _ _

theorem outcome_prompt (default : Bytes) :
    Outcome (Silent files) (prompt default) (some default) := outcome_ask _ _

theorem outcome_promptRequired {default : Bytes} (h : default ≠ []) :
    Outcome (Silent files) (promptRequired default) (some default) :=
  outcome_accept (by simpa using h)

theorem outcome_promptIdentifier {default : Bytes} (h : identifierRE default = true) :
    Outcome (Silent files) (promptIdentifier default) (some default) := by
  apply outcome_accept
  cases default with
  | nil => cases h
  | cons b rest => simpa using h

theorem outcome_promptInt {n : Nat} {low high : Int} (hlow : low ≤ n) (hhigh : n ≤ high)
    (hmax : n < 2 ^ 63) : Outcome (Silent files) (promptInt n low high) (some (n : Int)) := by
  apply outcome_of_check
  rw [inRange, Text.atoi_itoa hmax, Option.filter_some, if_pos]
  simpa using ⟨hlow, hhigh⟩

variable {L : Library}

theorem outcome_yesNo (hL : L.Standard) (default : Bool) :
    Outcome (Silent files) (yesNo L default) (some default) := by
  have hempty : L.toLower [] = [] := hL.toLower_eq_self rfl
  apply outcome_of_check
  simp only [hempty, if_true]

theorem outcome_choice {options : List Bytes} {default : Bytes}
    (hlower : L.toLower default = default) (hmem : default ∈ options) :
    Outcome (Silent files) (choice L options default) (some default) := by
  apply outcome_of_check
  simp only [hlower, hmem, if_true]

theorem outcome_askIf {α : Type} {p : Prop} [Decidable p] {question : Dialogue α} {otherwise : α}
    (h : p → Outcome (Silent files) question (some otherwise)) :
    Outcome (Silent files) (askIf p question otherwise) (some otherwise) := by
  unfold askIf
  split
  · rename_i hp
    exact h hp
  · exact Outcome.pure _

/-! ## The carriers -/

variable (sys : System)

/-- The host and the port that the questions about the carriers start from. -/
def oldEndpoint (cfg : Config) : Bytes × Bytes :=
  (firstEndpoint [cfg.endpoints.1, cfg.endpoints.2]).getD
    (if cfg.role = server then ofString "0.0.0.0" else [], ofString "8443")

/-- The questions accept them. -/
def EndpointPasses (cfg : Config) : Prop :=
  (cfg.role = server ∨ (oldEndpoint cfg).1 ≠ []) ∧
    ((oldEndpoint cfg).2 ≠ [] && (inRange 1 65535 (oldEndpoint cfg).2).isSome) = true

/-- The transport section with one endpoint for both carriers. -/
def rejoined (cfg : Config) : TransportConfig :=
  let address := Text.joinHostPort (oldEndpoint cfg).1 (oldEndpoint cfg).2
  let tcpAddress := if cfg.transport.mode = tcp ∨ cfg.transport.mode = both then address else []
  let udpAddress := if cfg.transport.mode = udp ∨ cfg.transport.mode = both then address else []
  if cfg.role = server then
    { cfg.transport with
      listenTCP := tcpAddress, listenUDP := udpAddress, connectTCP := [], connectUDP := [] }
  else
    { cfg.transport with
      listenTCP := [], listenUDP := [], connectTCP := tcpAddress, connectUDP := udpAddress }

theorem outcome_udpPort (hL : sys.lib.Standard) (t : TransportConfig) (port : Bytes) :
    Outcome (Silent files) (udpPort sys t port) (some port) := by
  refine Outcome.bind (outcome_askIf fun _ => outcome_yesNo hL false) ?_
  apply outcome_askIf
  rintro ⟨-, hseparate⟩
  cases hseparate

theorem outcome_configureTransport (hL : sys.lib.Standard) {cfg : Config}
    (h : EndpointPasses cfg) :
    Outcome (Silent files) (configureTransport sys cfg)
      (some { cfg with transport := rejoined cfg }) := by
  obtain ⟨hhost, hport⟩ := h
  unfold configureTransport
  by_cases hrole : cfg.role = server
  · simp only [oldEndpoint, Config.endpoints, hrole, if_true] at hport
    simp only [rejoined, oldEndpoint, Config.endpoints, hrole, if_true]
    refine Outcome.bind (outcome_prompt _) ?_
    refine Outcome.bind (outcome_accept hport) ?_
    refine Outcome.bind (outcome_udpPort sys hL _ _) ?_
    simp only [decide_eq_true_eq]
    exact Outcome.pure _
  · have hhost := hhost.resolve_left hrole
    simp only [oldEndpoint, Config.endpoints, hrole, if_false] at hhost hport
    simp only [rejoined, oldEndpoint, Config.endpoints, hrole, if_false]
    refine Outcome.bind (outcome_promptRequired hhost) ?_
    refine Outcome.bind (outcome_accept hport) ?_
    refine Outcome.bind (outcome_udpPort sys hL _ _) ?_
    simp only [decide_eq_true_eq]
    exact Outcome.pure _

/-- A host or a port that is refused is asked for without end. -/
theorem outcome_configureTransport_of_not {cfg : Config} (h : ¬ EndpointPasses cfg) :
    Outcome (Silent files) (configureTransport sys cfg) none := by
  unfold EndpointPasses at h
  unfold configureTransport
  by_cases hrole : cfg.role = server
  · simp only [oldEndpoint, Config.endpoints, hrole, if_true, true_or, true_and] at h
    simp only [hrole, if_true]
    refine Outcome.bind (outcome_prompt _) ?_
    exact Outcome.bind_none (outcome_refuse h)
  · simp only [oldEndpoint, Config.endpoints, hrole, if_false, false_or] at h
    simp only [hrole, if_false]
    by_cases hhost : ((firstEndpoint [cfg.transport.connectTCP, cfg.transport.connectUDP]).getD
        ([], ofString "8443")).1 = []
    · exact Outcome.bind_none (outcome_refuse (by simpa using hhost))
    · refine Outcome.bind (outcome_promptRequired hhost) ?_
      exact Outcome.bind_none (outcome_refuse fun hport => h ⟨hhost, hport⟩)

/-! ## Layer 3 -/

theorem graphic_of_isRangeByte {b : UInt8} (h : isRangeByte b = true) :
    Text.isGraphic b = true ∧ b ≠ 44 := by
  simp only [isRangeByte, Bool.or_eq_true, Bool.and_eq_true, decide_eq_true_eq,
    UInt8.le_iff_toNat_le, ← UInt8.toNat_inj, UInt8.reduceToNat] at h
  simp only [Text.isGraphic, Bool.and_eq_true, decide_eq_true_eq, UInt8.le_iff_toNat_le, ne_eq,
    ← UInt8.toNat_inj, UInt8.reduceToNat]
  omega

/-- Routes are read back from their list. -/
theorem splitCSV_intercalate (hL : L.Standard) {routes : List Bytes}
    (h : ∀ route ∈ routes, L.parseCIDR route = true) :
    splitCSV (List.intercalate [44] routes) = routes := by
  by_cases hne : routes = []
  · subst hne
    rfl
  · have hnil : [] ∉ routes := fun hmem => hL.range_ne_nil [] (h [] hmem) rfl
    have hgraphic : ∀ route ∈ routes, ∀ b ∈ route, Text.isGraphic b = true := by
      intro route hroute b hb
      exact (graphic_of_isRangeByte (hL.range route (h route hroute) b hb)).1
    have hcomma : ∀ route ∈ routes, 44 ∉ route := by
      intro route hroute hb
      exact (graphic_of_isRangeByte (hL.range route (h route hroute) 44 hb)).2 rfl
    rw [splitCSV, Text.trimSpace_of_graphic (Text.graphic_intercalate hgraphic),
      if_neg (Text.intercalate_ne_nil hne hnil)]
    exact Text.splitCommas_intercalate hne hnil hgraphic hcomma

/-- The protocols of the choice that stands for a list of them. -/
def rechosen (protocols : List Bytes) : List Bytes :=
  if tcp ∈ protocols ∧ udp ∈ protocols then [tcp, udp]
  else if udp ∈ protocols then [udp]
  else [tcp]

theorem protocolsChoice_eq (hL : sys.lib.Standard) {protocols : List Bytes}
    (h : ∀ p ∈ protocols, p = tcp ∨ p = udp) :
    protocolsChoice sys protocols ∈ [tcp, udp, both] ∧
      (if protocolsChoice sys protocols = both then [tcp, udp]
        else [protocolsChoice sys protocols]) = rechosen protocols := by
  have hseen := hL.map_toLower h
  have htcp : tcp ≠ both := by decide
  have hudp : udp ≠ both := by decide
  simp only [protocolsChoice, hseen, rechosen]
  split
  · simp
  · split <;> simp [htcp, hudp]

theorem mem_rechosen {protocols : List Bytes} (h : ∀ p ∈ protocols, p = tcp ∨ p = udp)
    (hne : protocols ≠ []) (p : Bytes) : p ∈ rechosen protocols ↔ p ∈ protocols := by
  obtain ⟨q, hq⟩ := List.exists_mem_of_ne_nil _ hne
  unfold rechosen
  split
  · rename_i hboth
    constructor
    · intro hp
      rcases List.mem_pair.mp hp with rfl | rfl
      · exact hboth.1
      · exact hboth.2
    · intro hp
      exact List.mem_pair.mpr (h p hp)
  · rename_i hnot
    split
    · rename_i hudp
      rw [List.mem_singleton]
      constructor
      · rintro rfl
        exact hudp
      · intro hp
        refine (h p hp).resolve_left ?_
        rintro rfl
        exact hnot ⟨hp, hudp⟩
    · rename_i hudp
      have honly : ∀ p ∈ protocols, p = tcp := by
        intro p hp
        refine (h p hp).resolve_right ?_
        rintro rfl
        exact hudp hp
      rw [List.mem_singleton]
      constructor
      · rintro rfl
        exact honly q hq ▸ hq
      · exact honly p

/-- The section that is left when every question about it gets its default. -/
def reentered (l3 : L3Config) : L3Config :=
  if l3.enabled then { l3 with allowProtocols := rechosen l3.allowProtocols } else noL3

theorem valueOr_of_ne {value : Bytes} (h : value ≠ []) (fallback : Bytes) :
    valueOr value fallback = value := if_neg h

theorem outcome_configureL3 (hL : sys.lib.Standard) (instanceName : Bytes) {cfg : Config}
    (h : cfg.l3.enabled = true → cfg.l3.Valid sys.lib) :
    Outcome (Silent files) (configureL3 sys instanceName cfg)
      (some { cfg with l3 := reentered cfg.l3 }) := by
  unfold configureL3
  refine Outcome.bind (outcome_yesNo hL _) ?_
  cases henabled : cfg.l3.enabled with
  | false =>
      simp only [reentered, henabled, if_true, Bool.false_eq_true, if_false]
      exact Outcome.pure _
  | true =>
      have hvalid := h henabled
      have hinterface : cfg.l3.interface ≠ [] := by
        intro hnil
        have hbad := hvalid.interface
        rw [hnil] at hbad
        cases hbad
      have haddress := hL.range_ne_nil _ hvalid.address
      obtain ⟨mtu, hmtu⟩ := Int.eq_ofNat_of_zero_le (le_trans (by decide) hvalid.mtu.1)
      have hlow := hvalid.mtu.1
      have hhigh := hvalid.mtu.2
      obtain ⟨hpackets, hprotocols⟩ := protocolsChoice_eq sys hL hvalid.protocols
      have hroutes := splitCSV_intercalate hL hvalid.routes
      simp only [reentered, henabled, Bool.true_eq_false, if_false, if_true]
      unfold enabledL3
      refine Outcome.get fun h _ => ?_
      rw [valueOr_of_ne hinterface, valueOr_of_ne haddress]
      refine Outcome.bind (outcome_accept (by simpa [hinterface] using hvalid.interface)) ?_
      refine Outcome.bind (outcome_accept (by simpa [haddress] using hvalid.address)) ?_
      rw [hmtu] at hlow hhigh ⊢
      rw [if_neg (by omega)]
      refine Outcome.bind (outcome_promptInt hlow hhigh (by omega)) ?_
      refine Outcome.bind (outcome_choice (toLower_mode hL (by simpa using hpackets)) hpackets) ?_
      refine Outcome.bind (outcome_prompt _) ?_
      have hvalidRoutes : (cfg.l3.routes.find? fun route => !sys.lib.parseCIDR route) = none := by
        rw [List.find?_eq_none]
        intro route hroute
        simp [hvalid.routes route hroute]
      simp only [hroutes, hvalidRoutes, hprotocols]
      exact Outcome.pure _

/-! ## Services and forwards -/

theorem outcome_choiceProtocol (hL : L.Standard) {p : Bytes} (h : p = tcp ∨ p = udp) :
    Outcome (Silent files) (choice L [tcp, udp] (valueOr p tcp)) (some p) := by
  have hne : p ≠ [] := by
    rcases h with rfl | rfl <;> decide
  rw [valueOr_of_ne hne]
  exact outcome_choice (hL.toLower_protocol h) (List.mem_pair.mpr h)

theorem outcome_keepIdentifier {value : Bytes} (h : identifierRE value = true) (fallback : Bytes) :
    Outcome (Silent files) (promptIdentifier (valueOr value fallback)) (some value) := by
  have hne : value ≠ [] := by
    rintro rfl
    cases h
  rw [valueOr_of_ne hne]
  exact outcome_promptIdentifier h

theorem outcome_keepAddress {value : Bytes} {requireHost : Bool} {endpoint : Bytes × Int}
    (h : splitAndValidateHostPort value requireHost = .ok endpoint) (fallback : Bytes) :
    Outcome (Silent files) (promptRequired (valueOr value fallback)) (some value) := by
  have hne : value ≠ [] := by
    rintro rfl
    cases h
  rw [valueOr_of_ne hne]
  exact outcome_promptRequired hne

/-- The loop rebuilds the services of the names after the first `i`. -/
theorem outcome_serviceLoop (hL : sys.lib.Standard) {names : List Bytes} {old : Services}
    (hnodup : names.Nodup)
    (hold : ∀ name ∈ names, ∃ svc, old.lookup name = some svc ∧ svc.Valid name)
    {remaining i : Nat} {services : Services} (hlen : i + remaining = names.length)
    (hdone : ∀ name, services.lookup name =
      if name ∈ names.take i then old.lookup name else none) :
    ∃ result,
      Outcome (Silent files) (serviceLoop sys names old remaining i services) (some result) ∧
      ∀ name, result.lookup name = if name ∈ names then old.lookup name else none := by
  induction remaining generalizing i services with
  | zero =>
      refine ⟨services, Outcome.pure _, ?_⟩
      rw [Nat.add_zero] at hlen
      intro name
      rw [hdone name, hlen, List.take_length]
  | succ remaining ih =>
      have hi : i < names.length := by omega
      have hget : names[i]? = some names[i] := List.getElem?_eq_getElem hi
      have htake : names.take (i + 1) = names.take i ++ [names[i]] :=
        List.take_succ_eq_append_getElem hi
      have hmem : ∀ name, name ∈ names.take (i + 1) ↔ name ∈ names.take i ∨ name = names[i] := by
        intro name
        rw [htake, List.mem_append, List.mem_singleton]
      have hfresh : names[i] ∉ names.take i := by
        have hprefix := hnodup.sublist (List.take_sublist (i + 1) names)
        rw [htake] at hprefix
        exact fun hmem => List.disjoint_of_nodup_append hprefix hmem List.mem_cons_self
      obtain ⟨svc, hlookup, hvalid⟩ := hold names[i] (List.getElem_mem hi)
      obtain ⟨endpoint, haddress⟩ := dialAddress_eq_ok hvalid.address
      have hnot : ¬ names[i] ∈ services := by
        rw [← AList.lookup_isSome, hdone, if_neg hfresh]
        decide
      have hnext : ∀ name, (services.insert names[i] ⟨svc.network, svc.address⟩).lookup name =
          if name ∈ names.take (i + 1) then old.lookup name else none := by
        intro name
        by_cases hname : name = names[i]
        · subst hname
          rw [AList.lookup_insert, if_pos ((hmem _).mpr (Or.inr rfl)), hlookup]
        · rw [AList.lookup_insert_ne hname, hdone name]
          simp only [hmem, hname, or_false]
      obtain ⟨result, hout, hresult⟩ := ih (by omega) hnext
      refine ⟨result, ?_, hresult⟩
      simp only [serviceLoop, List.getD_eq_getElem?_getD, hget, Option.getD_some, Option.bind_some,
        hlookup]
      refine Outcome.bind (outcome_keepIdentifier hvalid.name _) ?_
      rw [if_neg hnot]
      refine Outcome.bind (outcome_choiceProtocol hL hvalid.network) ?_
      exact Outcome.bind (outcome_keepAddress haddress _) hout

theorem mem_sortedServiceNames {services : Services} {name : Bytes} :
    name ∈ sortedServiceNames services ↔ name ∈ services := by
  rw [sortedServiceNames, (List.perm_insertionSort _ _).mem_iff]
  exact Iff.rfl

theorem outcome_configureServices (files : Table Bytes Bytes) (hL : sys.lib.Standard) (cfg : Config)
    (h : ∀ e ∈ cfg.services.entries, e.2.Valid e.1) (hcount : cfg.services.keys.length ≤ 256) :
    ∃ services, Outcome (Silent files) (configureServices sys cfg)
        (some { cfg with services }) ∧
      ∀ name, services.lookup name = cfg.services.lookup name := by
  unfold configureServices
  by_cases hconfigure : cfg.role = server ∨ 0 < cfg.services.keys.length
  · have hlength : (sortedServiceNames cfg.services).length = cfg.services.keys.length :=
      (List.perm_insertionSort _ _).length_eq
    have hnodup : (sortedServiceNames cfg.services).Nodup :=
      (List.perm_insertionSort _ _).nodup_iff.mpr cfg.services.keys_nodup
    have hold : ∀ name ∈ sortedServiceNames cfg.services,
        ∃ svc, cfg.services.lookup name = some svc ∧ svc.Valid name := by
      intro name hname
      obtain ⟨svc, hsvc⟩ := Option.isSome_iff_exists.mp
        (AList.lookup_isSome.mpr (mem_sortedServiceNames.mp hname))
      exact ⟨svc, hsvc, h _ (AList.mem_lookup_iff.mp hsvc)⟩
    have hloop : ∃ services, Outcome (Silent files) (serviceLoop sys
          (sortedServiceNames cfg.services) cfg.services
          (sortedServiceNames cfg.services).length 0 ∅) (some services) ∧
        ∀ name, services.lookup name =
          if name ∈ sortedServiceNames cfg.services then cfg.services.lookup name else none :=
      outcome_serviceLoop sys hL hnodup hold (Nat.zero_add _) fun name => by simp
    obtain ⟨services, hout, hlookup⟩ := hloop
    refine ⟨services, ?_, ?_⟩
    · refine Outcome.bind (outcome_yesNo hL _) ?_
      rw [if_neg (by rw [decide_eq_false_iff_not, not_not]; exact hconfigure)]
      refine Outcome.bind (outcome_promptInt (by omega) (by omega) (by omega)) ?_
      exact Outcome.bind hout (Outcome.pure _)
    · intro name
      rw [hlookup name]
      split
      · rfl
      · rename_i hnot
        rw [mem_sortedServiceNames] at hnot
        exact (AList.lookup_eq_none.mpr hnot).symm
  · refine ⟨∅, ?_, ?_⟩
    · refine Outcome.bind (outcome_yesNo hL _) ?_
      rw [if_pos (by rw [decide_eq_false_iff_not]; exact hconfigure)]
      exact Outcome.pure _
    · intro name
      have hkeys : cfg.services.keys = [] := by
        rw [← List.length_eq_zero_iff]
        omega
      have hnot : name ∉ cfg.services := by
        intro hmem
        rw [AList.mem_keys, hkeys] at hmem
        cases hmem
      rw [AList.lookup_eq_none.mpr hnot, AList.lookup_empty]

/-- The loop rebuilds the forwards after the first `i`. -/
theorem outcome_forwardLoop (hL : sys.lib.Standard) {old : List Forward}
    (hvalid : ∀ f ∈ old, f.Valid) (hnodup : (old.map Forward.name).Nodup) {remaining i : Nat}
    (hlen : i + remaining = old.length) :
    Outcome (Silent files) (forwardLoop sys old remaining (old.take i)) (some old) := by
  induction remaining generalizing i with
  | zero =>
      rw [Nat.add_zero] at hlen
      rw [hlen, List.take_length]
      exact Outcome.pure _
  | succ remaining ih =>
      have hi : i < old.length := by omega
      have htake : old.take (i + 1) = old.take i ++ [old[i]] := List.take_succ_eq_append_getElem hi
      have hlength : (old.take i).length = i := List.length_take_of_le hi.le
      have hf := hvalid old[i] (List.getElem_mem hi)
      obtain ⟨endpoint, hlisten⟩ := listenAddress_eq_ok hf.listen
      have hfresh : ¬ old[i].name ∈ (old.take i).map Forward.name := by
        have hprefix := hnodup.sublist ((List.take_sublist (i + 1) old).map Forward.name)
        rw [htake, List.map_append] at hprefix
        exact fun hmem => List.disjoint_of_nodup_append hprefix hmem List.mem_cons_self
      simp only [forwardLoop, hlength, List.getD_eq_getElem?_getD, List.getElem?_eq_getElem hi,
        Option.getD_some]
      refine Outcome.bind (outcome_keepIdentifier hf.name _) ?_
      rw [if_neg hfresh]
      refine Outcome.bind (outcome_choiceProtocol hL hf.protocol) ?_
      refine Outcome.bind (outcome_keepAddress hlisten _) ?_
      refine Outcome.bind (outcome_keepIdentifier hf.service _) ?_
      rw [← htake]
      exact ih (by omega)

theorem outcome_configureForwards (hL : sys.lib.Standard) {cfg : Config}
    (hvalid : ∀ f ∈ cfg.forwards, f.Valid) (hnodup : (cfg.forwards.map Forward.name).Nodup)
    (hcount : cfg.forwards.length ≤ 256) :
    Outcome (Silent files) (configureForwards sys cfg) (some cfg) := by
  unfold configureForwards
  refine Outcome.bind (outcome_yesNo hL _) ?_
  by_cases hconfigure : cfg.role = client ∨ 0 < cfg.forwards.length
  · rw [if_neg (by rw [decide_eq_false_iff_not, not_not]; exact hconfigure)]
    refine Outcome.bind (outcome_promptInt (by omega) (by omega) (by omega)) ?_
    exact Outcome.bind (outcome_forwardLoop sys hL hvalid hnodup (Nat.zero_add _))
      (Outcome.pure _)
  · have hnil : cfg.forwards = [] := by
      rw [← List.length_eq_zero_iff]
      omega
    rw [if_pos (by rw [decide_eq_false_iff_not]; exact hconfigure), ← hnil]
    exact Outcome.pure _

/-! ## The secret -/

theorem outcome_configureSecret (hL : sys.lib.Standard) (instanceName : Bytes) {cfg : Config}
    (hfile : cfg.auth.secretFile ≠ [])
    (hsecret : readSecret sys cfg.auth.secretFile files = none) :
    Outcome (Silent files) (configureSecret sys instanceName cfg true) (some (cfg, [])) := by
  have hkeep : Outcome (Silent files) (planSecret sys instanceName cfg true)
      (some ⟨cfg.auth.secretFile, none, false⟩) := by
    have hlower : sys.lib.toLower (ofString "keep") = ofString "keep" :=
      hL.toLower_eq_self (by decide)
    unfold planSecret
    refine Outcome.bind (outcome_choice hlower List.mem_cons_self) ?_
    rw [if_pos rfl, valueOr_of_ne hfile]
    refine Outcome.get fun h hsilent => ?_
    rw [hsilent.2, hsecret]
    exact Outcome.pure _
  refine Outcome.bind hkeep ?_
  exact Outcome.bind (Outcome.pure ()) (Outcome.pure _)

/-! ## The wizard -/

/-- What the wizard makes of a configuration without answers, before it is
validated; the services are still to be put in. -/
def retyped (cfg : Config) (services : Services) : Config :=
  { cfg with transport := rejoined cfg, l3 := reentered cfg.l3, services }

/-- The questions before those about the carriers give back their defaults. -/
theorem outcome_draft_of (hL : sys.lib.Standard) (instanceName : Bytes) {cfg : Config}
    (hvalid : cfg.Valid sys.lib) {o : Option Config}
    (h : Outcome (Silent files) (do
      let cfg ← configureTransport sys cfg
      let cfg ← configureL3 sys instanceName cfg
      let cfg ← configureServices sys cfg
      configureForwards sys cfg) o) :
    Outcome (Silent files) (draft sys instanceName (some cfg)) o := by
  have htransport := (transportErrors_eq_nil hvalid.role).mp hvalid.transport
  have hrole : cfg.role ∈ [server, client] := List.mem_pair.mpr hvalid.role
  have hmode : cfg.transport.mode ∈ [tcp, udp, both] := by simpa using htransport.mode
  have hprefer : Outcome (Silent files) (askIf (cfg.transport.mode = both)
      (choice sys.lib [udp, tcp] cfg.transport.prefer) cfg.transport.mode)
      (some cfg.transport.prefer) := by
    unfold askIf
    split
    · exact outcome_choice (hL.toLower_protocol htransport.prefer)
        (List.mem_pair.mpr htransport.prefer.symm)
    · rename_i hmode
      rw [htransport.agree.resolve_left hmode]
      exact Outcome.pure _
  have hopening : Outcome (Silent files) (opening sys instanceName (some cfg)) (some cfg) := by
    unfold opening
    refine Outcome.bind (outcome_choice (toLower_role hL hvalid.role) hrole) ?_
    refine Outcome.bind (outcome_promptIdentifier hvalid.nodeID) ?_
    refine Outcome.bind (outcome_promptIdentifier hvalid.peerID) ?_
    refine Outcome.bind (outcome_choice (toLower_mode hL htransport.mode) hmode) ?_
    exact Outcome.bind hprefer (Outcome.pure _)
  exact Outcome.bind hopening h

theorem outcome_draft (files : Table Bytes Bytes) (hL : sys.lib.Standard) (instanceName : Bytes)
    {cfg : Config}
    (hvalid : cfg.Valid sys.lib) (hpasses : EndpointPasses cfg)
    (hservices : cfg.services.keys.length ≤ 256) (hforwards : cfg.forwards.length ≤ 256) :
    ∃ services, (∀ name, services.lookup name = cfg.services.lookup name) ∧
      Outcome (Silent files) (draft sys instanceName (some cfg)) (some (retyped cfg services)) := by
  obtain ⟨services, hout, hlookup⟩ := outcome_configureServices sys files hL
    { cfg with transport := rejoined cfg, l3 := reentered cfg.l3 } hvalid.services hservices
  refine ⟨services, hlookup, outcome_draft_of sys hL instanceName hvalid ?_⟩
  refine Outcome.bind (outcome_configureTransport sys hL hpasses) ?_
  refine Outcome.bind (outcome_configureL3 sys hL instanceName hvalid.l3) ?_
  refine Outcome.bind hout ?_
  exact outcome_configureForwards sys hL hvalid.forwards hvalid.distinct hforwards

theorem outcome_wizard (hL : sys.lib.Standard) (instanceName : Bytes) {cfg : Config}
    (hvalid : cfg.Valid sys.lib) (hpasses : EndpointPasses cfg)
    (hservices : cfg.services.keys.length ≤ 256) (hforwards : cfg.forwards.length ≤ 256)
    (hsecret : readSecret sys cfg.auth.secretFile files = none) :
    ∃ services, (∀ name, services.lookup name = cfg.services.lookup name) ∧
      Outcome (Silent files) (wizard sys instanceName (some cfg))
        (if (retyped cfg services).Accepted sys.lib then
          some ((retyped cfg services).normalize sys.lib, [])
        else none) := by
  obtain ⟨services, hlookup, hdraft⟩ :=
    outcome_draft sys files hL instanceName hvalid hpasses hservices hforwards
  refine ⟨services, hlookup, ?_⟩
  refine Outcome.bind hdraft ?_
  refine Outcome.bind (outcome_configureSecret sys hL instanceName hvalid.secretFile hsecret) ?_
  show Outcome (Silent files) (if (retyped cfg services).Accepted sys.lib then
    Pure.pure ((retyped cfg services).normalize sys.lib, []) else stop _) _
  split
  · exact Outcome.pure _
  · exact Outcome.throw _

/-- Without a host and a port to start from, the wizard asks without end. -/
theorem outcome_wizard_of_not (hL : sys.lib.Standard) (instanceName : Bytes) {cfg : Config}
    (hvalid : cfg.Valid sys.lib) (h : ¬ EndpointPasses cfg) :
    Outcome (Silent files) (wizard sys instanceName (some cfg)) none := by
  have hdraft : Outcome (Silent files) (draft sys instanceName (some cfg)) none :=
    outcome_draft_of sys hL instanceName hvalid
      (Outcome.bind_none (outcome_configureTransport_of_not sys h))
  exact Outcome.bind_none hdraft

end UnknownTunnel.Admin

import UnknownTunnel.Admin.Outcomes
import UnknownTunnel.Admin.Panel

/-!
# Questions that are asked forever

At the end of the input a question gets empty lines only, and each of them
stands for its default. A question whose default is refused is then asked
forever, unless a line before the end answers it. Most questions of the wizard
have defaults that are accepted. Those that may not are the host of the peer
and the port of the carriers, the interface, the address and the MTU of Layer 3,
and the numbers of services and of forwards.

## Implementation notes

The lines that are left for a question are those that the questions before it
leave, so what is said of them is said after these questions.
-/

namespace UnknownTunnel.Admin

open Foundation ConfigFile Panel

/-! ## The loop of a question -/

section Loop

variable {α : Type} (default : Bytes) (check : Bytes → Option α)

/-- One line of the input. After its end every line is empty. -/
def readLine : List (Option Bytes) → Option Bytes × List (Option Bytes)
  | [] => (some [], [])
  | line :: rest => (line, rest)

/-- The loop of a question with a bound on its rounds. -/
def askRounds : Nat → List (Option Bytes) → Option (Asked α)
  | 0, _ => none
  | rounds + 1, input =>
      match readLine input with
      | (none, rest) => some (.failed rest)
      | (some line, rest) =>
          match check (valueOr (Text.trimSpace line) default) with
          | some value => some (.answer value rest)
          | none => askRounds rounds rest

variable {default check}

/-- What the loop ends with is what the question ends with. -/
theorem askLines_of_rounds {rounds : Nat} {input : List (Option Bytes)} {asked : Asked α}
    (h : askRounds default check rounds input = some asked) :
    askLines default check input = asked ∧ asked ≠ .loops := by
  induction rounds generalizing input with
  | zero => cases h
  | succ rounds ih =>
      cases input with
      | nil =>
          have hdefault : valueOr (Text.trimSpace []) default = default := rfl
          simp only [askRounds, readLine, hdefault] at h
          cases hcheck : check default with
          | some value =>
              rw [hcheck] at h
              cases h
              rw [askLines, hcheck]
              exact ⟨rfl, fun h => by cases h⟩
          | none =>
              rw [hcheck] at h
              exact ih h
      | cons line rest =>
          cases line with
          | none =>
              cases h
              exact ⟨rfl, fun h => by cases h⟩
          | some line =>
              simp only [askRounds, readLine] at h
              rw [askLines]
              cases hcheck : check (valueOr (Text.trimSpace line) default) with
              | some value =>
                  rw [hcheck] at h
                  cases h
                  exact ⟨rfl, fun h => by cases h⟩
              | none =>
                  rw [hcheck] at h
                  exact ih h

/-- One round more than there are lines is enough for an end. -/
theorem askRounds_length {input : List (Option Bytes)}
    (h : askLines default check input ≠ .loops) :
    askRounds default check (input.length + 1) input = some (askLines default check input) := by
  induction input with
  | nil =>
      have hdefault : valueOr (Text.trimSpace []) default = default := rfl
      rw [askLines] at h ⊢
      simp only [List.length_nil, askRounds, readLine, hdefault]
      cases hcheck : check default with
      | some value => rfl
      | none =>
          rw [hcheck] at h
          exact absurd rfl h
  | cons line rest ih =>
      cases line with
      | none => rfl
      | some line =>
          rw [askLines] at h ⊢
          simp only [List.length_cons, askRounds, readLine]
          cases hcheck : check (valueOr (Text.trimSpace line) default) with
          | some value => rfl
          | none =>
              rw [hcheck] at h
              exact ih h

/-- A question is asked forever if no bound on the rounds is enough. -/
theorem loops_iff_askRounds {input : List (Option Bytes)} :
    askLines default check input = .loops ↔
      ∀ rounds, askRounds default check rounds input = none := by
  constructor
  · intro hloops rounds
    cases h : askRounds default check rounds input with
    | none => rfl
    | some asked =>
        obtain ⟨hasked, hne⟩ := askLines_of_rounds h
        exact absurd (hasked.symm.trans hloops) hne
  · intro hrounds
    by_contra hne
    have h := askRounds_length hne
    rw [hrounds] at h
    cases h

end Loop

/-! ## Questions with accepted defaults -/

/-- A question that silence answers is not asked forever. -/
theorem never_of_outcome {α : Type} {default : Bytes} {check : Bytes → Option α} {value : α}
    (h : Outcome (Silent ∅) (ask default check) (some value)) :
    Never .loops (ask default check) := by
  have hsilent : Silent ∅ ⟨[], ∅, false⟩ := ⟨fun _ h => absurd h List.not_mem_nil, rfl⟩
  cases hcheck : check default with
  | some value => exact never_ask hcheck
  | none =>
      have hnone := @outcome_ask ∅ _ default check
      rw [hcheck] at hnone
      obtain ⟨host, hok, -⟩ := h _ hsilent
      obtain ⟨e, host', herror⟩ := hnone _ hsilent
      rw [hok] at herror
      cases herror

theorem never_yesNo {L : Library} (hL : L.Standard) (default : Bool) :
    Never .loops (yesNo L default) := never_of_outcome (outcome_yesNo hL default)

theorem gives_choice {L : Library} {options : List Bytes} {default : Bytes} :
    Gives (· ∈ options) (choice L options default) := by
  apply gives_ask
  intro line value hvalue
  simp only at hvalue
  split at hvalue
  · rename_i hmem
    cases hvalue
    exact hmem
  · cases hvalue

theorem gives_promptInt {default low high : Int} :
    Gives (fun n => low ≤ n ∧ n ≤ high) (promptInt default low high) := by
  apply gives_ask
  intro line n hn
  simp only [inRange, Option.filter_eq_some_iff, decide_eq_true_eq] at hn
  exact hn.2

/-- A port that is answered would be accepted as a default. -/
theorem gives_promptPort {default : Bytes} :
    Gives (fun port => Never .loops (promptPort port)) (promptPort default) := by
  apply gives_ask
  intro line port hport
  unfold accept at hport
  split at hport
  · rename_i htest
    cases hport
    exact never_ask (if_pos htest)
  · cases hport

/-- A required value without a default is missing if only blank lines are left. -/
theorem unanswered_required_iff {h : Host} :
    Unanswered [] (accept fun value => value ≠ []) h.input ↔ h.Blank := by
  have hcheck : ∀ text, accept (fun value => value ≠ []) (valueOr (Text.trimSpace text) []) = none ↔
      Text.trimSpace text = [] := by
    intro text
    by_cases hblank : Text.trimSpace text = [] <;> simp [accept, valueOr, hblank]
  constructor
  · intro hun line hline
    obtain ⟨text, htext, hnone⟩ := hun.lines line hline
    exact ⟨text, htext, (hcheck text).mp hnone⟩
  · intro hblank
    refine ⟨rfl, ?_⟩
    intro line hline
    obtain ⟨text, htext, hnil⟩ := hblank line hline
    exact ⟨text, htext, (hcheck text).mpr hnil⟩

/-! ## The first questions -/

variable (sys : System)

/-- The values that can be kept where the wizard starts from them. -/
structure Keepable (cfg : Config) : Prop where
  role : cfg.role = server ∨ cfg.role = client
  nodeID : identifierRE cfg.nodeID = true
  peerID : identifierRE cfg.peerID = true
  mode : cfg.transport.mode = tcp ∨ cfg.transport.mode = udp ∨ cfg.transport.mode = both
  prefer : cfg.transport.prefer = tcp ∨ cfg.transport.prefer = udp
  services : ∀ e ∈ cfg.services.entries, e.2.Valid e.1
  forwards : ∀ f ∈ cfg.forwards, f.Valid

theorem keepable_of_valid {L : Library} {cfg : Config} (h : cfg.Valid L) : Keepable cfg := by
  have htransport := (transportErrors_eq_nil h.role).mp h.transport
  exact ⟨h.role, h.nodeID, h.peerID, htransport.mode, htransport.prefer, h.services, h.forwards⟩

theorem keepable_defaultConfig {instanceName : Bytes} (h : identifierRE instanceName = true) :
    Keepable (defaultConfig instanceName) where
  role := Or.inr rfl
  nodeID := h
  peerID := (by decide : identifierRE (ofString "peer") = true)
  mode := Or.inr (Or.inr rfl)
  prefer := Or.inr rfl
  services := fun _ he => absurd he List.not_mem_nil
  forwards := fun _ hf => absurd hf List.not_mem_nil

/-- What the first questions leave as it is. -/
structure Opened (cfg opened : Config) : Prop where
  role : opened.role = server ∨ opened.role = client
  transport : opened.transport =
    { cfg.transport with mode := opened.transport.mode, prefer := opened.transport.prefer }
  l3 : opened.l3 = cfg.l3
  services : opened.services = cfg.services
  forwards : opened.forwards = cfg.forwards

theorem gives_opening {instanceName : Bytes} {current : Option Config} :
    Gives (Opened (current.getD (defaultConfig instanceName)))
      (opening sys instanceName current) := by
  refine Gives.bind gives_choice fun role hrole => ?_
  refine Gives.bind (Gives.any _) fun nodeID _ => ?_
  refine Gives.bind (Gives.any _) fun peerID _ => ?_
  refine Gives.bind (Gives.any _) fun mode _ => ?_
  refine Gives.bind (Gives.any _) fun prefer _ => ?_
  exact Gives.pure ⟨List.mem_pair.mp hrole, rfl, rfl, rfl, rfl⟩

theorem never_opening (hL : sys.lib.Standard) {instanceName : Bytes} {current : Option Config}
    (h : Keepable (current.getD (defaultConfig instanceName))) :
    Never .loops (opening sys instanceName current) := by
  have hprefer := List.mem_pair.mpr h.prefer.symm
  refine Never.bind (never_of_outcome
    (outcome_choice (toLower_role hL h.role) (List.mem_pair.mpr h.role))) fun role => ?_
  refine Never.bind (never_of_outcome (outcome_promptIdentifier h.nodeID)) fun nodeID => ?_
  refine Never.bind (never_of_outcome (outcome_promptIdentifier h.peerID)) fun peerID => ?_
  refine Never.bind (never_of_outcome
    (outcome_choice (toLower_mode hL h.mode) (by simpa using h.mode))) fun mode => ?_
  refine Never.bind (never_askIf fun _ => never_of_outcome
    (outcome_choice (hL.toLower_protocol h.prefer) hprefer)) fun prefer => ?_
  exact Never.pure _

/-! ## The carriers -/

/-- The question for the host. A server may listen at all addresses. -/
def hostQuestion (cfg : Config) : Dialogue Bytes :=
  if cfg.role = server then prompt (oldEndpoint cfg).1 else promptRequired (oldEndpoint cfg).1

/-- The question for the host or that for the port is not answered. -/
def TransportStarves (cfg : Config) (h : Host) : Prop :=
  (cfg.role ≠ server ∧ Unanswered (oldEndpoint cfg).1 (accept fun value => value ≠ []) h.input) ∨
    After (hostQuestion cfg) (fun _ h => Unanswered (oldEndpoint cfg).2
      (accept fun value => value ≠ [] && (inRange 1 65535 value).isSome) h.input) h

theorem exits_hostQuestion_iff {cfg : Config} {h : Host} :
    Exits .loops (hostQuestion cfg) h ↔
      cfg.role ≠ server ∧
        Unanswered (oldEndpoint cfg).1 (accept fun value => value ≠ []) h.input := by
  unfold hostQuestion
  split
  · rename_i hrole
    exact iff_of_false (never_ask rfl h) fun hclient => hclient.1 hrole
  · rename_i hrole
    exact exits_ask_iff.trans (and_iff_right hrole).symm

theorem never_udpPort (hL : sys.lib.Standard) (t : TransportConfig) {port : Bytes}
    (h : Never .loops (promptPort port)) : Never .loops (udpPort sys t port) := by
  refine Never.bind (never_askIf fun _ => never_yesNo hL _) fun separate => ?_
  exact never_askIf fun _ => h

/-- The configuration with the addresses of the carriers. -/
theorem configureTransport_eq (cfg : Config) :
    ∃ addressed : Bytes → Bytes → Bytes → TransportConfig,
      configureTransport sys cfg = (do
        let host ← hostQuestion cfg
        let port ← promptPort (oldEndpoint cfg).2
        let second ← udpPort sys cfg.transport port
        pure { cfg with transport := addressed host port second }) := by
  unfold configureTransport hostQuestion
  by_cases hrole : cfg.role = server
  · simp only [oldEndpoint, Config.endpoints, hrole, if_true]
    exact ⟨_, rfl⟩
  · simp only [oldEndpoint, Config.endpoints, hrole, if_false]
    exact ⟨_, rfl⟩

theorem gives_configureTransport {cfg : Config} :
    Gives (fun c => c.l3 = cfg.l3 ∧ c.services = cfg.services ∧ c.forwards = cfg.forwards)
      (configureTransport sys cfg) := by
  obtain ⟨addressed, heq⟩ := configureTransport_eq sys cfg
  rw [heq]
  refine Gives.bind (Gives.any _) fun host _ => ?_
  refine Gives.bind (Gives.any _) fun port _ => ?_
  refine Gives.bind (Gives.any _) fun second _ => ?_
  exact Gives.pure ⟨rfl, rfl, rfl⟩

theorem exits_configureTransport_iff (hL : sys.lib.Standard) {cfg : Config} {h : Host} :
    Exits .loops (configureTransport sys cfg) h ↔ TransportStarves cfg h := by
  obtain ⟨addressed, heq⟩ := configureTransport_eq sys cfg
  rw [heq, exits_bind_iff, exits_hostQuestion_iff]
  refine or_congr_right (after_congr (Gives.any _) fun host _ t => ?_)
  rw [exits_bind_of_gives gives_promptPort fun port hport =>
    Never.bind (never_udpPort sys hL _ hport) fun second => Never.pure _]
  exact exits_ask_iff

/-! ## Layer 3 -/

/-- The interface, the address and the MTU that the questions start from. -/
def oldInterface (instanceName : Bytes) (cfg : Config) (files : Table Bytes Bytes) : Bytes :=
  valueOr cfg.l3.interface (nextInterface sys instanceName files)

/-- The address of the section, or the one that Layer 3 starts from for the role. -/
def oldAddress (cfg : Config) : Bytes :=
  valueOr cfg.l3.address
    (if cfg.role = server then ofString "10.77.0.2/30" else ofString "10.77.0.1/30")

/-- The MTU of the section, or the default. -/
def oldMTU (cfg : Config) : Int := if cfg.l3.mtu = 0 then 1200 else cfg.l3.mtu

/-- One of the three questions is not answered. -/
def EnabledL3Starves (instanceName : Bytes) (cfg : Config) (h : Host) : Prop :=
  Unanswered (oldInterface sys instanceName cfg h.files)
      (accept fun value => value ≠ [] && interfaceRE value) h.input ∨
    After (promptInterface (oldInterface sys instanceName cfg h.files)) (fun _ h =>
      Unanswered (oldAddress cfg)
          (accept fun value => value ≠ [] && sys.lib.parseCIDR value) h.input ∨
        After (promptCIDR sys.lib (oldAddress cfg)) (fun _ h =>
          Unanswered (Text.itoa (oldMTU cfg)) (inRange 576 1300) h.input) h) h

/-- Layer 3 is to be enabled, and a question about it is not answered. -/
def L3Starves (instanceName : Bytes) (cfg : Config) : Host → Prop :=
  After (yesNo sys.lib cfg.l3.enabled) fun enabled h =>
    enabled = true ∧ EnabledL3Starves sys instanceName cfg h

theorem protocolsChoice_mem (protocols : List Bytes) :
    protocolsChoice sys protocols ∈ [tcp, udp, both] := by
  simp only [protocolsChoice]
  split
  · decide
  · split <;> decide

theorem exits_enabledL3_iff (hL : sys.lib.Standard) {instanceName : Bytes} {cfg : Config}
    {h : Host} :
    Exits .loops (enabledL3 sys instanceName cfg) h ↔
      EnabledL3Starves sys instanceName cfg h := by
  have hpackets := protocolsChoice_mem sys cfg.l3.allowProtocols
  unfold enabledL3
  rw [exits_bind_of_never Never.get, after_get, exits_bind_iff]
  refine or_congr exits_ask_iff (after_congr (Gives.any _) fun interface _ t => ?_)
  rw [exits_bind_iff]
  refine or_congr exits_ask_iff (after_congr (Gives.any _) fun address _ t => ?_)
  rw [exits_bind_of_gives (Gives.any _) fun mtu _ => ?_]
  · exact exits_ask_iff
  · refine Never.bind (never_of_outcome
      (outcome_choice (toLower_mode hL (by simpa using hpackets)) hpackets)) fun packets => ?_
    refine Never.bind (never_ask rfl) fun routes => ?_
    split
    · exact never_stop _
    · exact Never.pure _

theorem exits_configureL3_iff (hL : sys.lib.Standard) {instanceName : Bytes} {cfg : Config}
    {h : Host} :
    Exits .loops (configureL3 sys instanceName cfg) h ↔ L3Starves sys instanceName cfg h := by
  unfold configureL3
  rw [exits_bind_of_never (never_yesNo hL _)]
  refine after_congr (Gives.any _) fun enabled _ t => ?_
  cases enabled with
  | false => exact iff_of_false (not_exits_pure _) fun h => by cases h.1
  | true => exact (exits_enabledL3_iff sys hL).trans (and_iff_right rfl).symm

theorem gives_configureL3 {instanceName : Bytes} {cfg : Config} :
    Gives (fun c => c.services = cfg.services ∧ c.forwards = cfg.forwards)
      (configureL3 sys instanceName cfg) := by
  refine Gives.bind (Gives.any _) fun enabled _ => ?_
  refine Gives.ite (fun _ => Gives.pure ⟨rfl, rfl⟩) fun _ => ?_
  refine Gives.bind (Gives.any _) fun h _ => ?_
  refine Gives.bind (Gives.any _) fun interface _ => ?_
  refine Gives.bind (Gives.any _) fun address _ => ?_
  refine Gives.bind (Gives.any _) fun mtu _ => ?_
  refine Gives.bind (Gives.any _) fun packets _ => ?_
  refine Gives.bind (Gives.any _) fun routes _ => ?_
  split
  · exact Gives.throw _
  · exact Gives.pure ⟨rfl, rfl⟩

/-! ## Services and forwards -/

/-- A number of entries is to be given, and that question is not answered. -/
def CountStarves (configures : Bool) (count : Nat) : Host → Prop :=
  After (yesNo sys.lib configures) fun configure h =>
    configure = true ∧ Unanswered (Text.itoa count) (inRange 0 256) h.input

/-- The number of services is not answered. -/
def ServicesStarve (cfg : Config) : Host → Prop :=
  CountStarves sys (cfg.role = server ∨ 0 < cfg.services.keys.length)
    (sortedServiceNames cfg.services).length

/-- The number of forwards is not answered. -/
def ForwardsStarve (cfg : Config) : Host → Prop :=
  CountStarves sys (cfg.role = client ∨ 0 < cfg.forwards.length) cfg.forwards.length

/-- A number is written in as many safe bytes as its bound. -/
theorem safe_itoa {n : Nat} (h : n < 1000) :
    (Text.itoa n).length ≤ 3 ∧ (Text.itoa n).all isSafe = true := by
  have hitoa : Text.itoa n = Text.decimal n := rfl
  rw [hitoa]
  constructor
  · rw [Text.decimal, Text.digitBytes, List.length_map]
    exact (Nat.length_toDigits_le_iff (by decide) (by decide)).mpr h
  · rw [List.all_eq_true]
    intro b hb
    obtain ⟨hlow, hhigh⟩ := Text.digit_of_mem_decimal hb
    simp [isSafe, isAlphanumeric, hlow, hhigh]

/-- A name that is put together from a word and a number. -/
theorem identifier_numbered {word : Bytes} (hword : identifierRE word = true)
    (hshort : word.length ≤ 61) {n : Nat} (h : n < 1000) :
    identifierRE (word ++ Text.itoa n) = true := by
  obtain ⟨hlength, hsafe⟩ := safe_itoa h
  cases word with
  | nil => cases hword
  | cons b rest =>
      simp only [identifierRE, Bool.and_eq_true, decide_eq_true_eq] at hword
      rw [List.length_cons] at hshort
      simp only [List.cons_append, identifierRE, Bool.and_eq_true, decide_eq_true_eq,
        List.length_append, List.all_append]
      exact ⟨⟨hword.1.1, by omega⟩, hword.2, hsafe⟩

theorem never_serviceLoop (hL : sys.lib.Standard) {names : List Bytes} {old : Services}
    (hold : ∀ name ∈ names, ∃ svc, old.lookup name = some svc ∧ svc.Valid name)
    {remaining i : Nat} (hbound : i + remaining ≤ 256) (services : Services) :
    Never .loops (serviceLoop sys names old remaining i services) := by
  induction remaining generalizing i services with
  | zero => exact Never.pure _
  | succ remaining ih =>
      unfold serviceLoop
      by_cases hi : i < names.length
      · have hget : names[i]? = some names[i] := List.getElem?_eq_getElem hi
        obtain ⟨svc, hlookup, hvalid⟩ := hold names[i] (List.getElem_mem hi)
        obtain ⟨endpoint, haddress⟩ := dialAddress_eq_ok hvalid.address
        simp only [List.getD_eq_getElem?_getD, hget, Option.getD_some, Option.bind_some, hlookup]
        refine Never.bind (never_of_outcome (outcome_keepIdentifier hvalid.name _)) fun name => ?_
        refine Never.ite (fun _ => never_stop _) fun _ => ?_
        refine Never.bind (never_of_outcome (outcome_choiceProtocol hL hvalid.network)) fun p => ?_
        refine Never.bind (never_of_outcome (outcome_keepAddress haddress _)) fun address => ?_
        exact ih (by omega) _
      · have hget : names[i]? = none := List.getElem?_eq_none (Nat.le_of_not_lt hi)
        simp only [List.getD_eq_getElem?_getD, hget, Option.getD_none, Option.bind_none]
        have hname := @identifier_numbered (ofString "service-") (by decide) (by decide) (i + 1)
          (by omega)
        refine Never.bind (never_of_outcome (outcome_promptIdentifier hname)) fun name => ?_
        refine Never.ite (fun _ => never_stop _) fun _ => ?_
        refine Never.bind (never_of_outcome (outcome_choiceProtocol hL (Or.inl rfl))) fun p => ?_
        refine Never.bind (never_of_outcome (outcome_promptRequired (by decide))) fun address => ?_
        exact ih (by omega) _

theorem exits_configureServices_iff (hL : sys.lib.Standard) {cfg : Config}
    (hservices : ∀ e ∈ cfg.services.entries, e.2.Valid e.1) {h : Host} :
    Exits .loops (configureServices sys cfg) h ↔ ServicesStarve sys cfg h := by
  unfold configureServices
  rw [exits_bind_of_never (never_yesNo hL _)]
  refine after_congr (Gives.any _) fun configure _ t => ?_
  cases configure with
  | false => exact iff_of_false (not_exits_pure _) fun h => by cases h.1
  | true =>
      rw [if_neg (by decide), exits_bind_of_gives gives_promptInt fun count hcount => ?_]
      · exact exits_ask_iff.trans (and_iff_right rfl).symm
      · refine Never.bind (never_serviceLoop sys hL ?_ (by omega) ∅) fun _ => Never.pure _
        intro name hname
        obtain ⟨svc, hsvc⟩ := Option.isSome_iff_exists.mp
          (AList.lookup_isSome.mpr (mem_sortedServiceNames.mp hname))
        exact ⟨svc, hsvc, hservices _ (AList.mem_lookup_iff.mp hsvc)⟩

theorem gives_configureServices {cfg : Config} :
    Gives (fun c => c.forwards = cfg.forwards) (configureServices sys cfg) := by
  refine Gives.bind (Gives.any _) fun configure _ => ?_
  refine Gives.ite (fun _ => Gives.pure rfl) fun _ => ?_
  refine Gives.bind (Gives.any _) fun count _ => ?_
  exact Gives.bind (Gives.any _) fun services _ => Gives.pure rfl

theorem never_forwardLoop (hL : sys.lib.Standard) {old : List Forward}
    (hold : ∀ f ∈ old, f.Valid) {remaining : Nat} {forwards : List Forward}
    (hbound : forwards.length + remaining ≤ 256) :
    Never .loops (forwardLoop sys old remaining forwards) := by
  induction remaining generalizing forwards with
  | zero => exact Never.pure _
  | succ remaining ih =>
      have hnext : ∀ f, (forwards ++ [f]).length + remaining ≤ 256 := by
        intro f
        rw [List.length_append, List.length_singleton]
        omega
      unfold forwardLoop
      by_cases hi : forwards.length < old.length
      · have hf := hold old[forwards.length] (List.getElem_mem hi)
        obtain ⟨endpoint, hlisten⟩ := listenAddress_eq_ok hf.listen
        simp only [List.getD_eq_getElem?_getD, List.getElem?_eq_getElem hi, Option.getD_some]
        refine Never.bind (never_of_outcome (outcome_keepIdentifier hf.name _)) fun name => ?_
        refine Never.ite (fun _ => never_stop _) fun _ => ?_
        refine Never.bind (never_of_outcome (outcome_choiceProtocol hL hf.protocol)) fun p => ?_
        refine Never.bind (never_of_outcome (outcome_keepAddress hlisten _)) fun listen => ?_
        refine Never.bind (never_of_outcome (outcome_keepIdentifier hf.service _)) fun service => ?_
        exact ih (hnext _)
      · have hget := List.getElem?_eq_none (Nat.le_of_not_lt hi)
        simp only [List.getD_eq_getElem?_getD, hget, Option.getD_none]
        have hname := @identifier_numbered (ofString "forward-") (by decide) (by decide)
          (forwards.length + 1) (by omega)
        refine Never.bind (never_of_outcome (outcome_promptIdentifier hname)) fun name => ?_
        refine Never.ite (fun _ => never_stop _) fun _ => ?_
        refine Never.bind (never_of_outcome (outcome_choiceProtocol hL (Or.inl rfl))) fun p => ?_
        refine Never.bind (never_of_outcome (outcome_promptRequired (by decide))) fun listen => ?_
        refine Never.bind (never_of_outcome (outcome_promptIdentifier (by decide))) fun svc => ?_
        exact ih (hnext _)

theorem exits_configureForwards_iff (hL : sys.lib.Standard) {cfg : Config}
    (hforwards : ∀ f ∈ cfg.forwards, f.Valid) {h : Host} :
    Exits .loops (configureForwards sys cfg) h ↔ ForwardsStarve sys cfg h := by
  unfold configureForwards
  rw [exits_bind_of_never (never_yesNo hL _)]
  refine after_congr (Gives.any _) fun configure _ t => ?_
  cases configure with
  | false => exact iff_of_false (not_exits_pure _) fun h => by cases h.1
  | true =>
      rw [if_neg (by decide), exits_bind_of_gives gives_promptInt fun count hcount => ?_]
      · exact exits_ask_iff.trans (and_iff_right rfl).symm
      · refine Never.bind (never_forwardLoop sys hL hforwards ?_) fun _ => Never.pure _
        rw [List.length_nil]
        omega

/-! ## The secret -/

theorem never_planSecret (hL : sys.lib.Standard) (instanceName : Bytes) (cfg : Config)
    (editing : Bool) : Never .loops (planSecret sys instanceName cfg editing) := by
  have hpath : Text.join sys.configDir (instanceName ++ ofString ".key") ≠ [] :=
    Text.join_ne_nil _ (List.append_ne_nil_of_right_ne_nil _ (by decide))
  have hsecretFile : valueOr cfg.auth.secretFile
      (Text.join sys.configDir (instanceName ++ ofString ".key")) ≠ [] := by
    unfold valueOr
    split
    · exact hpath
    · rename_i hne
      exact hne
  have hlower : ∀ word ∈ [ofString "keep", ofString "generate"], sys.lib.toLower word = word := by
    intro word hword
    apply hL.toLower_eq_self
    rcases List.mem_pair.mp hword with rfl | rfl <;> decide
  have haction : Never .loops (choice sys.lib
      (if editing then [ofString "keep", ofString "generate", ofString "paste", ofString "file"]
        else [ofString "generate", ofString "paste", ofString "file"])
      (if editing then ofString "keep" else ofString "generate")) := by
    cases editing with
    | true => exact never_of_outcome (outcome_choice (hlower _ (by decide)) (by decide))
    | false => exact never_of_outcome (outcome_choice (hlower _ (by decide)) (by decide))
  have hrequired : ∀ {path}, path ≠ [] → Never .loops (promptRequired path) :=
    fun h => never_of_outcome (outcome_promptRequired h)
  refine Never.bind haction fun action => ?_
  refine Never.ite (fun _ => ?_) fun _ => Never.ite (fun _ => ?_) fun _ =>
    Never.ite (fun _ => ?_) fun _ => Never.ite (fun _ => ?_) fun _ => never_stop _
  · refine Never.bind Never.get fun h => ?_
    split
    · exact never_stop _
    · exact Never.pure _
  · refine Never.bind (hrequired hsecretFile) fun path => Never.bind Never.get fun h => ?_
    split
    · exact never_stop _
    · exact Never.pure _
  · refine Never.bind (never_ask rfl) fun secret => ?_
    refine Never.ite (fun _ => never_stop _) fun _ => ?_
    exact Never.bind (hrequired hpath) fun path => Never.pure _
  · unfold generateSecret
    split
    · exact never_stop _
    · refine Never.bind (hrequired hpath) fun path => Never.bind Never.get fun h => ?_
      refine Never.bind (never_askIf fun _ => never_yesNo hL _) fun overwrite => ?_
      exact Never.ite (fun _ => Never.pure _) fun _ => never_stop _

theorem never_replaceFile (io : FileOp → Bool) (saves : Bool) (path data : Bytes) :
    Never .loops (replaceFile sys io saves path data) := by
  intro h hloops
  by_cases hio : Renames io
  · obtain ⟨t, ht⟩ := hloops
    rw [replaceFile_of_renames hio] at ht
    split at ht <;> cases ht
  · obtain ⟨t, ht⟩ := hloops
    obtain ⟨error, herror⟩ := @replaceFile_of_not_renames sys _ hio saves path data h
    rw [herror] at ht
    cases ht

theorem never_configureSecret (hL : sys.lib.Standard) (instanceName : Bytes) (cfg : Config)
    (editing : Bool) : Never .loops (configureSecret sys instanceName cfg editing) := by
  refine Never.bind (never_planSecret sys hL _ _ _) fun plan => ?_
  refine Never.bind ?_ fun _ => Never.pure _
  unfold applySecret
  split
  · exact Never.pure _
  · unfold writeSecret
    split
    · exact never_stop _
    · refine Never.bind Never.get fun h => ?_
      split
      · exact never_stop _
      · exact never_replaceFile sys _ _ _ _

theorem never_save (path : Bytes) (cfg : Config) : Never .loops (save sys path cfg) :=
  Never.ite (fun _ => never_replaceFile sys _ _ _ _) fun _ => never_stop _

/-! ## The wizard -/

/-- Some question of the wizard is not answered by the lines that the questions
before it leave. -/
def WizardStarves (instanceName : Bytes) (current : Option Config) : Host → Prop :=
  After (opening sys instanceName current) fun cfg h =>
    TransportStarves cfg h ∨ After (configureTransport sys cfg) (fun cfg h =>
      L3Starves sys instanceName cfg h ∨ After (configureL3 sys instanceName cfg) (fun cfg h =>
        ServicesStarve sys cfg h ∨ After (configureServices sys cfg) (ForwardsStarve sys) h) h) h

theorem exits_wizard_iff (hL : sys.lib.Standard) {instanceName : Bytes} {current : Option Config}
    (hkeep : Keepable (current.getD (defaultConfig instanceName))) {h : Host} :
    Exits .loops (wizard sys instanceName current) h ↔
      WizardStarves sys instanceName current h := by
  rw [wizard_eq, exits_bind_of_never (never_opening sys hL hkeep)]
  refine after_congr (gives_opening sys) fun opened hopened t => ?_
  rw [exits_bind_iff]
  refine or_congr (exits_configureTransport_iff sys hL)
    (after_congr (gives_configureTransport sys) fun carried hcarried t => ?_)
  rw [exits_bind_iff]
  refine or_congr (exits_configureL3_iff sys hL)
    (after_congr (gives_configureL3 sys) fun routed hrouted t => ?_)
  have hservices : routed.services = (current.getD (defaultConfig instanceName)).services := by
    rw [hrouted.1, hcarried.2.1, hopened.services]
  have hforwards : routed.forwards = (current.getD (defaultConfig instanceName)).forwards := by
    rw [hrouted.2, hcarried.2.2, hopened.forwards]
  rw [exits_bind_iff]
  refine or_congr (exits_configureServices_iff sys hL (hservices ▸ hkeep.services))
    (after_congr (gives_configureServices sys) fun served hserved t => ?_)
  rw [exits_bind_of_gives (Gives.any _) fun cfg _ => ?_]
  · exact exits_configureForwards_iff sys hL (hserved.trans hforwards ▸ hkeep.forwards)
  · refine Never.bind (never_configureSecret sys hL _ _ _) fun result => ?_
    exact Never.ite (fun _ => Never.pure _) fun _ => never_stop _

/-! ## Creating -/

/-- The addresses that Layer 3 starts from are address ranges. -/
structure Usual (L : Library) : Prop extends L.Standard where
  parsesServer : L.parseCIDR (ofString "10.77.0.2/30") = true
  parsesClient : L.parseCIDR (ofString "10.77.0.1/30") = true

theorem interface_numbered {i : Nat} (h : i < 1000) :
    interfaceRE (ofString "utun" ++ Text.itoa i) = true := by
  obtain ⟨hlength, hsafe⟩ := safe_itoa h
  have hword : (ofString "utun").length = 4 := rfl
  simp only [interfaceRE, Bool.and_eq_true, decide_eq_true_eq, List.length_append, hword,
    List.all_append]
  exact ⟨⟨by omega, by omega⟩, by decide, hsafe⟩

theorem interface_nextInterface (instanceName : Bytes) (files : Table Bytes Bytes) :
    interfaceRE (nextInterface sys instanceName files) = true := by
  simp only [nextInterface]
  cases hfind : ((List.range 1000).map fun i => ofString "utun" ++ Text.itoa i).find?
      fun name => ¬ interfaceUsed sys instanceName name files with
  | none => exact (by decide : interfaceRE (ofString "utun0") = true)
  | some name =>
      obtain ⟨i, hi, rfl⟩ := List.mem_map.mp (List.mem_of_find?_eq_some hfind)
      simp only [List.pure_def, List.bind_eq_flatMap, List.mem_flatMap, List.mem_range,
        List.mem_singleton] at hi
      obtain ⟨n, hn, rfl⟩ := hi
      exact interface_numbered hn

theorem not_unanswered {α : Type} {default : Bytes} {check : Bytes → Option α}
    (h : (check default).isSome = true) (input : List (Option Bytes)) :
    ¬ Unanswered default check input := by
  intro hun
  rw [hun.refused] at h
  cases h

theorem isSome_accept {test : Bytes → Bool} {value : Bytes} (h : test value = true) :
    (accept test value).isSome = true := by
  rw [accept, if_pos h]
  rfl

variable {sys}

/-- For a new tunnel, only the host of the peer has no default. -/
theorem transportStarves_default_iff {instanceName : Bytes} {cfg : Config}
    (hcfg : Opened (defaultConfig instanceName) cfg) {h : Host} :
    TransportStarves cfg h ↔ cfg.role = client ∧ h.Blank := by
  have hport : ∀ input, ¬ Unanswered (ofString "8443")
      (accept fun value => value ≠ [] && (inRange 1 65535 value).isSome) input :=
    not_unanswered (by decide +kernel)
  have hendpoints : cfg.endpoints = ([], []) := by
    rw [Config.endpoints, hcfg.transport]
    split <;> rfl
  have hold : oldEndpoint cfg =
      (if cfg.role = server then ofString "0.0.0.0" else [], ofString "8443") := by
    rw [oldEndpoint, hendpoints]
    rfl
  rw [TransportStarves, hold]
  constructor
  · rintro (⟨hrole, hun⟩ | ⟨host, t, -, hun⟩)
    · rw [if_neg hrole] at hun
      exact ⟨hcfg.role.resolve_left hrole, unanswered_required_iff.mp hun⟩
    · exact absurd hun (hport _)
  · rintro ⟨hrole, hblank⟩
    have hclient : cfg.role ≠ server := by
      rw [hrole]
      decide
    rw [if_neg hclient]
    exact Or.inl ⟨hclient, unanswered_required_iff.mpr hblank⟩

theorem not_l3Starves_default (hL : Usual sys.lib) {instanceName : Bytes} {cfg : Config}
    (hl3 : cfg.l3 = (defaultConfig instanceName).l3) {h : Host} :
    ¬ L3Starves sys instanceName cfg h := by
  have haddress : ∀ input, ¬ Unanswered (oldAddress cfg)
      (accept fun value => value ≠ [] && sys.lib.parseCIDR value) input := by
    have hnil : (defaultConfig instanceName).l3.address = [] := rfl
    apply not_unanswered
    rw [oldAddress, hl3, hnil, valueOr, if_pos rfl]
    apply isSome_accept
    split
    · exact Bool.and_eq_true_iff.mpr ⟨by decide, hL.parsesServer⟩
    · exact Bool.and_eq_true_iff.mpr ⟨by decide, hL.parsesClient⟩
  rintro ⟨enabled, t, -, -, hun | ⟨interface, t', -, hun | ⟨address, t'', -, hun⟩⟩⟩
  · have hinterface := interface_nextInterface sys instanceName t.files
    have hnil : (defaultConfig instanceName).l3.interface = [] := rfl
    rw [oldInterface, hl3, hnil, valueOr, if_pos rfl] at hun
    generalize nextInterface sys instanceName t.files = name at hinterface hun
    refine not_unanswered (isSome_accept (Bool.and_eq_true_iff.mpr ⟨?_, hinterface⟩)) _ hun
    rw [decide_eq_true_eq]
    rintro rfl
    cases hinterface
  · exact haddress _ hun
  · have hmtu : oldMTU cfg = 1200 := by
      rw [oldMTU, hl3]
      rfl
    rw [hmtu] at hun
    exact not_unanswered (by decide +kernel) _ hun

theorem not_countStarves_zero {configures : Bool} {h : Host} :
    ¬ CountStarves sys configures 0 h := by
  rintro ⟨configure, t, -, -, hun⟩
  exact not_unanswered (by decide +kernel) _ hun

theorem wizardStarves_none_iff (hL : Usual sys.lib) {instanceName : Bytes} {h : Host} :
    WizardStarves sys instanceName none h ↔
      After (opening sys instanceName none) (fun cfg h => cfg.role = client ∧ h.Blank) h := by
  refine after_congr (gives_opening sys) fun opened hopened t => ?_
  rw [transportStarves_default_iff hopened]
  refine or_iff_left ?_
  -- From here on every question has a default that is accepted.
  refine not_after (gives_configureTransport sys) fun carried hcarried t => ?_
  have hl3 : carried.l3 = (defaultConfig instanceName).l3 := hcarried.1.trans hopened.l3
  rw [not_or]
  refine ⟨not_l3Starves_default hL hl3,
    not_after (gives_configureL3 sys) fun routed hrouted t => ?_⟩
  have hservices : routed.services = ∅ := by
    rw [hrouted.1, hcarried.2.1, hopened.services]
    rfl
  have hforwards : routed.forwards = [] := by
    rw [hrouted.2, hcarried.2.2, hopened.forwards]
    rfl
  rw [not_or, ServicesStarve, hservices]
  refine ⟨not_countStarves_zero, not_after (gives_configureServices sys) fun served hserved t => ?_⟩
  rw [ForwardsStarve, hserved.trans hforwards]
  exact not_countStarves_zero

variable (sys)

/-- The role is that of a client, and only blank lines are left for the host of
the peer. -/
def SetupStarves (instanceName : Bytes) : Host → Prop :=
  After (beginSetup sys instanceName) fun name =>
    After (opening sys name none) fun cfg h => cfg.role = client ∧ h.Blank

theorem never_beginSetup (instanceName : Bytes) : Never .loops (beginSetup sys instanceName) := by
  refine Never.bind (never_requireRoot sys) fun _ => ?_
  refine Never.ite (fun _ => never_stop _) fun _ => ?_
  refine Never.bind (never_askIf fun _ => never_of_outcome
    (outcome_promptIdentifier (by decide))) fun name => ?_
  refine Never.ite (fun _ => never_stop _) fun _ => ?_
  refine Never.bind Never.get fun h => ?_
  split
  · exact never_stop _
  · exact never_stop _
  · exact Never.pure _

theorem gives_beginSetup (instanceName : Bytes) :
    Gives (fun name => identifierRE name = true) (beginSetup sys instanceName) := by
  refine Gives.bind (Gives.any _) fun _ _ => ?_
  refine Gives.ite (fun _ => Gives.throw _) fun _ => ?_
  refine Gives.bind (Gives.any _) fun name _ => ?_
  refine Gives.ite (fun _ => Gives.throw _) fun hname => ?_
  refine Gives.bind (Gives.any _) fun h _ => ?_
  split
  · exact Gives.throw _
  · exact Gives.throw _
  · exact Gives.pure (eq_true_of_ne_false hname)

theorem exits_setup_iff (hL : Usual sys.lib) {instanceName : Bytes} {h : Host} :
    Exits .loops (setup sys instanceName) h ↔ SetupStarves sys instanceName h := by
  unfold setup
  rw [exits_bind_of_never (never_beginSetup sys _)]
  refine after_congr (gives_beginSetup sys _) fun name hname t => ?_
  rw [exits_bind_of_gives (Gives.any _) fun result _ => ?_]
  · exact (@exits_wizard_iff sys hL.toStandard name none (keepable_defaultConfig hname) t).trans
      (wizardStarves_none_iff hL)
  · refine Never.bind (never_save sys _ _) fun _ => ?_
    refine Never.ite (fun _ => never_stop _) fun _ => ?_
    exact Never.bind (never_yesNo hL.toStandard _) fun _ => Never.pure _

/-! ## Editing -/

/-- Some question of the wizard about the loaded configuration is not answered. -/
def EditStarves (instanceName : Bytes) : Host → Prop :=
  After (beginEdit sys instanceName) fun current => WizardStarves sys instanceName (some current)

theorem gives_beginEdit (instanceName : Bytes) :
    Gives (fun cfg => cfg.Valid sys.lib) (beginEdit sys instanceName) := by
  refine Gives.bind (Gives.any _) fun _ _ => ?_
  refine Gives.bind (Gives.any _) fun h _ => ?_
  split
  · exact Gives.throw _
  · rename_i hload
    exact Gives.pure (valid_of_load hload)

theorem never_beginEdit (instanceName : Bytes) : Never .loops (beginEdit sys instanceName) := by
  refine Never.bind (never_requireRoot sys) fun _ => ?_
  refine Never.bind Never.get fun h => ?_
  split
  · exact never_stop _
  · exact Never.pure _

theorem never_endEdit (hL : sys.lib.Standard) (instanceName : Bytes) :
    Never .loops (endEdit sys instanceName) := by
  refine Never.ite (fun _ => ?_) fun _ => ?_
  · refine Never.bind (never_yesNo hL _) fun again => ?_
    refine Never.ite (fun _ => ?_) fun _ => Never.pure _
    refine Never.bind (never_requireRoot sys) fun _ => ?_
    refine Never.ite (fun _ => never_stop _) fun _ => ?_
    refine Never.bind Never.get fun h => ?_
    refine Never.ite (fun _ => never_stop _) fun _ => ?_
    exact Never.ite (fun _ => Never.pure _) fun _ => never_stop _
  · refine Never.bind (never_yesNo hL _) fun start => ?_
    refine Never.ite (fun _ => ?_) fun _ => Never.pure _
    exact Never.ite (fun _ => Never.pure _) fun _ => never_stop _

theorem exits_edit_iff (hL : sys.lib.Standard) {instanceName : Bytes} {h : Host} :
    Exits .loops (edit sys instanceName) h ↔ EditStarves sys instanceName h := by
  unfold edit
  rw [exits_bind_of_never (never_beginEdit sys _)]
  refine after_congr (gives_beginEdit sys _) fun current hvalid t => ?_
  rw [exits_bind_of_gives (Gives.any _) fun result _ => ?_]
  · exact exits_wizard_iff sys hL (keepable_of_valid hvalid)
  · exact Never.bind (never_save sys _ _) fun _ => never_endEdit sys hL _

end UnknownTunnel.Admin

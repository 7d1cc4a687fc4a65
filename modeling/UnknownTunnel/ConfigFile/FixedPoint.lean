import UnknownTunnel.ConfigFile.NormalForm

/-!
# Validation reaches a fixed point

What `Validate` leaves behind is its own normal form, whether it was accepted or
not, and is accepted exactly if the configuration it came from was. This does
not depend on the order in which the map of services is visited.

## Implementation notes

Of `strings.ToLower` it is assumed, besides what it does on ASCII strings, that
lower-casing twice is lower-casing once.
-/

namespace UnknownTunnel.ConfigFile

open Foundation

/-- What is assumed of lower-casing by the tables of Unicode. -/
structure Library.Lowers (L : Library) : Prop extends L.Standard where
  lower_lower : ∀ s, L.toLower (L.toLower s) = L.toLower s

/-- The same configuration with its services in another order. -/
structure Config.Reordered (c c' : Config) : Prop where
  entries : c'.services.entries.Perm c.services.entries
  rest : c' = { c with services := c'.services }

theorem sampleLibrary_lowers : sampleLibrary.Lowers where
  toStandard := sampleLibrary_standard
  lower_lower s := by
    show (s.map Text.lowerByte).map Text.lowerByte = s.map Text.lowerByte
    rw [List.map_map]
    apply List.map_congr_left
    intro b _
    simp only [Function.comp, Text.lowerByte]
    split
    · rename_i hupper
      rw [if_neg]
      simp only [UInt8.le_iff_toNat_le, UInt8.toNat_add, UInt8.reduceToNat] at hupper ⊢
      omega
    · rfl

variable {L : Library}

theorem Config.Reordered.refl (c : Config) : c.Reordered c := ⟨List.Perm.refl _, rfl⟩

theorem Config.Reordered.mem_services {c c' : Config} (h : c.Reordered c')
    {e : Sigma fun _ : Bytes => Service} :
    e ∈ c'.services.entries ↔ e ∈ c.services.entries := h.entries.mem_iff

/-! ## Sections in normal form -/

theorem normalizeTransport_normalizeTransport (hL : L.Lowers) (t : TransportConfig) :
    normalizeTransport L (normalizeTransport L t) = normalizeTransport L t := by
  have hudp : L.toLower udp = udp := hL.toLower_protocol (Or.inr rfl)
  have hne : udp ≠ [] := by decide
  simp only [normalizeTransport, hL.lower_lower]
  by_cases hprefer : L.toLower t.prefer = []
  · by_cases hmode : L.toLower t.mode = both
    · simp only [hprefer, hmode, if_true, hudp, hne, if_false]
    · simp only [hprefer, hmode, if_true, if_false, hL.lower_lower, ite_self]
  · simp only [hprefer, if_false, hL.lower_lower]

theorem normalizeProtocols_normalizeProtocols (hL : L.Lowers) (protocols : List Bytes) :
    normalizeProtocols L (normalizeProtocols L protocols) = normalizeProtocols L protocols := by
  rw [normalizeProtocols, if_neg (normalizeProtocols_ne_nil protocols)]
  apply Text.map_eq_self
  intro p hp
  obtain ⟨q, -, rfl⟩ := List.mem_map.mp hp
  exact hL.lower_lower q

theorem normalizeL3_normalizeL3 (hL : L.Lowers) (l3 : L3Config) :
    normalizeL3 L (normalizeL3 L l3) = normalizeL3 L l3 := by
  cases henabled : l3.enabled with
  | false => simp only [normalizeL3, henabled, Bool.false_eq_true, if_false]
  | true =>
      have hmtu : (if (if l3.mtu = 0 then 1200 else l3.mtu) = 0 then 1200
          else if l3.mtu = 0 then 1200 else l3.mtu) = if l3.mtu = 0 then 1200 else l3.mtu := by
        by_cases hzero : l3.mtu = 0
        · rw [if_pos hzero]
          decide
        · rw [if_neg hzero, if_neg hzero]
      simp only [normalizeL3, henabled, if_true, hmtu, normalizeProtocols_normalizeProtocols hL]

theorem normalizeService_normalizeService (hL : L.Lowers) (name : Bytes) (s : Service) :
    normalizeService L name (normalizeService L name s) = normalizeService L name s := by
  unfold normalizeService
  split
  · rw [hL.lower_lower]
  · rfl

theorem normalizeForward_normalizeForward (hL : L.Lowers) (f : Forward) :
    normalizeForward L (normalizeForward L f) = normalizeForward L f := by
  simp only [normalizeForward, hL.lower_lower]

/-- Services that come from normal ones in any order are normal. -/
theorem normalizeServices_of_perm (hL : L.Lowers) {services services' : Services}
    (h : services'.entries.Perm (normalizeServices L services).entries) :
    normalizeServices L services' = services' := by
  apply AList.ext
  apply Text.map_eq_self
  intro e he
  obtain ⟨e', -, rfl⟩ := List.mem_map.mp (h.mem_iff.mp he)
  rw [normalizeService_normalizeService hL]

/-! ## The fixed point -/

namespace Config

variable {c c' : Config}

/-- What is left behind is not changed again. -/
theorem Reordered.normalize_eq (hL : L.Lowers) (h : (c.normalize L).Reordered c') :
    c'.normalize L = c' := by
  have hforwards : (c.normalize L).forwards.map (normalizeForward L) =
      (c.normalize L).forwards := by
    apply Text.map_eq_self
    intro f hf
    obtain ⟨f', -, rfl⟩ := List.mem_map.mp hf
    exact normalizeForward_normalizeForward hL f'
  calc c'.normalize L
      = { c.normalize L with services := normalizeServices L c'.services } := by
        rw [h.rest]
        simp only [normalize, validateTransport, validateL3, hL.lower_lower,
          normalizeTransport_normalizeTransport hL, normalizeL3_normalizeL3 hL] at hforwards ⊢
        rw [hforwards]
    _ = c' := by rw [normalizeServices_of_perm hL h.entries, ← h.rest]

theorem Reordered.valid_iff (h : c.Reordered c') : c'.Valid L ↔ c.Valid L := by
  have hmem : ∀ e, e ∈ c'.services.entries ↔ e ∈ c.services.entries := fun _ => h.mem_services
  rw [h.rest]
  constructor
  · intro hv
    exact ⟨hv.nodeID, hv.peerID, hv.differ, hv.role, hv.secretFile, hv.transport, hv.l3,
      fun e he => hv.services e ((hmem e).mpr he), hv.forwards, hv.distinct⟩
  · intro hv
    exact ⟨hv.nodeID, hv.peerID, hv.differ, hv.role, hv.secretFile, hv.transport, hv.l3,
      fun e he => hv.services e ((hmem e).mp he), hv.forwards, hv.distinct⟩

/-- The second verdict is the first one. -/
theorem Reordered.accepted_iff (hL : L.Lowers) (h : (c.normalize L).Reordered c') :
    c'.Accepted L ↔ c.Accepted L := by
  rw [Config.accepted_iff, Config.accepted_iff, h.normalize_eq hL]
  exact h.valid_iff

end Config

/-! ## Accepted normal forms -/

/-- A carrier that a mode uses. -/
def Carries (mode carrier : Bytes) : Prop :=
  (carrier = tcp ∧ NeedsTCP mode) ∨ (carrier = udp ∧ NeedsUDP mode)

/-- What every accepted configuration has after validation. -/
structure Config.Normal (L : Library) (c : Config) : Prop where
  mode : L.toLower c.transport.mode = c.transport.mode
  prefer : L.toLower c.transport.prefer = c.transport.prefer
  role : L.toLower c.role = c.role
  forwards : ∀ f ∈ c.forwards, L.toLower f.protocol = f.protocol
  services : ∀ e ∈ c.services.entries, L.toLower e.2.network = e.2.network
  carried : Carries c.transport.mode c.transport.prefer
  protocols : c.l3.enabled = true → ∀ p ∈ c.l3.allowProtocols, L.toLower p = p
  mtu : c.l3.enabled = true → 576 ≤ c.l3.mtu ∧ c.l3.mtu ≤ 1300
  allowed : c.l3.enabled = true → c.l3.allowProtocols ≠ [] ∧ c.l3.allowProtocols.Nodup

theorem Config.Normal.reordered {c c' : Config} (h : c.Normal L) (hr : c.Reordered c') :
    c'.Normal L := by
  have hmem : ∀ e, e ∈ c'.services.entries → e ∈ c.services.entries :=
    fun _ => hr.mem_services.mp
  rw [hr.rest]
  exact ⟨h.mode, h.prefer, h.role, h.forwards, fun e he => h.services e (hmem e he), h.carried,
    h.protocols, h.mtu, h.allowed⟩

theorem Config.TransportValid.carries {c : Config} (h : c.TransportValid) :
    Carries c.transport.mode c.transport.prefer := by
  rcases h.prefer with hprefer | hprefer
  · refine Or.inl ⟨hprefer, ?_⟩
    rcases h.agree with hboth | hagree
    · exact Or.inr hboth
    · exact Or.inl (hagree.symm.trans hprefer)
  · refine Or.inr ⟨hprefer, ?_⟩
    rcases h.agree with hboth | hagree
    · exact Or.inr hboth
    · exact Or.inl (hagree.symm.trans hprefer)

theorem Config.Accepted.normal (hL : L.Standard) {c : Config} (h : c.Accepted L) :
    (c.normalize L).Normal L := by
  have hvalid := Config.accepted_iff.mp h
  have htransport := (transportErrors_eq_nil hvalid.role).mp hvalid.transport
  constructor
  · exact toLower_mode hL htransport.mode
  · exact hL.toLower_protocol htransport.prefer
  · exact toLower_role hL hvalid.role
  · intro f hf
    exact hL.toLower_protocol (hvalid.forwards f hf).protocol
  · intro e he
    exact hL.toLower_protocol (hvalid.services e he).network
  · exact htransport.carries
  · intro henabled p hp
    exact hL.toLower_protocol ((hvalid.l3 henabled).protocols p hp)
  · intro henabled
    exact (hvalid.l3 henabled).mtu
  · intro henabled
    exact ⟨c.allowProtocols_normalize_ne_nil henabled, (hvalid.l3 henabled).distinct⟩

end UnknownTunnel.ConfigFile

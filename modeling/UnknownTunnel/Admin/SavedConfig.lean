import UnknownTunnel.Admin.SecretAtomicity
import UnknownTunnel.ConfigFile.FixedPoint

/-!
# Configurations that are saved and loaded

`Save` validates before it writes and `Load` validates what it has read. As
validation reaches a fixed point, the second one finds nothing to change, and
an accepted configuration comes back in its normal form.

## Implementation notes

Of `encoding/json` it is assumed that a configuration whose strings are valid
UTF-8 is read back from what was written, with its services in any order.
-/

namespace UnknownTunnel.Admin

open Foundation ConfigFile

/-- The strings of a configuration. -/
def strings (c : Config) : List Bytes :=
  [c.nodeID, c.peerID, c.role, c.auth.secretFile, c.transport.mode, c.transport.prefer,
    c.transport.listenTCP, c.transport.listenUDP, c.transport.connectTCP, c.transport.connectUDP,
    c.l3.interface, c.l3.address] ++
    (c.l3.routes ++ (c.l3.allowProtocols ++
      (c.services.entries.flatMap (fun e => [e.1, e.2.network, e.2.address]) ++
        c.forwards.flatMap fun f => [f.name, f.protocol, f.listen, f.service])))

/-- What `encoding/json` writes and reads without a change. -/
def ValidUTF8 (s : Bytes) : Prop := ByteArray.IsValidUTF8 ⟨s.toArray⟩

instance (s : Bytes) : Decidable (ValidUTF8 s) :=
  inferInstanceAs (Decidable (ByteArray.IsValidUTF8 ⟨s.toArray⟩))

/-- All strings of a configuration are valid. -/
def Textual (c : Config) : Prop := ∀ s ∈ strings c, ValidUTF8 s

instance (c : Config) : Decidable (Textual c) :=
  inferInstanceAs (Decidable (∀ s ∈ strings c, ValidUTF8 s))

/-- A configuration with valid strings is read back from its encoding. -/
def RoundTrips (sys : System) (c : Config) : Prop :=
  Textual c → ∃ c', sys.decode (sys.encode c ++ [10]) = some c' ∧ c.Reordered c'

/-! ## Valid strings -/

theorem validUTF8_protocol {p : Bytes} (h : p = tcp ∨ p = udp) : ValidUTF8 p := by
  rcases h with rfl | rfl
  · exact "tcp".isValidUTF8
  · exact "udp".isValidUTF8

/-- Lower-casing the strings of a configuration keeps them valid. -/
def LowersValid (L : Library) (c : Config) : Prop :=
  ∀ s ∈ strings c, ValidUTF8 s → ValidUTF8 (L.toLower s)

instance (L : Library) (c : Config) : Decidable (LowersValid L c) :=
  inferInstanceAs (Decidable (∀ s ∈ strings c, ValidUTF8 s → ValidUTF8 (L.toLower s)))

theorem validUTF8_prefer {L : Library} {t : TransportConfig}
    (hmode : ValidUTF8 (L.toLower t.mode)) (hprefer : ValidUTF8 (L.toLower t.prefer)) :
    ValidUTF8 (normalizeTransport L t).prefer := by
  simp only [normalizeTransport]
  split
  · split
    · exact validUTF8_protocol (Or.inr rfl)
    · exact hmode
  · exact hprefer

theorem validUTF8_normalizeL3 {L : Library} (hL : L.Standard) {l3 : L3Config}
    (h : ∀ p ∈ l3.allowProtocols, ValidUTF8 p)
    (hlower : ∀ p ∈ l3.allowProtocols, ValidUTF8 (L.toLower p)) :
    ∀ p ∈ (normalizeL3 L l3).allowProtocols, ValidUTF8 p := by
  unfold normalizeL3
  split
  · intro p hp
    obtain ⟨q, hq, rfl⟩ := List.mem_map.mp hp
    split at hq
    · have hprotocol : q = tcp ∨ q = udp := List.mem_pair.mp hq
      rw [hL.toLower_protocol hprotocol]
      exact validUTF8_protocol hprotocol
    · exact hlower q hq
  · exact h

theorem validUTF8_normalizeService {L : Library} {name : Bytes} {s : Service}
    (h : ValidUTF8 s.network) (hlower : ValidUTF8 (L.toLower s.network)) :
    ValidUTF8 (normalizeService L name s).network := by
  unfold normalizeService
  split
  · exact hlower
  · exact h

/-- Validation leaves valid strings behind. -/
theorem textual_normalize {L : Library} (hL : L.Standard) {c : Config} (hlower : LowersValid L c)
    (h : Textual c) : Textual (c.normalize L) := by
  have hvalid : ∀ s ∈ strings c, ValidUTF8 s ∧ ValidUTF8 (L.toLower s) :=
    fun s hs => ⟨h s hs, hlower s hs (h s hs)⟩
  simp only [strings, List.forall_mem_append, List.forall_mem_cons, List.not_mem_nil,
    false_imp_iff, implies_true, and_true, List.forall_mem_flatMap] at hvalid
  obtain ⟨⟨hnode, hpeer, hrole, hsecret, hmode, hprefer, hlt, hlu, hct, hcu, hinterface,
    haddress⟩, hroutes, hprotocols, hservices, hforwards⟩ := hvalid
  have hl3 : (normalizeL3 L c.l3).interface = c.l3.interface ∧
      (normalizeL3 L c.l3).address = c.l3.address ∧
        (normalizeL3 L c.l3).routes = c.l3.routes := by
    unfold normalizeL3
    split <;> exact ⟨rfl, rfl, rfl⟩
  simp only [Textual, strings, List.forall_mem_append, List.forall_mem_cons, List.not_mem_nil,
    false_imp_iff, implies_true, and_true, List.forall_mem_flatMap]
  refine ⟨⟨hnode.1, hpeer.1, hrole.2, hsecret.1, hmode.2, validUTF8_prefer hmode.2 hprefer.2,
    hlt.1, hlu.1, hct.1, hcu.1, ?_, ?_⟩, ?_, ?_, ?_, ?_⟩
  · exact hl3.1.symm ▸ hinterface.1
  · exact hl3.2.1.symm ▸ haddress.1
  · exact hl3.2.2.symm ▸ fun r hr => (hroutes r hr).1
  · exact validUTF8_normalizeL3 hL (fun p hp => (hprotocols p hp).1)
      fun p hp => (hprotocols p hp).2
  · intro e he
    obtain ⟨e', he', rfl⟩ := List.mem_map.mp he
    obtain ⟨hname, hnetwork, haddress⟩ := hservices e' he'
    refine ⟨hname.1, validUTF8_normalizeService hnetwork.1 hnetwork.2, ?_⟩
    simp only [normalizeService]
    split <;> exact haddress.1
  · intro f hf
    obtain ⟨f', hf', rfl⟩ := List.mem_map.mp hf
    obtain ⟨hname, hprotocol, hlisten, hservice⟩ := hforwards f' hf'
    exact ⟨hname.1, hprotocol.2, hlisten.1, hservice.1⟩

/-! ## Saving and loading -/

theorem save_of_io {sys : System} {c : Config} (h : c.Accepted sys.lib)
    (hio : ∀ op, sys.saveIO op = true) (path : Bytes) (host : Host) :
    save sys path c host = .ok () (host.replaced true (locate sys path)
      (sys.encode (c.normalize sys.lib) ++ [10])) := by
  rw [save_of_accepted h, replaceFile_of_renames fun op _ => hio op, if_pos (hio .chmod)]

theorem load_of_content {sys : System} {path data : Bytes} {files : Table Bytes Bytes} {c : Config}
    (hread : sys.unreadable (locate sys path) = false)
    (hdata : Finmap.lookup (locate sys path) files = some data)
    (hdecode : sys.decode data = some c) (h : c.Accepted sys.lib) :
    load sys path files = .ok (c.normalize sys.lib) := by
  have hfile : readFile sys path files = some data := by
    rw [readFile, hread, if_neg Bool.false_ne_true, hdata]
  exact load_eq_ok_iff.mpr ⟨data, c, hfile, hdecode, h, rfl⟩

/-- An accepted configuration is loaded as the decoder reads it after a save. -/
theorem load_of_saved {sys : System} (hL : sys.lib.Lowers) {c c' : Config}
    (h : c.Accepted sys.lib) (hr : (c.normalize sys.lib).Reordered c')
    (hdecode : sys.decode (sys.encode (c.normalize sys.lib) ++ [10]) = some c')
    (hio : ∀ op, sys.saveIO op = true) {path : Bytes}
    (hread : sys.unreadable (locate sys path) = false) (host : Host) :
    ∃ host', save sys path c host = .ok () host' ∧ load sys path host'.files = .ok c' := by
  have haccepted : c'.Accepted sys.lib := (hr.accepted_iff hL).mpr h
  refine ⟨_, save_of_io h hio path host, ?_⟩
  calc load sys path _
      = .ok (c'.normalize sys.lib) :=
        load_of_content hread (Finmap.lookup_insert _) hdecode haccepted
    _ = .ok c' := by rw [hr.normalize_eq hL]

/-- Validating twice is validating once, and an accepted configuration is loaded
in normal form after it has been saved. -/
theorem validation_fixed_and_saved (sys : System) (hL : sys.lib.Lowers) (c : Config) :
    (∀ c', (c.validate sys.lib).2.Reordered c' →
      ((c'.validate sys.lib).1 = [] ↔ (c.validate sys.lib).1 = []) ∧
        (c'.validate sys.lib).2 = c') ∧
    (c.Accepted sys.lib → Textual c → LowersValid sys.lib c →
      RoundTrips sys (c.validate sys.lib).2 → (∀ op, sys.saveIO op = true) →
      ∀ path, sys.unreadable (locate sys path) = false →
      ∀ h, ∃ h' c', save sys path c h = .ok () h' ∧ load sys path h'.files = .ok c' ∧
        (c.validate sys.lib).2.Reordered c' ∧ c'.Normal sys.lib) := by
  constructor
  · intro c' hr
    exact ⟨hr.accepted_iff hL, hr.normalize_eq hL⟩
  · intro haccepted htext hlower hjson hio path hread h
    obtain ⟨c', hdecode, hr⟩ := hjson (textual_normalize hL.toStandard hlower htext)
    obtain ⟨h', hsave, hload⟩ := load_of_saved hL haccepted hr hdecode hio hread h
    exact ⟨h', c', hsave, hload, hr, (haccepted.normal hL.toStandard).reordered hr⟩

theorem validation_fixed_and_saved_small :
    ∃ h' c', save sampleSystem (ofString "/a.json") sampleConfig ⟨[], ∅, false⟩ =
        .ok () h' ∧
      load sampleSystem (ofString "/a.json") h'.files = .ok c' ∧
      (sampleConfig.validate sampleLibrary).2.Reordered c' ∧ c'.Normal sampleLibrary := by
  refine (validation_fixed_and_saved sampleSystem sampleLibrary_lowers sampleConfig).2
    (by decide +kernel) (by decide +kernel) (by decide +kernel) ?_ (fun _ => rfl) _ rfl _
  intro _
  exact ⟨_, sampleSystem_decode _, Config.Reordered.refl _⟩

/-- With Layer 3 disabled the allowed protocols stay as they are written. -/
def idleConfig : Config :=
  { sampleConfig with l3 := { sampleConfig.l3 with allowProtocols := [ofString "TCP"] } }

theorem idle_protocols_not_lowered :
    idleConfig.Accepted sampleLibrary ∧ Textual idleConfig ∧
      ∃ h' c', save sampleSystem (ofString "/a.json") idleConfig ⟨[], ∅, false⟩ =
          .ok () h' ∧
        load sampleSystem (ofString "/a.json") h'.files = .ok c' ∧
        ∃ p ∈ c'.l3.allowProtocols, sampleLibrary.toLower p ≠ p := by
  have haccepted : idleConfig.Accepted sampleLibrary := by decide +kernel
  obtain ⟨h', hsave, hload⟩ := @load_of_saved sampleSystem
    sampleLibrary_lowers _ _ haccepted (Config.Reordered.refl _) (sampleSystem_decode _)
    (fun _ => rfl) _ rfl _
  refine ⟨haccepted, by decide +kernel, h', _, hsave, hload, ofString "TCP", ?_, ?_⟩
  · decide +kernel
  · decide +kernel

end UnknownTunnel.Admin

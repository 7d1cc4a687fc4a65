import UnknownTunnel.ConfigFile.Validate
import UnknownTunnel.Foundation.Codec

/-!
# An encoding of configurations

What is proved about the files of the program holds for every encoding that
reads back what it writes. This is such an encoding, written out so that the
program can be run on files: it keeps every part of a configuration, in the order
of the source's fields.
-/

namespace UnknownTunnel.ConfigFile

open Foundation

/-- The section on the secret. -/
def authCodec : Codec AuthConfig :=
  Codec.bytes.via AuthConfig.secretFile (fun s => some ⟨s⟩) fun _ => rfl

/-- The section on the carriers. -/
def transportCodec : Codec TransportConfig :=
  ((Codec.bytes.pair Codec.bytes).pair
    ((Codec.bytes.pair Codec.bytes).pair (Codec.bytes.pair Codec.bytes))).via
    (fun t => ((t.mode, t.prefer), (t.listenTCP, t.listenUDP), t.connectTCP, t.connectUDP))
    (fun p => some ⟨p.1.1, p.1.2, p.2.1.1, p.2.1.2, p.2.2.1, p.2.2.2⟩) fun _ => rfl

/-- The section on Layer 3. -/
def l3Codec : Codec L3Config :=
  ((Codec.bool.pair (Codec.bytes.pair Codec.bytes)).pair
    (Codec.int.pair (Codec.bytes.list.pair Codec.bytes.list))).via
    (fun l3 => ((l3.enabled, l3.interface, l3.address), l3.mtu, l3.routes, l3.allowProtocols))
    (fun p => some ⟨p.1.1, p.1.2.1, p.1.2.2, p.2.1, p.2.2.1, p.2.2.2⟩) fun _ => rfl

def forwardCodec : Codec Forward :=
  ((Codec.bytes.pair Codec.bytes).pair (Codec.bytes.pair Codec.bytes)).via
    (fun f => ((f.name, f.protocol), f.listen, f.service))
    (fun p => some ⟨p.1.1, p.1.2, p.2.1, p.2.2⟩) fun _ => rfl

/-- The entry of a service with its name. -/
def entryCodec : Codec (Sigma fun _ : Bytes => Service) :=
  (Codec.bytes.pair (Codec.bytes.pair Codec.bytes)).via
    (fun e => (e.1, e.2.network, e.2.address)) (fun p => some ⟨p.1, p.2.1, p.2.2⟩) fun _ => rfl

/-- Services whose names are not distinct are refused. -/
def servicesCodec : Codec Services :=
  entryCodec.list.via AList.entries
    (fun entries => if h : entries.keys.Nodup then some ⟨entries, h⟩ else none)
    fun services => dif_pos services.nodupKeys

/-- A configuration, section by section. -/
def configCodec : Codec Config :=
  (((Codec.bytes.pair Codec.bytes).pair (Codec.bytes.pair authCodec)).pair
    ((transportCodec.pair l3Codec).pair (servicesCodec.pair forwardCodec.list))).via
    (fun c => (((c.nodeID, c.peerID), c.role, c.auth), (c.transport, c.l3), c.services, c.forwards))
    (fun p => some ⟨p.1.1.1, p.1.1.2, p.1.2.1, p.1.2.2, p.2.1.1, p.2.1.2, p.2.2.1, p.2.2.2⟩)
    fun _ => rfl

end UnknownTunnel.ConfigFile

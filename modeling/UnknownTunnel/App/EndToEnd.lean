import UnknownTunnel.App.TunnelProgress
import UnknownTunnel.Transport.Carriers

/-!
# What comes out of the tunnel

Whatever the carriers, the manager and an attacker on the network do, the
receiver handles only messages that the sender has passed to `send`, each of
them once within the duplicate window. So what is written to a connection is a
beginning of what was read from the connection at the other end, and every
packet written to the TUN device was read from the peer's. When the network
delivers, nothing is missing.
-/

namespace UnknownTunnel.App

open Foundation ConfigFile Protocol Transport

/-- Two nodes and the links of either carrier between them. The receiver is on
the side `X` of every link. -/
def deployment (C : Crypto) (X : Side) (sender receiver : Config) :
    Deployment (Link ⊕ TcpLink) ((Side × UdpEvent) ⊕ (Side × TcpEvent)) where
  channel := carrierChannel C X
  kind := Sum.elim (fun _ => .udp) fun _ => .tcp
  sender := sender
  receiver := receiver

/-! ## A sample run -/

/-- Every message that the program builds fits either carrier. -/
theorem carries_encoded {L : Library} {c : Config} (hc : c.Accepted L) (site : SendSite)
    (m : Message) (id : UInt64) (hsite : site.Possible (c.normalize L))
    (hm : m ∈ site.messages (c.normalize L)) :
    ∃ raw, encode { m with id } = .ok raw ∧ Carries raw := by
  obtain ⟨raw, henc, hlen⟩ := ((small_of_possible hc hsite hm).with_id id).encode
  refine ⟨raw, henc, ?_, hlen⟩
  obtain ⟨-, hraw⟩ := encode_eq_ok_iff.mp henc
  rw [hraw]
  simp only [List.length_append, length_messageHeader]
  omega

/-- A direct run that a link of the given carrier can carry is a run of the
tunnel over one such link. -/
theorem exists_tunnel (C : Crypto) (X : Side) {L : Library} {c : Config} (hc : c.Accepted L)
    (receiver : Config) (kind : Carrier) {seed : UInt64} {D : Direct}
    (run : (directMachine (c.normalize L) receiver seed).Reachable D)
    (hlimit : D.sender.sent.length < carrierLimit kind)
    (hseed : seed.toNat + D.sender.sent.length < 2 ^ 64) :
    ∃ T, (tunnelMachine (deployment C X (c.normalize L) receiver) seed).Reachable T ∧
      T.sender = D.sender ∧ T.receiver = D.receiver ∧
      ∃ s, T.links = [s] ∧ (deployment C X (c.normalize L) receiver).kind s = kind := by
  have hinit : (carrierChannel C X).init (newLink sampleKeys 7 kind) := by
    cases kind with
    | udp => exact ⟨sampleKeys, 7, by decide, by decide, by decide, rfl⟩
    | tcp => exact ⟨sampleKeys, by decide, rfl⟩
  have hready : CarrierReady X kind (carrierLimit kind - 1 + 1) (newLink sampleKeys 7 kind) := by
    rw [Nat.sub_add_cancel (by omega)]
    exact carrierReady_newLink X sampleKeys (by decide) kind
  obtain ⟨T, runT, hsender, hreceiver, -, s, -, -, -, -, -, hlinks, hs, -⟩ :=
    exists_tunnel_of_direct (N := deployment C X (c.normalize L) receiver)
      (carrierChannel_lawful C X) (carrierChannel_conveys C X kind) hinit hready
      ⟨by decide, by decide⟩ (carries_encoded hc) run (by omega) hseed
  refine ⟨T, runT, hsender, hreceiver, s, hlinks, ?_⟩
  cases kind with
  | udp => cases s with
    | inl L => rfl
    | inr L => cases hs
  | tcp => cases s with
    | inl L => cases hs
    | inr L => rfl

def bridgeLibrary : Library := ⟨List.map Text.lowerByte, fun _ => true⟩

/-- A node that passes UDP packets between its device and the peer's. -/
def bridgeConfig : Config :=
  { sampleConfig with
    l3 :=
      { enabled := true, interface := ofString "unk0", address := ofString "10.8.0.1/30", mtu := 0
        routes := [], allowProtocols := [udp] } }

theorem bridgeConfig_accepted : bridgeConfig.Accepted bridgeLibrary := by decide +kernel

/-- The header of a UDP packet. -/
def bridgePacket : Bytes := [69, 0, 0, 20, 0, 0, 0, 0, 64, 17, 0, 0, 10, 8, 0, 1, 10, 8, 0, 2]

/-- A connection is registered, two bytes are read from its other end, and
then a packet from the device. -/
def bridgeTurns : List Turn :=
  [.receiver (.register 5),
    .message
      ⟨.pumpTCP 5 1 [104, 105],
        { SendSite.message typeTCPData with connID := 5, seq := 1, payload := [104, 105] }⟩
      fun _ => [⟨2, false⟩],
    .message
      ⟨.tunReadLoop bridgePacket, { SendSite.message typeIPPacket with payload := bridgePacket }⟩
      fun _ => []]

def bridgeNode : Config := bridgeConfig.normalize bridgeLibrary

def bridgeRun : Direct := bridgeTurns.foldl (Direct.apply bridgeNode) (Direct.start 1)

theorem bridgeRun_reachable : (directMachine bridgeNode bridgeNode 1).Reachable bridgeRun := by
  have start : (directMachine bridgeNode bridgeNode 1).Reachable (Direct.start 1) := .start rfl
  refine start.run bridgeTurns ⟨trivial, trivial, ⟨?_, ?_, ?_⟩, trivial, ⟨?_, ?_, trivial⟩, trivial,
    trivial⟩
  · show 2 ≤ tcpChunkSize
    decide
  · decide +kernel
  · exact ⟨rfl, by decide⟩
  · show bridgeNode.l3.enabled = true ∧ (bridgePacket.length : Int) ≤ bridgeNode.l3.mtu
    decide +kernel
  · decide +kernel

theorem bridgeRun_streams : bridgeRun.receiver.streams = [⟨5, ⟨2, ∅, [104, 105]⟩⟩] := rfl

theorem bridgeRun_tunWritten : bridgeRun.receiver.tunWritten = [bridgePacket] := rfl

/-- The run goes through the tunnel, over a link of either carrier. -/
theorem exists_bridge (kind : Carrier) :
    ∃ T, (tunnelMachine (deployment Crypto.sum .server bridgeNode bridgeNode) 1).Reachable T ∧
      T.sender = bridgeRun.sender ∧ T.receiver = bridgeRun.receiver := by
  have hlimit : 2 < carrierLimit kind := by cases kind <;> decide
  obtain ⟨T, run, hsender, hreceiver, -⟩ := exists_tunnel Crypto.sum .server bridgeConfig_accepted
    bridgeNode kind bridgeRun_reachable hlimit (show 1 + 2 < 2 ^ 64 by decide)
  exact ⟨T, run, hsender, hreceiver⟩

/-! ## Messages -/

variable {C : Crypto} {X : Side} {sender receiver : Config} {seed : UInt64}
  {T : Tunnel (Link ⊕ TcpLink)}

theorem tunnelOk (run : (tunnelMachine (deployment C X sender receiver) seed).Reachable T) :
    TunnelOk (deployment C X sender receiver) seed T :=
  tunnelOk_of_reachable (carrierChannel_lawful C X) run

/-- What was handled was handed out and decoded, so it was sent. -/
theorem handled_subset_sent
    (run : (tunnelMachine (deployment C X sender receiver) seed).Reachable T) :
    T.receiver.app.handled ⊆ T.sender.sent := by
  have h := tunnelOk run
  intro m hm
  rw [h.receiver.app] at hm
  obtain ⟨raw, hraw, hdec⟩ := handled_decoded _ m hm
  obtain ⟨tagged, htagged, rfl⟩ := List.mem_map.mp hraw
  exact (h.authentic tagged (List.mem_append_left _ htagged)).mem_sent hdec

theorem handled_spaced
    (run : (tunnelMachine (deployment C X sender receiver) seed).Reachable T) {i j : Nat}
    {m m' : Message} (hij : i < j) (hi : T.receiver.app.handled[i]? = some m)
    (hj : T.receiver.app.handled[j]? = some m') (hid : m.id = m'.id) : i + dedupeWindow < j := by
  rw [(tunnelOk run).receiver.app] at hi hj
  exact handled_apart _ hij hi hj hid

/-- As long as the window has not slid, no message is handled twice. -/
theorem handled_subperm
    (run : (tunnelMachine (deployment C X sender receiver) seed).Reachable T)
    (hlen : T.receiver.app.handled.length ≤ dedupeWindow + 1) :
    T.receiver.app.handled.Subperm T.sender.sent := by
  apply List.Nodup.subperm _ (handled_subset_sent run)
  rw [List.nodup_iff_getElem?_ne_getElem?]
  intro i j hij hj heq
  have hplace := List.getElem?_eq_getElem hj
  have hfar := handled_spaced run hij (heq.trans hplace) hplace rfl
  omega

/-- In every run, over any number of links of either carrier and against an
attacker that cannot forge, each handled message was built at one of the places
that call `send` and passed to it, messages with one ID are handled only with
the whole duplicate window between them, and before the window slides no
message is handled more often than it was sent. What the manager forwards of a
session is a beginning of what its link was given after the confirmation. -/
theorem tunnel_handles_only_sent (C : Crypto) (X : Side) (sender receiver : Config)
    (seed : UInt64) (T : Tunnel (Link ⊕ TcpLink))
    (run : (tunnelMachine (deployment C X sender receiver) seed).Reachable T) :
    (∀ m ∈ T.receiver.app.handled, m ∈ T.sender.sent ∧ ∃ site : SendSite, site.Possible sender ∧
      ∃ m₀ ∈ site.messages sender, m = { m₀ with id := m.id }) ∧
    (∀ i j m m', i < j → T.receiver.app.handled[i]? = some m →
      T.receiver.app.handled[j]? = some m' → m.id = m'.id → i + dedupeWindow < j) ∧
    (T.receiver.app.handled.length ≤ dedupeWindow + 1 →
      T.receiver.app.handled.Subperm T.sender.sent) ∧
    (∀ i k, T.attached[i]? = some k → ∃ s, T.links[k]? = some s ∧
      T.manager.forwarded i <+: ((carrierChannel C X).sent s).drop 1) := by
  have h := tunnelOk run
  refine ⟨?_, ?_, handled_subperm run, fun i k hk => h.forwarded hk⟩
  · intro m hm
    have hsent := handled_subset_sent run hm
    exact ⟨hsent, h.sender.sites m hsent⟩
  · intro i j m m' hij hi hj hid
    exact handled_spaced run hij hi hj hid

theorem tunnel_handles_only_sent_bridge :
    ∃ T, (tunnelMachine (deployment Crypto.sum .server bridgeNode bridgeNode) 1).Reachable T ∧
      T.receiver.app.handled = bridgeRun.sender.sent ∧ T.sender.sent.length = 2 ∧
      T.receiver.app.handled.Subperm T.sender.sent := by
  obtain ⟨T, run, hsender, hreceiver⟩ := exists_bridge .udp
  have hhandled : T.receiver.app.handled = bridgeRun.sender.sent := by
    rw [hreceiver]
    exact (directOk_of_reachable bridgeRun_reachable).handled
  refine ⟨T, run, hhandled, by rw [hsender]; rfl, ?_⟩
  apply (tunnel_handles_only_sent Crypto.sum .server bridgeNode bridgeNode 1 T run).2.2.1
  rw [hhandled]
  show 2 ≤ dedupeWindow + 1
  decide

/-! ## Connections and the device -/

/-- In every run, what was written to a connection of the receiver is a
beginning of what was read from the connection with its ID at the sender, and
at most `maxTCPReorder` chunks wait. -/
theorem tunnel_streams_in_order (C : Crypto) (X : Side) (sender receiver : Config)
    (seed : UInt64) (T : Tunnel (Link ⊕ TcpLink))
    (run : (tunnelMachine (deployment C X sender receiver) seed).Reachable T) :
    ∀ stream ∈ T.receiver.streams,
      stream.state.written <+: (T.sender.pumped stream.connID).flatten ∧
        stream.state.reorder.size ≤ maxTCPReorder := by
  intro stream hstream
  obtain ⟨j, hj⟩ := List.getElem?_of_mem hstream
  exact ((tunnelOk run).receiver.streams j stream hj).written

theorem tunnel_streams_in_order_bridge :
    ∃ T, (tunnelMachine (deployment Crypto.sum .server bridgeNode bridgeNode) 1).Reachable T ∧
      T.receiver.streams = [⟨5, ⟨2, ∅, [104, 105]⟩⟩] ∧
      [104, 105] <+: (T.sender.pumped 5).flatten := by
  obtain ⟨T, run, -, hreceiver⟩ := exists_bridge .tcp
  have hstreams : T.receiver.streams = [⟨5, ⟨2, ∅, [104, 105]⟩⟩] := by
    rw [hreceiver, bridgeRun_streams]
  refine ⟨T, run, hstreams, ?_⟩
  exact (tunnel_streams_in_order Crypto.sum .server bridgeNode bridgeNode 1 T run
    ⟨5, ⟨2, ∅, [104, 105]⟩⟩ (by rw [hstreams]; exact List.mem_singleton_self _)).1

/-- In every run, each packet that is written to the device of the receiver
was read from the device of the sender and passes the filters of both; before
the duplicate window slides, none is written more often than it was read. -/
theorem tunnel_packets_filtered (C : Crypto) (X : Side) (sender receiver : Config)
    (seed : UInt64) (T : Tunnel (Link ⊕ TcpLink))
    (run : (tunnelMachine (deployment C X sender receiver) seed).Reachable T) :
    (∀ packet ∈ T.receiver.tunWritten, packet ∈ T.sender.tunRead ∧
      (sender.l3.enabled = true ∧
        Tun.packetAllowed packet sender.l3.allowProtocols = some true) ∧
      (receiver.l3.enabled = true ∧
        Tun.packetAllowed packet receiver.l3.allowProtocols = some true)) ∧
    (T.receiver.app.handled.length ≤ dedupeWindow + 1 →
      T.receiver.tunWritten.Subperm T.sender.tunRead) := by
  have h := tunnelOk run
  constructor
  · intro packet hp
    obtain ⟨m, hm, rfl⟩ := List.mem_map.mp (h.receiver.written.subset hp)
    obtain ⟨hhandled, htype⟩ := List.mem_filter.mp hm
    have hread : m.payload ∈ T.sender.tunRead := by
      rw [← h.sender.packets]
      exact List.mem_map.mpr
        ⟨m, List.mem_filter.mpr ⟨handled_subset_sent run hhandled, htype⟩, rfl⟩
    exact ⟨hread, h.sender.allowed _ hread, h.receiver.allowed _ hp⟩
  · intro hlen
    obtain ⟨part, hperm, hpart⟩ := (handled_subperm run hlen).filter fun m => m.type = typeIPPacket
    rw [← h.sender.packets]
    exact h.receiver.written.subperm.trans
      ⟨part.map Message.payload, hperm.map _, hpart.map _⟩

theorem tunnel_packets_filtered_bridge :
    ∃ T, (tunnelMachine (deployment Crypto.sum .server bridgeNode bridgeNode) 1).Reachable T ∧
      T.receiver.tunWritten = [bridgePacket] ∧ bridgePacket ∈ T.sender.tunRead := by
  obtain ⟨T, run, -, hreceiver⟩ := exists_bridge .udp
  have hwritten : T.receiver.tunWritten = [bridgePacket] := by
    rw [hreceiver, bridgeRun_tunWritten]
  refine ⟨T, run, hwritten, ?_⟩
  exact ((tunnel_packets_filtered Crypto.sum .server bridgeNode bridgeNode 1 T run).1
    bridgePacket (by rw [hwritten]; exact List.mem_singleton_self _)).1

/-! ## A network that delivers -/

/-- Every run of two applications with nothing between them is also a run of
the tunnel over one link of either carrier, up to the messages that a new link
can carry before its counter or its slots end and before the counter of message
IDs wraps to zero. In such a run every message is
handled, an open device has all packets that pass its filter, and a connection
that has got a chunk has everything read at the other end. -/
theorem tunnel_transparent (C : Crypto) (X : Side) (L : Library) (c receiver : Config)
    (hc : c.Accepted L) (seed : UInt64) (D : Direct)
    (run : (directMachine (c.normalize L) receiver seed).Reachable D)
    (hseed : seed.toNat + D.sender.sent.length < 2 ^ 64) :
    (∀ kind, D.sender.sent.length < carrierLimit kind →
      ∃ T, (tunnelMachine (deployment C X (c.normalize L) receiver) seed).Reachable T ∧
        T.sender = D.sender ∧ T.receiver = D.receiver ∧
        ∃ s, T.links = [s] ∧ (deployment C X (c.normalize L) receiver).kind s = kind) ∧
    D.receiver.app.handled = D.sender.sent ∧
    (D.receiver.tunOpen = true →
      D.receiver.tunWritten = deliverable receiver D.sender.tunRead) ∧
    (∀ connID j stream, Finmap.lookup connID D.receiver.tcpConns = some j →
      D.receiver.streams[j]? = some stream → 1 < stream.state.expected →
      stream.state.written = (D.sender.pumped connID).flatten) := by
  have h := directOk_of_reachable run
  refine ⟨fun kind hlimit => exists_tunnel C X hc receiver kind run hlimit hseed, h.handled,
    h.device, ?_⟩
  intro connID j stream hl hs hgot
  obtain ⟨stream', hs', -, hstep⟩ := h.conns connID j hl
  obtain rfl := Option.some.inj (hs.symm.trans hs')
  obtain hsame | ⟨hwaits, -⟩ := hstep
  · rw [hsame]
  · omega

theorem tunnel_transparent_bridge :
    bridgeRun.receiver.tunWritten = deliverable bridgeNode bridgeRun.sender.tunRead ∧
    ∃ T, (tunnelMachine (deployment Crypto.sum .server bridgeNode bridgeNode) 1).Reachable T ∧
      T.receiver = bridgeRun.receiver ∧ T.links.length = 1 := by
  obtain ⟨hrun, -, hdevice, -⟩ := tunnel_transparent Crypto.sum .server bridgeLibrary bridgeConfig
    bridgeNode bridgeConfig_accepted 1 bridgeRun bridgeRun_reachable
    (show 1 + 2 < 2 ^ 64 by decide)
  obtain ⟨T, run, -, hreceiver, s, hlinks, -⟩ := hrun .udp (show 2 < maxUDPPending by decide)
  exact ⟨hdevice rfl, T, run, hreceiver, by rw [hlinks]; rfl⟩

end UnknownTunnel.App

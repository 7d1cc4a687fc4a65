import UnknownTunnel.App.TunnelInvariant

/-!
# Two applications with a direct connection

Without carriers between them, the receiver would handle each message when it
is sent. Then every message is handled, every packet that passes both filters
is written to the device, and a connection that was registered before its
first chunk and still is has everything that was read at the other end.
-/

namespace UnknownTunnel.App

open Foundation ConfigFile Protocol Transport

/-- A message of the sender, with what a connection of the receiver answers,
or a step of the receiver's other goroutines. -/
inductive Turn
  | message (e : SenderEvent) (writes : Nat → List ConnWrite)
  | receiver (e : ReceiverEvent)

/-- The two applications with nothing between them. -/
structure Direct where
  sender : Sender
  receiver : Receiver

/-- The receiver takes a message that is no duplicate. -/
def Receiver.take (cfg : Config) (writes : Nat → List ConnWrite) (R : Receiver) (m : Message) :
    Receiver :=
  ({ R with app := ⟨(isDuplicate R.app.seen m.id).1, R.app.handled ++ [m]⟩ }).handleMessage cfg
    writes m

namespace Direct

def start (seed : UInt64) : Direct := ⟨Sender.start seed, Receiver.start⟩

def enabled (cfg : Config) (D : Direct) : Turn → Prop
  | .message e _ => D.sender.enabled cfg e
  | .receiver _ => True

def apply (cfg : Config) (D : Direct) : Turn → Direct
  | .message e writes =>
      ⟨D.sender.apply e,
        D.receiver.take cfg writes { e.message with id := sendID D.sender.msgID }⟩
  | .receiver e => ⟨D.sender, D.receiver.apply e⟩

end Direct

/-- Two applications where each message is handled when it is sent. -/
def directMachine (sender receiver : Config) (seed : UInt64) : Machine Direct Turn where
  init := fun D => D = Direct.start seed
  enabled := Direct.enabled sender
  apply := Direct.apply receiver

theorem handled_handleMessage (cfg : Config) (writes : Nat → List ConnWrite) (R : Receiver)
    (m : Message) : (R.handleMessage cfg writes m).app = R.app := by
  rw [Receiver.handleMessage]
  split
  · rw [Receiver.handleIPPacket]
    split <;> rfl
  · split
    · rw [Receiver.handleTCPData]
      split
      · rfl
      · split
        · rfl
        · simp only
          split <;> rfl
    · split <;> rfl

/-! ## Connections -/

/-- A connection has every chunk, or it was registered after the first one was
lost and waits for it. -/
def InStep (chunks : List Bytes) (s : TcpState) : Prop :=
  s = ⟨chunks.length + 1, ∅, chunks.flatten⟩ ∨ (s.expected = 1 ∧ chunks ≠ [])

theorem inStep_new (chunks : List Bytes) : InStep chunks newTCPState := by
  cases chunks with
  | nil => exact Or.inl rfl
  | cons chunk rest => exact Or.inr ⟨rfl, List.cons_ne_nil _ _⟩

/-- The next chunk is written at once, unless the connection waits for the
first one. -/
theorem InStep.writeOrdered {chunks : List Bytes} {s : TcpState} (h : InStep chunks s)
    (hlen : chunks.length + 2 < 2 ^ 64) (writes : Nat → List ConnWrite) (payload : Bytes)
    (hok : (s.writeOrdered writes (chunks.length + 1) payload).2 = none) :
    InStep (chunks ++ [payload]) (s.writeOrdered writes (chunks.length + 1) payload).1 := by
  obtain rfl | ⟨hexpected, hne⟩ := h
  · left
    have hwindow :
        ¬ maxTCPReorder < (chunks.length + 1 + 2 ^ 64 - (chunks.length + 1)) % 2 ^ 64 := by
      have hsub : (chunks.length + 1 + 2 ^ 64 - (chunks.length + 1)) % 2 ^ 64 = 0 := by omega
      rw [hsub]
      exact Nat.not_lt_zero _
    have hmod : (chunks.length + 1 + 1) % 2 ^ 64 = chunks.length + 2 := Nat.mod_eq_of_lt hlen
    have hsize : (∅ : Table Nat Bytes).size = 0 := rfl
    simp only [TcpState.writeOrdered, lt_irrefl, if_false, hwindow, hmod, hsize] at hok ⊢
    split at hok
    · rename_i hwritten
      rw [if_pos hwritten, TcpState.writeWaiting, writeConnAll_complete _ _ hwritten]
      simp
    · cases hok
  · right
    refine ⟨?_, List.append_ne_nil_of_left_ne_nil hne _⟩
    have hpos : 0 < chunks.length := List.length_pos_of_ne_nil hne
    simp only [TcpState.writeOrdered, hexpected] at hok ⊢
    rw [if_neg (by omega)] at hok ⊢
    split at hok
    · cases hok
    · rename_i hwindow
      rw [if_neg hwindow, if_pos (by omega)]
      simp only
      split
      · exact hexpected
      · rfl

/-! ## Direct runs -/

/-- The packets that a receiver with an open device writes to it. -/
def deliverable (cfg : Config) (packets : List Bytes) : List Bytes :=
  if cfg.l3.enabled = true then
    packets.filter fun packet => Tun.packetAllowed packet cfg.l3.allowProtocols = some true
  else []

/-- Every registered connection is in step with the other end. -/
def ConnsInStep (pumped : UInt64 → List Bytes) (R : Receiver) : Prop :=
  ∀ (connID : UInt64) (j : Nat), Finmap.lookup connID R.tcpConns = some j →
    ∃ stream, R.streams[j]? = some stream ∧ stream.connID = connID ∧
      InStep (pumped connID) stream.state

/-- Everything a direct run keeps. -/
structure DirectOk (sender receiver : Config) (seed : UInt64) (D : Direct) : Prop where
  sender : SenderOk sender seed D.sender
  handled : D.receiver.app.handled = D.sender.sent
  conns : ConnsInStep D.sender.pumped D.receiver
  device : D.receiver.tunOpen = true →
    D.receiver.tunWritten = deliverable receiver D.sender.tunRead

section Steps

variable {cfg : Config} {S : Sender} {e : SenderEvent}

theorem pumped_of_type (hmem : e.message ∈ e.site.messages cfg)
    (ht : e.message.type ≠ typeTCPData) : (S.apply e).pumped = S.pumped := by
  obtain ⟨site, m⟩ := e
  cases site with
  | pumpTCP connID seq read => exact absurd (SendSite.type_of_mem hmem) ht
  | _ => rfl

theorem tunRead_of_type (hmem : e.message ∈ e.site.messages cfg)
    (ht : e.message.type ≠ typeIPPacket) : (S.apply e).tunRead = S.tunRead := by
  obtain ⟨site, m⟩ := e
  cases site with
  | tunReadLoop packet => exact absurd (SendSite.type_of_mem hmem) ht
  | _ => rfl

end Steps

namespace ConnsInStep

variable {pumped : UInt64 → List Bytes} {R : Receiver}

theorem closeTCP (h : ConnsInStep pumped R) (c : UInt64) : ConnsInStep pumped (R.closeTCP c) := by
  intro connID j hl
  rw [Receiver.closeTCP, Table.lookup_erase_eq] at hl
  split at hl
  · cases hl
  · exact h connID j hl

theorem register (h : ConnsInStep pumped R) (c : UInt64) :
    ConnsInStep pumped (R.apply (.register c)) := by
  intro connID j hl
  simp only [Receiver.apply, Table.lookup_insert_eq] at hl ⊢
  split at hl
  · rename_i hc
    obtain rfl := Option.some.inj hl
    exact ⟨⟨c, newTCPState⟩, by simp, hc.symm, inStep_new _⟩
  · obtain ⟨stream, hs, hrest⟩ := h connID j hl
    obtain ⟨hlt, -⟩ := List.getElem?_eq_some_iff.mp hs
    exact ⟨stream, by rw [List.getElem?_append_left hlt, hs], hrest⟩

/-- A chunk read from a connection reaches the connection at the other end. -/
theorem handleTCPData (h : ConnsInStep pumped R) (writes : Nat → List ConnWrite) {m : Message}
    (hseq : m.seq.toNat = (pumped m.connID).length + 1)
    (hlen : (pumped m.connID).length + 2 < 2 ^ 64) :
    ConnsInStep (Function.update pumped m.connID (pumped m.connID ++ [m.payload]))
      (R.handleTCPData writes m) := by
  rw [Receiver.handleTCPData]
  cases hl : Finmap.lookup m.connID R.tcpConns with
  | none =>
      intro c j hc
      have hne : c ≠ m.connID := by
        rintro rfl
        rw [hl] at hc
        cases hc
      rw [Function.update_of_ne hne]
      exact h c j hc
  | some i =>
      obtain ⟨stream, hs, hid, hstep⟩ := h m.connID i hl
      obtain ⟨hlt, -⟩ := List.getElem?_eq_some_iff.mp hs
      -- The stream of another connection is another one.
      have hother : ∀ (state : TcpState) (c : UInt64) (j : Nat), c ≠ m.connID →
          Finmap.lookup c R.tcpConns = some j →
          ∃ other, (R.streams.set i ⟨stream.connID, state⟩)[j]? = some other ∧
            other.connID = c ∧ InStep (pumped c) other.state := by
        intro state c j hne hc
        obtain ⟨other, ho, hcid, hostep⟩ := h c j hc
        have hij : i ≠ j := by
          rintro rfl
          obtain rfl := Option.some.inj (hs.symm.trans ho)
          exact hne (hcid.symm.trans hid)
        exact ⟨other, by rw [List.getElem?_set, if_neg hij, ho], hcid, hostep⟩
      simp only [hs, hseq]
      split
      · rename_i hok
        intro c j hc
        by_cases hne : c = m.connID
        · subst hne
          obtain rfl := Option.some.inj (hl.symm.trans hc)
          rw [Function.update_self]
          let written := stream.state.writeOrdered writes ((pumped m.connID).length + 1) m.payload
          refine ⟨⟨stream.connID, written.1⟩, ?_, hid, hstep.writeOrdered hlen writes _ hok⟩
          rw [List.getElem?_set, if_pos rfl, if_pos hlt]
        · rw [Function.update_of_ne hne]
          exact hother _ c j hne hc
      · intro c j hc
        rw [Receiver.closeTCP, Table.lookup_erase_eq] at hc
        split at hc
        · cases hc
        · rename_i hne
          rw [Function.update_of_ne hne]
          exact hother _ c j hne hc

end ConnsInStep

/-- The device of a receiver that handles a packet. -/
theorem handleIPPacket_device {cfg : Config} {R : Receiver} {packets : List Bytes}
    (h : R.tunOpen = true → R.tunWritten = deliverable cfg packets) (packet : Bytes) :
    (R.handleIPPacket cfg packet).tunOpen = true →
      (R.handleIPPacket cfg packet).tunWritten = deliverable cfg (packets ++ [packet]) := by
  rw [Receiver.handleIPPacket]
  split
  · rename_i hguard
    obtain ⟨henabled, hallowed, hopen⟩ := hguard
    intro _
    have hold := h hopen
    simp only [deliverable, henabled, if_true, List.filter_append] at hold ⊢
    rw [hold]
    simp [hallowed]
  · rename_i hguard
    intro hopen
    rw [h hopen]
    simp only [deliverable]
    split
    · rename_i henabled
      have hrefused : ¬ Tun.packetAllowed packet cfg.l3.allowProtocols = some true :=
        fun hallowed => hguard ⟨henabled, hallowed, hopen⟩
      simp [hrefused]
    · rfl

theorem handleTCPData_device (writes : Nat → List ConnWrite) (R : Receiver) (m : Message) :
    (R.handleTCPData writes m).tunOpen = R.tunOpen ∧
      (R.handleTCPData writes m).tunWritten = R.tunWritten := by
  rw [Receiver.handleTCPData]
  split
  · exact ⟨rfl, rfl⟩
  · split
    · exact ⟨rfl, rfl⟩
    · simp only
      split <;> exact ⟨rfl, rfl⟩

/-- A message that is handled when it is sent. -/
theorem handleMessage_inStep {sender receiver : Config} {S : Sender} {R : Receiver}
    (hconns : ConnsInStep S.pumped R)
    (hdevice : R.tunOpen = true → R.tunWritten = deliverable receiver S.tunRead)
    {e : SenderEvent} (he : S.enabled sender e) (writes : Nat → List ConnWrite) (id : UInt64) :
    ConnsInStep (S.apply e).pumped (R.handleMessage receiver writes { e.message with id }) ∧
      ((R.handleMessage receiver writes { e.message with id }).tunOpen = true →
        (R.handleMessage receiver writes { e.message with id }).tunWritten =
          deliverable receiver (S.apply e).tunRead) := by
  obtain ⟨site, m⟩ := e
  obtain ⟨-, hmem, hnumbered⟩ := he
  simp only [Receiver.handleMessage]
  by_cases hpacket : m.type = typeIPPacket
  · obtain ⟨hsite, -⟩ := SendSite.eq_tunReadLoop_of_packet hmem hpacket
    simp only at hsite
    subst hsite
    rw [if_pos hpacket]
    refine ⟨?_, handleIPPacket_device hdevice m.payload⟩
    rw [Receiver.handleIPPacket]
    split <;> exact hconns
  rw [if_neg hpacket, tunRead_of_type hmem hpacket]
  by_cases hdata : m.type = typeTCPData
  · obtain ⟨connID, seq, read, hsite, hmessage⟩ := SendSite.eq_pumpTCP_of_data hmem hdata
    simp only at hsite hmessage
    subst hsite hmessage
    obtain ⟨hseq, hroom⟩ := hnumbered
    have hnumber : seq.toNat = (S.pumped connID).length + 1 := by
      rw [hseq, UInt64.toNat_ofNat']
      exact Nat.mod_eq_of_lt (by omega)
    rw [if_pos hdata, (handleTCPData_device writes R _).1, (handleTCPData_device writes R _).2]
    exact ⟨hconns.handleTCPData writes hnumber hroom, hdevice⟩
  rw [if_neg hdata, pumped_of_type hmem hdata]
  split
  · exact ⟨hconns.closeTCP m.connID, hdevice⟩
  · exact ⟨hconns, hdevice⟩

namespace DirectOk

variable {sender receiver : Config} {seed : UInt64} {D : Direct}

theorem receiver_apply (h : DirectOk sender receiver seed D) (e : ReceiverEvent) :
    DirectOk sender receiver seed ⟨D.sender, D.receiver.apply e⟩ := by
  cases e with
  | closeTun => exact ⟨h.sender, h.handled, h.conns, fun hopen => by cases hopen⟩
  | closeTCP c => exact ⟨h.sender, h.handled, h.conns.closeTCP c, h.device⟩
  | register c => exact ⟨h.sender, h.handled, h.conns.register c, h.device⟩

theorem message_apply (h : DirectOk sender receiver seed D) {e : SenderEvent}
    (he : D.sender.enabled sender e) (writes : Nat → List ConnWrite) :
    DirectOk sender receiver seed (D.apply receiver (.message e writes)) := by
  let R : Receiver :=
    { D.receiver with
      app := ⟨(isDuplicate D.receiver.app.seen (sendID D.sender.msgID)).1,
        D.receiver.app.handled ++ [{ e.message with id := sendID D.sender.msgID }]⟩ }
  obtain ⟨hconns, hdevice⟩ := handleMessage_inStep (R := R) h.conns
    h.device he writes (sendID D.sender.msgID)
  refine ⟨h.sender.apply he, ?_, hconns, hdevice⟩
  simp only [Direct.apply, Receiver.take, handled_handleMessage, SenderOk.sent_apply, h.handled]

end DirectOk

theorem directOk_of_reachable {sender receiver : Config} {seed : UInt64} {D : Direct}
    (run : (directMachine sender receiver seed).Reachable D) :
    DirectOk sender receiver seed D := by
  apply run.invariant
  · rintro D rfl
    refine ⟨SenderOk.start, rfl, ?_, ?_⟩
    · intro connID j hl
      simp [Direct.start, Receiver.start] at hl
    · intro _
      simp [Direct.start, Receiver.start, Sender.start, deliverable]
  · intro D t h he
    cases t with
    | receiver e => exact h.receiver_apply e
    | message e writes => exact h.message_apply he writes

end UnknownTunnel.App

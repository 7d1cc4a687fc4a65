import UnknownTunnel.App.Tunnel
import UnknownTunnel.Transport.Carriers

/-!
# The invariant of the tunnel

What the sender, the links with the manager, and the receiver keep in every
run. A link carries only what the sender has passed to `send`, the manager
forwards a beginning of it, and what the receiver holds for a connection
follows the chunks that were read at the other end.

## Implementation notes

The invariants of the three parts are separate structures. Only the one of the
receiver looks at the others, through the messages that were sent.
-/

namespace UnknownTunnel.App

open Foundation ConfigFile Protocol Transport

/-! ## The sender -/

namespace SendSite

variable {cfg : Config} {site : SendSite} {m : Message}

/-- The type of the messages of a place. -/
def type : SendSite → UInt8
  | .pong _ => typePong
  | .ping _ => typePing
  | .tunReadLoop _ => typeIPPacket
  | .openLocalTCP _ _ => typeOpenTCP
  | .handleOpenTCP _ _ => typeTCPStatus
  | .pumpTCP _ _ _ => typeTCPData
  | .closeTCP _ => typeTCPClose
  | .startUDPForward _ _ _ _ | .remoteUDPReadLoop _ _ _ => typeUDPData

theorem type_of_mem (h : m ∈ site.messages cfg) : m.type = site.type := by
  cases site with
  | tunReadLoop packet | pumpTCP connID seq read =>
      rw [messages] at h
      split at h
      · rw [List.mem_singleton.mp h]
        rfl
      · cases h
  | startUDPForward flowID datagramID f read | remoteUDPReadLoop flowID datagramID read =>
      obtain ⟨u, -, rfl⟩ := List.mem_map.mp h
      rfl
  | _ =>
      rw [List.mem_singleton.mp h]
      rfl

/-- Data messages come from `pumpTCP`. -/
theorem eq_pumpTCP_of_data (h : m ∈ site.messages cfg) (ht : m.type = typeTCPData) :
    ∃ connID seq read, site = .pumpTCP connID seq read ∧
      m = { message typeTCPData with connID, seq, payload := read } := by
  rw [type_of_mem h] at ht
  cases site with
  | pumpTCP connID seq read =>
      rw [messages] at h
      split at h
      · exact ⟨connID, seq, read, rfl, List.mem_singleton.mp h⟩
      · cases h
  | _ => cases ht

/-- IP packets come from `tunReadLoop`, which has filtered them. -/
theorem eq_tunReadLoop_of_packet (h : m ∈ site.messages cfg) (ht : m.type = typeIPPacket) :
    site = .tunReadLoop m.payload ∧
      Tun.packetAllowed m.payload cfg.l3.allowProtocols = some true := by
  rw [type_of_mem h] at ht
  cases site with
  | tunReadLoop packet =>
      rw [messages] at h
      split at h
      · rename_i hallowed
        obtain rfl := List.mem_singleton.mp h
        exact ⟨rfl, hallowed⟩
      · cases h
  | _ => cases ht

end SendSite

/-- The IP packets among some messages. -/
def packets (messages : List Message) : List Bytes :=
  (messages.filter fun m => m.type = typeIPPacket).map Message.payload

theorem packets_append (a b : List Message) : packets (a ++ b) = packets a ++ packets b := by
  rw [packets, List.filter_append, List.map_append]
  rfl

/-- Everything a run of the sender keeps. -/
structure SenderOk (cfg : Config) (seed : UInt64) (S : Sender) : Prop where
  counter : sendID S.msgID = messageID seed S.sent.length
  ids : ∀ (i : Nat) (m : Message), S.sent[i]? = some m → m.id = messageID seed i
  sites : ∀ m ∈ S.sent, ∃ site : SendSite, site.Possible cfg ∧
    ∃ m₀ ∈ site.messages cfg, m = { m₀ with id := m.id }
  data : ∀ m ∈ S.sent, m.type = typeTCPData →
    0 < m.seq.toNat ∧ (S.pumped m.connID)[m.seq.toNat - 1]? = some m.payload
  bound : ∀ connID, (S.pumped connID).length + 1 < 2 ^ 64
  packets : packets S.sent = S.tunRead
  allowed : ∀ packet ∈ S.tunRead, cfg.l3.enabled = true ∧
    Tun.packetAllowed packet cfg.l3.allowProtocols = some true

namespace SenderOk

variable {cfg : Config} {seed : UInt64} {S : Sender} {e : SenderEvent}

theorem start : SenderOk cfg seed (Sender.start seed) where
  counter := rfl
  ids := by intro i m hm; cases hm
  sites := by intro m hm; cases hm
  data := by intro m hm; cases hm
  bound := by intro connID; exact Nat.one_lt_two_pow (by decide)
  packets := rfl
  allowed := by intro packet hp; cases hp

theorem sent_apply (S : Sender) (e : SenderEvent) :
    (S.apply e).sent = S.sent ++ [{ e.message with id := sendID S.msgID }] := by
  obtain ⟨site, m⟩ := e
  cases site <;> rfl

theorem msgID_apply (S : Sender) (e : SenderEvent) : (S.apply e).msgID = sendID S.msgID := by
  obtain ⟨site, m⟩ := e
  cases site <;> rfl

/-- What was pumped stays where it is. -/
theorem pumped_apply (S : Sender) (e : SenderEvent) (connID : UInt64) :
    S.pumped connID <+: (S.apply e).pumped connID := by
  obtain ⟨site, m⟩ := e
  cases site with
  | pumpTCP c seq read =>
      by_cases h : connID = c
      · subst h
        simp [Sender.apply, Sender.record, Sender.send]
      · simp [Sender.apply, Sender.record, Sender.send, h]
  | _ => exact List.prefix_rfl

theorem data_apply (h : SenderOk cfg seed S) (he : S.enabled cfg e) :
    ∀ m ∈ (S.apply e).sent, m.type = typeTCPData →
      0 < m.seq.toNat ∧ ((S.apply e).pumped m.connID)[m.seq.toNat - 1]? = some m.payload := by
  intro m hm ht
  rw [sent_apply] at hm
  obtain hold | hnew := List.mem_append.mp hm
  · obtain ⟨hpos, hplace⟩ := h.data m hold ht
    obtain ⟨more, hmore⟩ := pumped_apply S e m.connID
    obtain ⟨hlt, -⟩ := List.getElem?_eq_some_iff.mp hplace
    exact ⟨hpos, by rw [← hmore, List.getElem?_append_left hlt, hplace]⟩
  · obtain rfl := List.mem_singleton.mp hnew
    obtain ⟨site, message⟩ := e
    obtain ⟨-, hmem, hnum⟩ := he
    obtain ⟨connID, seq, read, hsite, hmessage⟩ := SendSite.eq_pumpTCP_of_data hmem ht
    cases hsite
    cases hmessage
    obtain ⟨rfl, hroom⟩ := hnum
    have hmod := Nat.mod_eq_of_lt
      (show (S.pumped connID).length + 1 < 18446744073709551616 by omega)
    simp [Sender.apply, Sender.record, Sender.send, hmod]

theorem bound_apply (h : SenderOk cfg seed S) (he : S.enabled cfg e) (connID : UInt64) :
    ((S.apply e).pumped connID).length + 1 < 2 ^ 64 := by
  have hold := h.bound connID
  obtain ⟨site, message⟩ := e
  cases site with
  | pumpTCP c seq read =>
      by_cases hc : connID = c
      · subst hc
        have hroom := he.2.2.2
        simp only [Sender.apply, Sender.record, Sender.send, Function.update_self,
          List.length_append, List.length_singleton]
        omega
      · simpa [Sender.apply, Sender.record, Sender.send, hc] using hold
  | _ => exact hold

/-- A packet is read exactly when a message carries it. -/
theorem packets_apply (h : SenderOk cfg seed S) (he : S.enabled cfg e) :
    App.packets (S.apply e).sent = (S.apply e).tunRead ∧
      ∀ packet ∈ (S.apply e).tunRead, cfg.l3.enabled = true ∧
        Tun.packetAllowed packet cfg.l3.allowProtocols = some true := by
  obtain ⟨site, message⟩ := e
  obtain ⟨hpossible, hmem, -⟩ := he
  rw [sent_apply, packets_append, h.packets]
  by_cases ht : message.type = typeIPPacket
  · obtain ⟨hsite, hallowed⟩ := SendSite.eq_tunReadLoop_of_packet hmem ht
    simp only at hsite
    subst hsite
    have hnew : App.packets [{ message with id := sendID S.msgID }] = [message.payload] := by
      simp [App.packets, ht]
    rw [hnew]
    refine ⟨rfl, ?_⟩
    intro packet hp
    obtain hold | hlast := List.mem_append.mp (show packet ∈ S.tunRead ++ [message.payload] from hp)
    · exact h.allowed packet hold
    · obtain rfl := List.mem_singleton.mp hlast
      exact ⟨hpossible.1, hallowed⟩
  · have hnew : App.packets [{ message with id := sendID S.msgID }] = [] := by
      simp [App.packets, ht]
    have hsame : (S.apply ⟨site, message⟩).tunRead = S.tunRead := by
      cases site with
      | tunReadLoop packet => exact absurd (SendSite.type_of_mem hmem) ht
      | _ => rfl
    rw [hnew, hsame, List.append_nil]
    exact ⟨rfl, h.allowed⟩

theorem apply (h : SenderOk cfg seed S) (he : S.enabled cfg e) :
    SenderOk cfg seed (S.apply e) where
  counter := by
    rw [msgID_apply, sent_apply, List.length_append, List.length_singleton, messageID, h.counter]
  ids := by
    intro i m hm
    rw [sent_apply, List.getElem?_append] at hm
    split at hm
    · exact h.ids i m hm
    · obtain ⟨hlt, hval⟩ := List.getElem?_eq_some_iff.mp hm
      have hlast : i - S.sent.length < 1 := hlt
      rw [List.getElem_singleton] at hval
      rw [← hval, show i = S.sent.length by omega]
      exact h.counter
  sites := by
    intro m hm
    rw [sent_apply] at hm
    obtain hold | hnew := List.mem_append.mp hm
    · exact h.sites m hold
    · obtain rfl := List.mem_singleton.mp hnew
      exact ⟨e.site, he.1, e.message, he.2.1, rfl⟩
  data := h.data_apply he
  bound := h.bound_apply he
  packets := (h.packets_apply he).1
  allowed := (h.packets_apply he).2

end SenderOk

/-! ## The receiver -/

/-- A confirmation is not a message. -/
theorem decode_confirm :
    (∀ m, decode clientConfirm ≠ .ok m) ∧ ∀ m, decode serverConfirm ≠ .ok m := by
  have hclient : (clientConfirm.take 4 == messageMagic) = false := by decide +kernel
  have hserver : (serverConfirm.take 4 == messageMagic) = false := by decide +kernel
  constructor
  · intro m hm
    have hmagic := (decode_eq_ok_iff.mp hm).1.magic
    rw [hmagic] at hclient
    simp at hclient
  · intro m hm
    have hmagic := (decode_eq_ok_iff.mp hm).1.magic
    rw [hmagic] at hserver
    simp at hserver

/-- What decodes to a message is the encoding of a message that was sent. -/
theorem Authentic.mem_sent {sent : List Message} {raw : Bytes} {m : Message}
    (h : Authentic sent raw) (hm : decode raw = .ok m) : m ∈ sent := by
  obtain rfl | rfl | ⟨m₀, hmem, henc⟩ := h
  · exact absurd hm (decode_confirm.1 m)
  · exact absurd hm (decode_confirm.2 m)
  · rw [decode_encoded henc] at hm
    exact Except.ok.inj hm ▸ hmem

theorem Authentic.mono {sent more : List Message} {raw : Bytes} (h : Authentic sent raw) :
    Authentic (sent ++ more) raw := by
  obtain h | h | ⟨m, hm, henc⟩ := h
  · exact Or.inl h
  · exact Or.inr (Or.inl h)
  · exact Or.inr (Or.inr ⟨m, List.mem_append_left _ hm, henc⟩)

theorem decode_of_accepted {a : Incoming} {raw : Bytes} {m : Message}
    (h : Receiver.accepted a raw = some m) : decode raw = .ok m := by
  rw [Receiver.accepted] at h
  split at h
  · cases h
  · rename_i m' hraw
    split at h
    · cases h
    · exact hraw.trans (congrArg _ (Option.some.inj h))

theorem handled_receive (a : Incoming) (raw : Bytes) :
    (a.receive raw).handled = a.handled ++ (Receiver.accepted a raw).toList := by
  rw [Incoming.receive, Receiver.accepted]
  cases decode raw with
  | error e => simp
  | ok m =>
      simp only
      cases hdup : isDuplicate a.seen m.id with
      | mk seen dup => cases dup <;> simp

/-- Handled messages come from raw messages that were handed out. -/
theorem handled_decoded (raws : List Bytes) :
    ∀ m ∈ (incomingLoop raws).handled, ∃ raw ∈ raws, decode raw = .ok m := by
  induction raws using List.reverseRecOn with
  | nil => intro m hm; cases hm
  | append_singleton raws raw ih =>
      intro m hm
      have hlast : incomingLoop (raws ++ [raw]) = (incomingLoop raws).receive raw := by
        rw [incomingLoop, List.foldl_append]
        rfl
      rw [hlast, handled_receive] at hm
      obtain hold | hnew := List.mem_append.mp hm
      · obtain ⟨raw', hraw', hdec⟩ := ih m hold
        exact ⟨raw', List.mem_append_left _ hraw', hdec⟩
      · exact ⟨raw, List.mem_append_right _ (List.mem_singleton_self raw),
          decode_of_accepted (Option.mem_toList.mp hnew)⟩

/-- What a connection has, compared with the chunks read at the other end. A
part of a chunk is written only to a connection that is then closed. -/
def StreamOk (chunks : List Bytes) (registered : Prop) (s : TcpState) : Prop :=
  ∃ r part, s = TcpState.mirror r part ∧ Resequencer.Follows maxTCPReorder chunks r ∧
    part <+: chunks.getD (r.expected - 1) [] ∧ (registered → part = [])

namespace StreamOk

variable {chunks more : List Bytes} {registered registered' : Prop} {s : TcpState}

theorem fresh : StreamOk chunks registered newTCPState :=
  ⟨Resequencer.fresh, [], rfl, Resequencer.fresh_follows _ _, List.nil_prefix, fun _ => rfl⟩

theorem imp (h : StreamOk chunks registered s) (hr : registered' → registered) :
    StreamOk chunks registered' s := by
  obtain ⟨r, part, hs, hf, hpart, hnone⟩ := h
  exact ⟨r, part, hs, hf, hpart, fun h' => hnone (hr h')⟩

/-- The other end may have read more. -/
theorem mono (h : StreamOk chunks registered s) {longer : List Bytes} (hl : chunks <+: longer) :
    StreamOk longer registered s := by
  obtain ⟨more, rfl⟩ := hl
  obtain ⟨r, part, hs, hf, hpart, hnone⟩ := h
  refine ⟨r, part, hs, hf.append more, ?_, hnone⟩
  rw [List.getD_eq_getElem?_getD] at hpart ⊢
  cases hplace : chunks[r.expected - 1]? with
  | none =>
      rw [hplace] at hpart
      rw [List.prefix_nil.mp hpart]
      exact List.nil_prefix
  | some chunk =>
      obtain ⟨hlt, -⟩ := List.getElem?_eq_some_iff.mp hplace
      rw [List.getElem?_append_left hlt]
      exact hpart

/-- One data message of the flow. -/
theorem writeOrdered (h : StreamOk chunks registered s) (hreg : registered)
    (hlen : chunks.length + 1 < 2 ^ 64) (writes : Nat → List ConnWrite) {seq : Nat}
    {payload : Bytes} (hpos : 0 < seq) (hs : chunks[seq - 1]? = some payload) :
    StreamOk chunks ((s.writeOrdered writes seq payload).2 = none)
      (s.writeOrdered writes seq payload).1 := by
  obtain ⟨r, part, rfl, hf, -, hnone⟩ := h
  obtain rfl := hnone hreg
  obtain ⟨hlt, hval⟩ := List.getElem?_eq_some_iff.mp hs
  let a : Arrival chunks := ⟨⟨seq - 1, hlt⟩, writes⟩
  have hseq : a.seq = seq := Nat.sub_add_cancel hpos
  have hpayload : a.payload = payload := hval
  obtain ⟨r', part', hstate, hf', hpart', hok⟩ := TcpState.writeOrdered_step hlen hf a
  rw [hseq, hpayload] at hstate hok
  refine ⟨r', part', hstate, hf', hpart', ?_⟩
  intro herror
  exact (hok (by rw [herror]; exact fun hc => by cases hc)).1

/-- The bytes on the connection are a beginning of those read. -/
theorem written (h : StreamOk chunks registered s) :
    s.written <+: chunks.flatten ∧ s.reorder.size ≤ maxTCPReorder := by
  obtain ⟨r, part, rfl, hf, hpart, -⟩ := h
  refine ⟨?_, hf.size_le⟩
  change r.output.flatten ++ part <+: chunks.flatten
  rw [hf.output]
  rw [List.getD_eq_getElem?_getD] at hpart
  cases hplace : chunks[r.expected - 1]? with
  | none =>
      rw [hplace] at hpart
      rw [List.prefix_nil.mp hpart, List.append_nil]
      exact (List.take_prefix _ _).flatten
  | some chunk =>
      rw [hplace, Option.getD_some] at hpart
      have hnext : chunks.take (r.expected - 1) ++ [chunk] <+: chunks := by
        rw [← Option.toList_some, ← hplace, ← List.take_add_one]
        exact List.take_prefix _ _
      have hlong := hnext.flatten
      rw [List.flatten_append, List.flatten_singleton] at hlong
      exact (List.prefix_append_right_inj _ |>.mpr hpart).trans hlong

end StreamOk

/-- Everything a run of the receiver keeps, given what the sender has read and
what the manager has handed out. -/
structure ReceiverOk (cfg : Config) (pumped : UInt64 → List Bytes) (raws : List Bytes)
    (R : Receiver) : Prop where
  app : R.app = incomingLoop raws
  streams : ∀ (j : Nat) (stream : Stream), R.streams[j]? = some stream →
    StreamOk (pumped stream.connID) (Finmap.lookup stream.connID R.tcpConns = some j) stream.state
  conns : ∀ (connID : UInt64) (j : Nat), Finmap.lookup connID R.tcpConns = some j →
    ∃ stream, R.streams[j]? = some stream ∧ stream.connID = connID
  written : R.tunWritten.Sublist (packets R.app.handled)
  allowed : ∀ packet ∈ R.tunWritten, cfg.l3.enabled = true ∧
    Tun.packetAllowed packet cfg.l3.allowProtocols = some true

namespace ReceiverOk

variable {cfg : Config} {pumped : UInt64 → List Bytes} {raws : List Bytes} {R : Receiver}

theorem start : ReceiverOk cfg pumped [] Receiver.start where
  app := rfl
  streams := by intro j stream h; cases h
  conns := by intro connID j h; simp [Receiver.start] at h
  written := List.Sublist.refl _
  allowed := by intro packet hp; cases hp

theorem mono (h : ReceiverOk cfg pumped raws R) {pumped' : UInt64 → List Bytes}
    (hp : ∀ connID, pumped connID <+: pumped' connID) : ReceiverOk cfg pumped' raws R where
  app := h.app
  streams := fun j stream hs => (h.streams j stream hs).mono (hp stream.connID)
  conns := h.conns
  written := h.written
  allowed := h.allowed

theorem closeTCP (h : ReceiverOk cfg pumped raws R) (connID : UInt64) :
    ReceiverOk cfg pumped raws (R.closeTCP connID) where
  app := h.app
  streams := by
    intro j stream hs
    refine (h.streams j stream hs).imp ?_
    intro hl
    rw [Receiver.closeTCP, Table.lookup_erase_eq] at hl
    split at hl
    · cases hl
    · exact hl
  conns := by
    intro c j hl
    rw [Receiver.closeTCP, Table.lookup_erase_eq] at hl
    split at hl
    · cases hl
    · exact h.conns c j hl
  written := h.written
  allowed := h.allowed

theorem register (h : ReceiverOk cfg pumped raws R) (connID : UInt64) :
    ReceiverOk cfg pumped raws (R.apply (.register connID)) where
  app := h.app
  streams := by
    intro j stream hs
    simp only [Receiver.apply] at hs ⊢
    rw [List.getElem?_append] at hs
    split at hs
    · rename_i hlt
      refine (h.streams j stream hs).imp ?_
      intro hl
      rw [Table.lookup_insert_eq] at hl
      split at hl
      · obtain rfl := Option.some.inj hl
        exact absurd hlt (lt_irrefl _)
      · exact hl
    · obtain ⟨_, hval⟩ := List.getElem?_eq_some_iff.mp hs
      rw [List.getElem_singleton] at hval
      rw [← hval]
      exact StreamOk.fresh
  conns := by
    intro c j hl
    simp only [Receiver.apply] at hl ⊢
    rw [Table.lookup_insert_eq] at hl
    split at hl
    · rename_i hc
      obtain rfl := Option.some.inj hl
      exact ⟨⟨connID, newTCPState⟩, by simp, hc.symm⟩
    · obtain ⟨stream, hs, hid⟩ := h.conns c j hl
      obtain ⟨hlt, -⟩ := List.getElem?_eq_some_iff.mp hs
      exact ⟨stream, by rw [List.getElem?_append_left hlt, hs], hid⟩
  written := h.written
  allowed := h.allowed

theorem apply (h : ReceiverOk cfg pumped raws R) (e : ReceiverEvent) :
    ReceiverOk cfg pumped raws (R.apply e) := by
  cases e with
  | register connID => exact h.register connID
  | closeTCP connID => exact h.closeTCP connID
  | closeTun => exact ⟨h.app, h.streams, h.conns, h.written, h.allowed⟩

/-- A turn whose message touches neither connections nor the device. -/
theorem receive (h : ReceiverOk cfg pumped raws R) (raw : Bytes) :
    ReceiverOk cfg pumped (raws ++ [raw]) { R with app := R.app.receive raw } where
  app := by
    rw [incomingLoop, List.foldl_append, h.app]
    rfl
  streams := h.streams
  conns := h.conns
  written := by
    simp only [handled_receive, packets_append]
    exact h.written.trans (List.sublist_append_left _ _)
  allowed := h.allowed

/-- The expected form of the state after a chunk was written. -/
theorem setStream (h : ReceiverOk cfg pumped raws R) {j : Nat} {stream : Stream}
    (hs : R.streams[j]? = some stream) {s : TcpState}
    (hok : StreamOk (pumped stream.connID) True s) :
    ReceiverOk cfg pumped raws { R with streams := R.streams.set j ⟨stream.connID, s⟩ } where
  app := h.app
  streams := by
    intro k other hk
    simp only at hk ⊢
    rw [List.getElem?_set] at hk
    split at hk
    · rename_i hjk
      subst hjk
      split at hk
      · obtain rfl := Option.some.inj hk
        exact hok.imp fun _ => trivial
      · cases hk
    · exact h.streams k other hk
  conns := by
    intro c k hl
    obtain ⟨other, hk, hid⟩ := h.conns c k hl
    simp only
    by_cases hjk : j = k
    · subst hjk
      obtain rfl := Option.some.inj (hs.symm.trans hk)
      obtain ⟨hlt, -⟩ := List.getElem?_eq_some_iff.mp hs
      exact ⟨⟨stream.connID, s⟩, by rw [List.getElem?_set, if_pos rfl, if_pos hlt], hid⟩
    · exact ⟨other, by rw [List.getElem?_set, if_neg hjk, hk], hid⟩
  written := h.written
  allowed := h.allowed

/-- A connection that is closed may have a part of a chunk. -/
theorem setClosed (h : ReceiverOk cfg pumped raws R) {j : Nat} {stream : Stream}
    (hs : R.streams[j]? = some stream) {s : TcpState}
    (hok : StreamOk (pumped stream.connID) False s) :
    ReceiverOk cfg pumped raws
      (({ R with streams := R.streams.set j ⟨stream.connID, s⟩ } : Receiver).closeTCP
        stream.connID) where
  app := h.app
  streams := by
    intro k other hk
    simp only [Receiver.closeTCP] at hk ⊢
    rw [List.getElem?_set] at hk
    split at hk
    · rename_i hjk
      subst hjk
      split at hk
      · obtain rfl := Option.some.inj hk
        refine hok.imp ?_
        intro hl
        rw [Table.lookup_erase_eq, if_pos rfl] at hl
        cases hl
      · cases hk
    · refine (h.streams k other hk).imp ?_
      intro hl
      rw [Table.lookup_erase_eq] at hl
      split at hl
      · cases hl
      · exact hl
  conns := by
    intro c k hl
    simp only [Receiver.closeTCP] at hl ⊢
    rw [Table.lookup_erase_eq] at hl
    split at hl
    · cases hl
    · rename_i hne
      obtain ⟨other, hk, hid⟩ := h.conns c k hl
      have hjk : j ≠ k := by
        rintro rfl
        obtain rfl := Option.some.inj (hs.symm.trans hk)
        exact hne hid.symm
      exact ⟨other, by rw [List.getElem?_set, if_neg hjk, hk], hid⟩
  written := h.written
  allowed := h.allowed

theorem handleTCPData (h : ReceiverOk cfg pumped raws R) (writes : Nat → List ConnWrite)
    {m : Message} (hlen : ∀ connID, (pumped connID).length + 1 < 2 ^ 64)
    (hpos : 0 < m.seq.toNat) (hm : (pumped m.connID)[m.seq.toNat - 1]? = some m.payload) :
    ReceiverOk cfg pumped raws (R.handleTCPData writes m) := by
  rw [Receiver.handleTCPData]
  cases hl : Finmap.lookup m.connID R.tcpConns with
  | none => exact h
  | some j =>
      obtain ⟨stream, hs, hid⟩ := h.conns m.connID j hl
      simp only [hs]
      rw [← hid] at hm hl ⊢
      have hnext := (h.streams j stream hs).writeOrdered hl (hlen _) writes hpos hm
      split
      · rename_i hnone
        exact h.setStream hs (hnext.imp fun _ => hnone)
      · rename_i hsome
        exact h.setClosed hs (hnext.imp fun hfalse => hfalse.elim)

/-- One turn of `incomingLoop` on an authentic message. -/
theorem turn (h : ReceiverOk cfg pumped raws R) {sender : Config} {seed : UInt64} {S : Sender}
    (hS : SenderOk sender seed S) (hp : pumped = S.pumped) (writes : Nat → List ConnWrite)
    {raw : Bytes} (hraw : Authentic S.sent raw) :
    ReceiverOk cfg pumped (raws ++ [raw]) (R.receive cfg writes raw) := by
  subst hp
  rw [Receiver.receive]
  cases hacc : Receiver.accepted R.app raw with
  | none => exact h.receive raw
  | some m =>
      have hmem := hraw.mem_sent (decode_of_accepted hacc)
      have hnext := h.receive raw
      simp only [Receiver.handleMessage]
      split
      · rename_i htype
        rw [Receiver.handleIPPacket]
        split
        · rename_i hguard
          refine ⟨hnext.app, hnext.streams, hnext.conns, ?_, ?_⟩
          · have hone : packets [m] = [m.payload] := by simp [packets, htype]
            simp only [handled_receive, hacc, Option.toList_some, packets_append, hone]
            exact h.written.append (List.Sublist.refl _)
          · intro packet hpk
            obtain hold | hlast := List.mem_append.mp hpk
            · exact h.allowed packet hold
            · obtain rfl := List.mem_singleton.mp hlast
              exact ⟨hguard.1, hguard.2.1⟩
        · exact hnext
      · split
        · rename_i htype
          obtain ⟨hpos, hplace⟩ := hS.data m hmem htype
          exact hnext.handleTCPData writes hS.bound hpos hplace
        · split
          · exact hnext.closeTCP m.connID
          · exact hnext

end ReceiverOk

/-! ## The links and the manager -/

variable {σ ε : Type} {N : Deployment σ ε} {seed : UInt64} {T : Tunnel σ} {e : TunnelEvent σ ε}

/-- Everything a run of the tunnel keeps. -/
structure TunnelOk (N : Deployment σ ε) (seed : UInt64) (T : Tunnel σ) : Prop where
  sender : SenderOk N.sender seed T.sender
  links : N.channel.Stocked (Authentic T.sender.sent) T.links
  manager : managerMachine.Reachable T.manager
  attached : T.attached.length = T.manager.objects.length
  put : ∀ (i k : Nat) (o : ManagedSession), T.manager.objects[i]? = some o →
    T.attached[i]? = some k → ∃ s, T.links[k]? = some s ∧ o.put <+: (N.channel.sent s).drop 1
  receiver : ReceiverOk N.receiver T.sender.pumped (T.manager.handedOut.map Prod.snd) T.receiver

namespace TunnelOk

theorem start : TunnelOk N seed (Tunnel.start seed) where
  sender := SenderOk.start
  links := by intro i s h; cases h
  manager := .start rfl
  attached := rfl
  put := by intro i k o h; cases h
  receiver := ReceiverOk.start

/-- What a session's manager forwards is a beginning of what was sent over the
session's link after the confirmation. -/
theorem forwarded (h : TunnelOk N seed T) {i k : Nat} (hk : T.attached[i]? = some k) :
    ∃ s, T.links[k]? = some s ∧ T.manager.forwarded i <+: (N.channel.sent s).drop 1 := by
  obtain ⟨hlt, -⟩ := List.getElem?_eq_some_iff.mp hk
  rw [h.attached] at hlt
  have ho := List.getElem?_eq_getElem hlt
  obtain ⟨s, hs, hput⟩ := h.put i k _ ho hk
  exact ⟨s, hs, (Manager.begins_of_reachable h.manager i _ ho).trans hput⟩

/-- Everything in the manager's queue was sent by the other node. -/
theorem authentic (h : TunnelOk N seed T) :
    ∀ m ∈ T.manager.handedOut ++ T.manager.incoming, Authentic T.sender.sent m.2 := by
  intro m hm
  have hlt := (Manager.accounts_of_reachable h.manager).tagged m hm
  rw [← h.attached] at hlt
  obtain ⟨s, hs, hforwarded⟩ := h.forwarded (List.getElem?_eq_getElem hlt)
  have hmem : m.2 ∈ T.manager.forwarded m.1 :=
    List.mem_map.mpr ⟨m, List.mem_filter.mpr ⟨hm, by simp⟩, rfl⟩
  exact (h.links _ s hs).2 m.2
    (List.mem_append_right _ (List.mem_of_mem_drop (hforwarded.subset hmem)))

/-- A step of the manager that adds no session, given what it puts in queues. -/
theorem manager_apply (h : TunnelOk N seed T) {e : ManagerEvent} (he : T.manager.enabled e)
    (hadd : ∀ kind queued finished, e ≠ .add kind queued finished)
    (hput : ∀ (i k : Nat) (o : ManagedSession), T.manager.objects[i]? = some o →
      T.attached[i]? = some k → ∃ s, T.links[k]? = some s ∧
        o.put ++ Manager.putBy i e <+: (N.channel.sent s).drop 1)
    (hout : e ≠ .consume) : TunnelOk N seed { T with manager := T.manager.apply e } where
  sender := h.sender
  links := h.links
  manager := .next h.manager he trivial
  attached := by
    rw [h.attached, Manager.apply, List.length_mapIdx]
    obtain hc | ⟨kind, queued, finished, hev, -⟩ := Manager.objects_control T.manager e
    · rw [hc]
    · exact absurd hev (hadd kind queued finished)
  put := by
    intro i k o' ho' hk
    obtain ⟨o, ho, rfl⟩ | ⟨-, kind, queued, finished, hev, -⟩ := Manager.object_apply ho'
    · rw [Manager.put_objectAfter]
      exact hput i k o ho hk
    · exact absurd hev (hadd kind queued finished)
  receiver := by
    have hsame : (T.manager.apply e).handedOut = T.manager.handedOut := by
      rw [Manager.handedOut_apply, if_neg hout, List.append_nil]
    simp only [hsame]
    exact h.receiver

theorem sender_apply (h : TunnelOk N seed T) {e : SenderEvent}
    (he : T.sender.enabled N.sender e) :
    TunnelOk N seed { T with sender := T.sender.apply e } where
  sender := h.sender.apply he
  links := by
    refine h.links.mono ?_
    intro raw hraw
    simp only [SenderOk.sent_apply]
    exact hraw.mono
  manager := h.manager
  attached := h.attached
  put := h.put
  receiver := h.receiver.mono fun connID => SenderOk.pumped_apply T.sender e connID

theorem connect_apply (h : TunnelOk N seed T) (hK : N.channel.Lawful) {s : σ}
    (hs : N.channel.init s) : TunnelOk N seed { T with links := T.links ++ [s] } where
  sender := h.sender
  links := h.links.open hK hs
  manager := h.manager
  attached := h.attached
  put := by
    intro i k o ho hk
    obtain ⟨t, ht, hput⟩ := h.put i k o ho hk
    obtain ⟨hlt, -⟩ := List.getElem?_eq_some_iff.mp ht
    exact ⟨t, by rw [List.getElem?_append_left hlt, ht], hput⟩
  receiver := h.receiver

theorem link_apply (h : TunnelOk N seed T) (hK : N.channel.Lawful) {i : Nat} {e : ε} {s : σ}
    (hs : T.links[i]? = some s) (he : N.channel.enabled s e)
    (hraw : ∀ raw, N.channel.offers e = some raw → Authentic T.sender.sent raw) :
    TunnelOk N seed { T with links := N.channel.stepAt i e T.links } where
  sender := h.sender
  links := h.links.step hK hs he hraw
  manager := h.manager
  attached := h.attached
  put := by
    intro j k o ho hk
    obtain ⟨t, ht, hput⟩ := h.put j k o ho hk
    exact Channel.prefix_stepAt hK hs he ht hput
  receiver := h.receiver

/-- A session is added with a beginning of what its link has delivered. -/
theorem attach_apply (h : TunnelOk N seed T) (hK : N.channel.Lawful) {i n : Nat}
    {finished : Bool} (hi : i < T.links.length)
    (he : T.manager.enabled (.add (T.kindOf N i) (T.queued N i n) finished)) :
    TunnelOk N seed (T.apply N (.attach i n finished)) where
  sender := h.sender
  links := h.links
  manager := .next h.manager he trivial
  attached := by
    simp [Tunnel.apply, Manager.apply, Manager.control, h.attached]
  put := by
    intro j k o' ho' hk
    simp only [Tunnel.apply] at ho' hk ⊢
    obtain ⟨o, ho, rfl⟩ | ⟨rfl, kind, queued, fin, hev, rfl⟩ := Manager.object_apply ho'
    · obtain ⟨hlt, -⟩ := List.getElem?_eq_some_iff.mp ho
      rw [List.getElem?_append_left (by rw [h.attached]; exact hlt)] at hk
      exact h.put j k _ ho hk
    · cases hev
      rw [List.getElem?_append_right (by rw [h.attached]), h.attached, Nat.sub_self] at hk
      obtain rfl := Option.some.inj hk
      have hs := List.getElem?_eq_getElem hi
      refine ⟨_, hs, ?_⟩
      have hord := hK.ordered _ (h.links i _ hs).1
      simp only [Manager.newObject, Tunnel.queued, hs]
      exact (List.take_prefix _ _).trans (hord.drop 1)
  receiver := by
    simp only [Tunnel.apply, Manager.handedOut_apply]
    simpa using h.receiver

/-- A session's receive queue takes the next payload of its link. -/
theorem publish_apply (h : TunnelOk N seed T) (hK : N.channel.Lawful) {i : Nat} {raw : Bytes}
    (hnext : T.next N i = some raw) (he : T.manager.enabled (.put i raw)) :
    TunnelOk N seed { T with manager := T.manager.apply (.put i raw) } := by
  refine h.manager_apply he (fun _ _ _ hc => by cases hc) ?_ (fun hc => by cases hc)
  intro j k o ho hk
  obtain ⟨s, hs, hput⟩ := h.put j k o ho hk
  refine ⟨s, hs, ?_⟩
  rw [Manager.putBy]
  split
  · rename_i hij
    subst hij
    simp only [Tunnel.next, ho, hk, hs, Option.bind_eq_bind, Option.bind_some] at hnext
    have hord := (hK.ordered s (h.links k s hs).1).drop 1
    obtain ⟨more, hmore⟩ := hord
    obtain ⟨hlt, -⟩ := List.getElem?_eq_some_iff.mp hnext
    apply Channel.prefix_snoc hput
    rw [← hmore, List.getElem?_append_left hlt, hnext]
  · rw [List.append_nil]
    exact hput

/-- The application takes the oldest message of the queue. -/
theorem consume_apply (h : TunnelOk N seed T) (writes : Nat → List ConnWrite)
    {m : Nat × Bytes} {rest : List (Nat × Bytes)} (hq : T.manager.incoming = m :: rest) :
    TunnelOk N seed
      { T with
        manager := T.manager.apply .consume
        receiver := T.receiver.receive N.receiver writes m.2 } := by
  have hraw : Authentic T.sender.sent m.2 := by
    apply h.authentic
    rw [hq]
    exact List.mem_append_right _ List.mem_cons_self
  have hout : (T.manager.apply .consume).handedOut.map Prod.snd =
      T.manager.handedOut.map Prod.snd ++ [m.2] := by
    rw [Manager.handedOut_apply, if_pos rfl, hq]
    simp
  refine ⟨h.sender, h.links,
    .next h.manager (by simp [managerMachine, Manager.enabled, hq]) trivial,
    ?_, ?_, ?_⟩
  · rw [h.attached]
    simp [Manager.apply, Manager.control]
  · intro i k o' ho' hk
    obtain ⟨o, ho, rfl⟩ | ⟨-, kind, queued, finished, hev, -⟩ := Manager.object_apply ho'
    · exact h.put i k _ ho hk
    · cases hev
  · simp only [hout]
    exact h.receiver.turn h.sender rfl writes hraw

theorem apply (h : TunnelOk N seed T) (hK : N.channel.Lawful) (he : T.enabled N e) :
    TunnelOk N seed (T.apply N e) := by
  cases e with
  | sender e => exact h.sender_apply he
  | connect s => exact h.connect_apply hK he
  | link i e =>
      obtain ⟨s, hs, hen, hraw⟩ := he
      exact h.link_apply hK hs hen hraw
  | attach i n finished => exact h.attach_apply hK he.1 he.2
  | publish i =>
      obtain ⟨raw, hnext, hen⟩ := he
      simp only [Tunnel.apply, hnext]
      exact h.publish_apply hK hnext hen
  | manage e =>
      obtain ⟨hinternal, hen⟩ := he
      refine h.manager_apply hen (fun _ _ _ hc => by rw [hc] at hinternal; cases hinternal) ?_
        (fun hc => by rw [hc] at hinternal; cases hinternal)
      intro i k o ho hk
      have hnone : Manager.putBy i e = [] := by
        cases e with
        | put j data => cases hinternal
        | _ => rfl
      rw [hnone, List.append_nil]
      exact h.put i k o ho hk
  | consume writes =>
      obtain ⟨m, rest, hq⟩ := List.exists_cons_of_ne_nil he
      simp only [Tunnel.apply, hq]
      exact h.consume_apply writes hq
  | receiver e => exact ⟨h.sender, h.links, h.manager, h.attached, h.put, h.receiver.apply e⟩

end TunnelOk

/-- The invariant of every run, over any lawful links. -/
theorem tunnelOk_of_reachable (hK : N.channel.Lawful)
    (run : (tunnelMachine N seed).Reachable T) : TunnelOk N seed T := by
  apply run.invariant
  · rintro T rfl
    exact TunnelOk.start
  · intro T e h he
    exact h.apply hK he

end UnknownTunnel.App

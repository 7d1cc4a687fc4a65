import UnknownTunnel.Foundation.Channel
import UnknownTunnel.Transport.TcpSession
import UnknownTunnel.Transport.UdpLink

/-!
# Two peered TCP sessions and an attacker on their connection

A TCP link joins two sessions whose keys mirror each other. The attacker owns
the connection: every frame a reader takes may be any bytes, unless it is a
forgery. What a side has received is a beginning of what its peer has sent.

## Implementation notes

A frame that opens to a plaintext nobody sealed under the reader's key is a
forgery. A failing `Send` has sealed and numbered its payload, so the payload
counts as sent whether or not its frame was written.
-/

namespace UnknownTunnel.Transport

open Foundation

/-- The two ends of a session, with everything that was sealed and sent. -/
structure TcpLink where
  session : Side → TcpSession
  sealed : List SealRecord
  sent : Side → List Bytes

/-- The client and server sessions of one key set. -/
def peeredTCPSession (keys : KeySet) : Side → TcpSession
  | .client => newTCPSession keys.clientSend keys.serverSend
  | .server => newTCPSession keys.serverSend keys.clientSend

/-- The payload a step seals. -/
def TcpEvent.payload : TcpEvent → Option Bytes
  | .send payload _ => some payload
  | _ => none

namespace TcpLink

def start (keys : KeySet) : TcpLink := ⟨peeredTCPSession keys, [], fun _ => []⟩

variable (C : Crypto)

/-- A frame opens only to what was sealed under the reader's key. -/
def Unforged (L : TcpLink) (X : Side) (header ciphertext : Bytes) : Prop :=
  (L.session X).FrameUnforged C L.sealed header ciphertext

/-- The attacker may present anything but a forgery. -/
def enabled (L : TcpLink) (e : Side × TcpEvent) : Prop :=
  (L.session e.1).enabled e.2 ∧
    match e.2 with
    | .frame header ciphertext _ => L.Unforged C e.1 header ciphertext
    | _ => True

def apply (L : TcpLink) (e : Side × TcpEvent) : TcpLink where
  session := Function.update L.session e.1 ((L.session e.1).apply C e.2)
  sealed := L.sealed ++ ((L.session e.1).sealRecord e.2).toList
  sent := Function.update L.sent e.1 (L.sent e.1 ++ e.2.payload.toList)

end TcpLink

/-- The runs of a TCP link. The keys of the two directions differ. -/
def tcpLinkMachine (C : Crypto) : Machine TcpLink (Side × TcpEvent) where
  init := fun L => ∃ keys, keys.clientSend ≠ keys.serverSend ∧ L = TcpLink.start keys
  enabled := TcpLink.enabled C
  apply := TcpLink.apply C

namespace TcpSession

variable {C : Crypto} {s : TcpSession} {e : TcpEvent}

/-- Every step that seals takes the next number. -/
theorem apply_sendSeq (C : Crypto) (s : TcpSession) (e : TcpEvent) :
    (s.apply C e).sendSeq = s.sendSeq + e.payload.toList.length := by
  cases e with
  | frame header ciphertext queued =>
      simp only [apply]
      split
      · rfl
      · split <;> rfl
  | _ => rfl

theorem sealRecord_eq (s : TcpSession) (e : TcpEvent) :
    s.sealRecord e = e.payload.map fun payload =>
      ⟨s.sendKey, nonceFor (s.sendSeq + 1), Bytes.bePut 8 (s.sendSeq + 1), payload⟩ := by
  cases e <;> rfl

/-- The reader's place: as many payloads received as numbers passed. -/
def InStep (s : TcpSession) : Prop := s.reading = true → s.recvSeq = s.received.length + 1

/-- A step either leaves what was received alone or appends the payload of the
next frame; a reader that goes on is in step. -/
theorem received_apply (he : s.enabled e) (h : s.InStep) :
    (s.apply C e).InStep ∧
      ((s.apply C e).received = s.received ∨
        ∃ header ciphertext plaintext, e = .frame header ciphertext true ∧
          s.readFrame C header ciphertext = some plaintext ∧
          frameSeq header = s.received.length + 1 ∧
          (s.apply C e).received = s.received ++ [plaintext]) := by
  cases e with
  | frame header ciphertext queued =>
      have hplace := h he.1
      simp only [apply]
      cases hr : s.readFrame C header ciphertext with
      | none => exact ⟨fun (hstop : false = true) => Bool.noConfusion hstop, Or.inl rfl⟩
      | some plaintext =>
          cases queued with
          | false => exact ⟨fun (hstop : false = true) => Bool.noConfusion hstop, Or.inl rfl⟩
          | true =>
              constructor
              · intro _
                simp [hplace]
              · exact Or.inr ⟨header, ciphertext, plaintext, rfl, hr,
                  (readFrame_eq_some hr).1.trans hplace, rfl⟩
  | readError => exact ⟨fun (hstop : false = true) => Bool.noConfusion hstop, Or.inl rfl⟩
  | send payload failAt => exact ⟨h, Or.inl rfl⟩
  | sendDeadline => exact ⟨h, Or.inl rfl⟩
  | close => exact ⟨h, Or.inl rfl⟩

end TcpSession

/-! ## The order of a TCP link -/

/-- Everything a run of the link keeps. -/
structure TcpLinkInvariant (L : TcpLink) : Prop where
  recvKey : ∀ X, (L.session X).recvKey = (L.session X.peer).sendKey
  sendKey : ∀ X, (L.session X).sendKey ≠ (L.session X.peer).sendKey
  counter : ∀ X, (L.session X).sendSeq = (L.sent X).length ∧ (L.sent X).length < 2 ^ 64
  sealed : ∀ r ∈ L.sealed, ∃ X seq, r.key = (L.session X).sendKey ∧ 0 < seq ∧
    r.aad = Bytes.bePut 8 seq ∧ (L.sent X)[seq - 1]? = some r.plaintext
  inStep : ∀ X, (L.session X).InStep
  received : ∀ X, (L.session X).received <+: L.sent X.peer

namespace TcpLinkInvariant

variable {C : Crypto} {L : TcpLink} {e : Side × TcpEvent}

theorem start {keys : KeySet} (h : keys.clientSend ≠ keys.serverSend) :
    TcpLinkInvariant (TcpLink.start keys) where
  recvKey := by intro X; cases X <;> rfl
  sendKey := by intro X; cases X <;> [exact h; exact h.symm]
  counter := by intro X; cases X <;> exact ⟨rfl, by simp [TcpLink.start]⟩
  sealed := by intro r hr; cases hr
  inStep := by intro X _; cases X <;> rfl
  received := by intro X; cases X <;> exact List.nil_prefix

/-- An opened frame carries the payload the peer sent under its number. -/
theorem opened (h : TcpLinkInvariant L) {X : Side} {header ciphertext plaintext : Bytes}
    (hf : L.Unforged C X header ciphertext)
    (hr : (L.session X).readFrame C header ciphertext = some plaintext)
    (hlt : TcpSession.frameSeq header < 2 ^ 64) :
    (L.sent X.peer)[TcpSession.frameSeq header - 1]? = some plaintext := by
  obtain ⟨Y, seq, hkey, hpos, haad, hsent⟩ := h.sealed _ (hf.mem_of_readFrame hr)
  have hY : Y = X.peer := by
    rcases Side.eq_or_eq_peer X.peer Y with hY | hY
    · exact hY
    · rw [Side.peer_peer] at hY
      subst hY
      exact absurd (hkey.symm.trans (h.recvKey Y)) (h.sendKey Y)
  subst hY
  have hseq : seq < 2 ^ 64 := by
    obtain ⟨hplace, -⟩ := List.getElem?_eq_some_iff.mp hsent
    have hcount := (h.counter X.peer).2
    omega
  have hsame : TcpSession.frameSeq header = seq := Bytes.bePut_inj hlt hseq haad
  rw [hsame]
  exact hsent

theorem keys_apply (C : Crypto) (L : TcpLink) (e : Side × TcpEvent) (Y : Side) :
    ((L.apply C e).session Y).sendKey = (L.session Y).sendKey ∧
      ((L.apply C e).session Y).recvKey = (L.session Y).recvKey := by
  by_cases hY : Y = e.1
  · subst hY
    obtain ⟨hsend, hrecv, -⟩ := TcpSession.apply_cases C (L.session e.1) e.2
    simpa [TcpLink.apply] using And.intro hsend hrecv
  · simp [TcpLink.apply, hY]

theorem sent_apply (C : Crypto) (L : TcpLink) (e : Side × TcpEvent) (Y : Side) :
    L.sent Y <+: (L.apply C e).sent Y := by
  by_cases hY : Y = e.1
  · subst hY
    simp [TcpLink.apply]
  · simp [TcpLink.apply, hY]

theorem getElem?_sent_apply (e : Side × TcpEvent) {Y : Side} {n : Nat} {payload : Bytes}
    (h : (L.sent Y)[n]? = some payload) : ((L.apply C e).sent Y)[n]? = some payload := by
  obtain ⟨more, hmore⟩ := sent_apply C L e Y
  obtain ⟨hlt, -⟩ := List.getElem?_eq_some_iff.mp h
  rw [← hmore, List.getElem?_append_left hlt, h]

theorem counter_apply (h : TcpLinkInvariant L) (he : L.enabled C e) (Y : Side) :
    ((L.apply C e).session Y).sendSeq = ((L.apply C e).sent Y).length ∧
      ((L.apply C e).sent Y).length < 2 ^ 64 := by
  obtain ⟨hcount, hbound⟩ := h.counter Y
  by_cases hY : Y = e.1
  · subst hY
    have hlen : ((L.apply C e).sent e.1).length =
        (L.sent e.1).length + e.2.payload.toList.length := by
      simp [TcpLink.apply]
    have hseq : ((L.apply C e).session e.1).sendSeq =
        (L.session e.1).sendSeq + e.2.payload.toList.length := by
      simpa [TcpLink.apply] using TcpSession.apply_sendSeq C (L.session e.1) e.2
    refine ⟨by rw [hseq, hlen, hcount], ?_⟩
    rw [hlen]
    obtain ⟨X, ev⟩ := e
    cases ev with
    | send payload failAt =>
        have hroom := he.1.2
        simp only at hcount hroom ⊢
        rw [← hcount]
        exact hroom
    | _ => simpa [TcpEvent.payload] using hbound
  · simpa [TcpLink.apply, hY] using ⟨hcount, hbound⟩

theorem sealed_apply (h : TcpLinkInvariant L) :
    ∀ r ∈ (L.apply C e).sealed, ∃ X seq, r.key = ((L.apply C e).session X).sendKey ∧ 0 < seq ∧
      r.aad = Bytes.bePut 8 seq ∧ ((L.apply C e).sent X)[seq - 1]? = some r.plaintext := by
  intro r hr
  obtain hold | hnew := List.mem_append.mp hr
  · obtain ⟨X, seq, hkey, hpos, haad, hsent⟩ := h.sealed r hold
    exact ⟨X, seq, by rw [(keys_apply C L e X).1, hkey], hpos, haad, getElem?_sent_apply e hsent⟩
  · rw [TcpSession.sealRecord_eq, Option.mem_toList, Option.map_eq_some_iff] at hnew
    obtain ⟨payload, hpayload, rfl⟩ := hnew
    refine ⟨e.1, (L.session e.1).sendSeq + 1, by rw [(keys_apply C L e e.1).1], Nat.succ_pos _,
      rfl, ?_⟩
    simp [TcpLink.apply, hpayload, (h.counter e.1).1]

/-- One step of the reader: the next payload is the next one sent. -/
theorem received_apply (h : TcpLinkInvariant L) (he : L.enabled C e) (Y : Side) :
    ((L.apply C e).session Y).InStep ∧
      ((L.apply C e).session Y).received <+: (L.apply C e).sent Y.peer := by
  have hgrow := sent_apply C L e Y.peer
  by_cases hY : Y = e.1
  · subst hY
    have hsession : (L.apply C e).session e.1 = (L.session e.1).apply C e.2 :=
      Function.update_self ..
    obtain ⟨hstep, hcases⟩ := TcpSession.received_apply (C := C) he.1 (h.inStep e.1)
    rw [hsession]
    refine ⟨hstep, ?_⟩
    obtain hsame | ⟨header, ciphertext, plaintext, hev, hr, hseq, hnext⟩ := hcases
    · rw [hsame]
      exact (h.received e.1).trans hgrow
    · have hen := he
      rw [TcpLink.enabled, hev] at hen
      have hlt : TcpSession.frameSeq header < 2 ^ 64 := by
        rw [(TcpSession.readFrame_eq_some hr).1]
        have hroom := hen.1.2.1
        omega
      have hsent := h.opened hen.2 hr hlt
      rw [hseq, Nat.add_sub_cancel] at hsent
      rw [hnext]
      exact (Channel.prefix_snoc (h.received e.1) hsent).trans hgrow
  · have hsession : (L.apply C e).session Y = L.session Y := Function.update_of_ne hY ..
    rw [hsession]
    exact ⟨h.inStep Y, (h.received Y).trans hgrow⟩

theorem apply (h : TcpLinkInvariant L) (he : L.enabled C e) :
    TcpLinkInvariant (L.apply C e) where
  recvKey := by
    intro X
    rw [(keys_apply C L e X).2, (keys_apply C L e X.peer).1]
    exact h.recvKey X
  sendKey := by
    intro X
    rw [(keys_apply C L e X).1, (keys_apply C L e X.peer).1]
    exact h.sendKey X
  counter := h.counter_apply he
  sealed := h.sealed_apply
  inStep := fun X => (h.received_apply he X).1
  received := fun X => (h.received_apply he X).2

end TcpLinkInvariant

theorem tcpLinkInvariant_of_reachable {C : Crypto} {L : TcpLink}
    (run : (tcpLinkMachine C).Reachable L) : TcpLinkInvariant L := by
  apply run.invariant
  · rintro L ⟨keys, hkeys, rfl⟩
    exact TcpLinkInvariant.start hkeys
  · intro L e h he
    exact h.apply he

end UnknownTunnel.Transport

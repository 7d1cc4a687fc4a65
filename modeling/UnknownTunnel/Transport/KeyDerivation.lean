import UnknownTunnel.Transport.HandshakeEnds

/-!
# Key derivation

The salt of a key derivation determines the nonces it was made from, so ends
with nonces of their own have data keys of their own, and no data key serves
both directions.

## Implementation notes

Hash functions with outputs of a fixed length are injective on no infinite
set. Idealised, they are injective on the inputs that occur in the run, and
that is the premise: it is about the finitely many key derivations made by
the reached state.
-/

namespace UnknownTunnel.Transport.World

open Foundation

variable {C : Crypto} {cfg : NodeConfig} {W : World} {e : WorldEvent}

/-- The pairs of nonces from which a node has derived keys. -/
def derivations (W : World) : Set (Bytes × Bytes) :=
  { p | (∃ i c, W.clientEnd i = some c ∧ p = (c.clientNonce, c.serverNonce)) ∨
    ∃ r v, W.serverEnd r = some v ∧ p = (v.clientNonce, v.serverNonce) }

def saltOf (cfg : NodeConfig) (p : Bytes × Bytes) : Bytes :=
  Crypto.saltInput p.1 p.2 cfg.peerID cfg.nodeID

theorem nonces_of_saltOf {p q : Bytes × Bytes} (h : saltOf cfg p = saltOf cfg q) :
    p.1 ++ p.2 = q.1 ++ q.2 := by
  simp only [saltOf, Crypto.saltInput] at h
  exact List.append_cancel_right (List.append_cancel_right (List.append_cancel_right h))

def prkOf (C : Crypto) (cfg : NodeConfig) (p : Bytes × Bytes) : Bytes :=
  C.hkdfExtract (C.sha256 (saltOf cfg p)) cfg.secret

/-- The labels of the two data keys. -/
def dataLabels : Set Bytes :=
  { ofString "unknowntunnel/client-to-server/data", ofString "unknowntunnel/server-to-client/data" }

/-- SHA-256 and the two steps of HKDF are injective on the inputs that occur
in the key derivations of a run. -/
structure HashesInjective (C : Crypto) (cfg : NodeConfig) (W : World) : Prop where
  sha256 : Set.InjOn C.sha256 (saltOf cfg '' W.derivations)
  extract : Set.InjOn (fun salt => C.hkdfExtract salt cfg.secret)
    ((fun p => C.sha256 (saltOf cfg p)) '' W.derivations)
  expand : Set.InjOn (fun q : Bytes × Bytes => C.hkdfExpand q.1 q.2 32)
    ((prkOf C cfg '' W.derivations) ×ˢ dataLabels)

theorem derivations_subset (C : Crypto) (he : W.enabled cfg e) :
    W.derivations ⊆ (W.apply C cfg e).derivations := by
  rintro p (⟨i, c, hc, hp⟩ | ⟨r, v, hv, hp⟩)
  · exact Or.inl ⟨i, c, clientEnd_keep C he hc, hp⟩
  · exact Or.inr ⟨r, v, serverEnd_keep he hv, hp⟩

theorem HashesInjective.of_apply (h : (W.apply C cfg e).HashesInjective C cfg)
    (he : W.enabled cfg e) : W.HashesInjective C cfg where
  sha256 := h.sha256.mono (Set.image_mono (derivations_subset C he))
  extract := h.extract.mono (Set.image_mono (derivations_subset C he))
  expand := h.expand.mono
    (Set.prod_mono_left (Set.image_mono (derivations_subset C he)))

/-- A data key determines the salt it was derived from and its label. -/
theorem HashesInjective.salt_eq (h : W.HashesInjective C cfg) {p q : Bytes × Bytes}
    (hp : p ∈ W.derivations) (hq : q ∈ W.derivations) {info info' : Bytes}
    (hi : info ∈ dataLabels) (hi' : info' ∈ dataLabels)
    (heq : C.hkdfExpand (prkOf C cfg p) info 32 = C.hkdfExpand (prkOf C cfg q) info' 32) :
    saltOf cfg p = saltOf cfg q ∧ info = info' := by
  have hpair : (prkOf C cfg p, info) = (prkOf C cfg q, info') :=
    h.expand ⟨⟨p, hp, rfl⟩, hi⟩ ⟨⟨q, hq, rfl⟩, hi'⟩ heq
  obtain ⟨hprk, hinfo⟩ := Prod.mk.inj hpair
  have hdigest : C.sha256 (saltOf cfg p) = C.sha256 (saltOf cfg q) :=
    h.extract ⟨p, hp, rfl⟩ ⟨q, hq, rfl⟩ hprk
  exact ⟨h.sha256 ⟨p, hp, rfl⟩ ⟨q, hq, rfl⟩ hdigest, hinfo⟩

theorem mem_dataLabels_client :
    ofString "unknowntunnel/client-to-server/data" ∈ dataLabels := Or.inl rfl

theorem mem_dataLabels_server :
    ofString "unknowntunnel/server-to-client/data" ∈ dataLabels := Or.inr rfl

/-- The keys a node derives from a pair of nonces. -/
def keysOf (C : Crypto) (cfg : NodeConfig) (p : Bytes × Bytes) : KeySet :=
  C.deriveKeys cfg.secret p.1 p.2 cfg.peerID cfg.nodeID

theorem keysOf_clientSend (C : Crypto) (cfg : NodeConfig) (p : Bytes × Bytes) :
    (keysOf C cfg p).clientSend =
      C.hkdfExpand (prkOf C cfg p) (ofString "unknowntunnel/client-to-server/data") 32 := rfl

theorem keysOf_serverSend (C : Crypto) (cfg : NodeConfig) (p : Bytes × Bytes) :
    (keysOf C cfg p).serverSend =
      C.hkdfExpand (prkOf C cfg p) (ofString "unknowntunnel/server-to-client/data") 32 := rfl

theorem HashesInjective.salt_of_clientSend (h : W.HashesInjective C cfg) {p q : Bytes × Bytes}
    (hp : p ∈ W.derivations) (hq : q ∈ W.derivations)
    (heq : (keysOf C cfg p).clientSend = (keysOf C cfg q).clientSend) :
    saltOf cfg p = saltOf cfg q := by
  rw [keysOf_clientSend, keysOf_clientSend] at heq
  exact (h.salt_eq hp hq mem_dataLabels_client mem_dataLabels_client heq).1

theorem HashesInjective.salt_of_serverSend (h : W.HashesInjective C cfg) {p q : Bytes × Bytes}
    (hp : p ∈ W.derivations) (hq : q ∈ W.derivations)
    (heq : (keysOf C cfg p).serverSend = (keysOf C cfg q).serverSend) :
    saltOf cfg p = saltOf cfg q := by
  rw [keysOf_serverSend, keysOf_serverSend] at heq
  exact (h.salt_eq hp hq mem_dataLabels_server mem_dataLabels_server heq).1

/-- The two directions never share a key. -/
theorem HashesInjective.directions (h : W.HashesInjective C cfg) {p q : Bytes × Bytes}
    (hp : p ∈ W.derivations) (hq : q ∈ W.derivations) :
    (keysOf C cfg p).clientSend ≠ (keysOf C cfg q).serverSend := by
  rw [keysOf_clientSend, keysOf_serverSend]
  intro heq
  have hlabel := (h.salt_eq hp hq mem_dataLabels_client mem_dataLabels_server heq).2
  revert hlabel
  decide

theorem HashesInjective.of_single {p : Bytes × Bytes} (h : W.derivations ⊆ {p})
    (hne : (keysOf C cfg p).clientSend ≠ (keysOf C cfg p).serverSend) :
    W.HashesInjective C cfg where
  sha256 := by
    rintro _ ⟨a, ha, rfl⟩ _ ⟨b, hb, rfl⟩ -
    rw [h ha, h hb]
  extract := by
    rintro _ ⟨a, ha, rfl⟩ _ ⟨b, hb, rfl⟩ -
    rw [h ha, h hb]
  expand := by
    rw [keysOf_clientSend, keysOf_serverSend] at hne
    rintro ⟨_, info⟩ ⟨⟨a, ha, rfl⟩, hi⟩ ⟨_, info'⟩ ⟨⟨b, hb, rfl⟩, hi'⟩ heq
    rw [h ha, h hb] at heq ⊢
    rcases hi with rfl | rfl <;> rcases hi' with rfl | rfl
    · rfl
    · exact absurd heq hne
    · exact absurd heq.symm hne
    · rfl

/-! ## The ends of the server -/

theorem endsDistinct_start (C : Crypto) (cfg : NodeConfig) : start.EndsDistinct C cfg := by
  constructor <;> intro r <;> cases r <;> intros <;>
    simp_all [start, serverEnd, UdpServer.start]

/-- The data keys of an end do not depend on its carrier. -/
theorem EndsDistinct.data (h : W.EndsDistinct C cfg) {r : EndRef} {v : SessionEnd}
    (hv : W.serverEnd r = some v) :
    v.keys.send = (keysOf C cfg (v.clientNonce, v.serverNonce)).serverSend ∧
      v.keys.recv = (keysOf C cfg (v.clientNonce, v.serverNonce)).clientSend := by
  rw [h.keys r v hv]
  cases v.carrier <;> exact ⟨rfl, rfl⟩

/-- Ends with one salt are one end. -/
theorem EndsDistinct.of_salt (h : W.EndsDistinct C cfg) {r r' : EndRef} {v v' : SessionEnd}
    (hv : W.serverEnd r = some v) (hv' : W.serverEnd r' = some v')
    (hsalt : saltOf cfg (v.clientNonce, v.serverNonce) =
      saltOf cfg (v'.clientNonce, v'.serverNonce)) : r = r' := by
  have hlength := (h.length r v hv).trans (h.length r' v' hv').symm
  exact h.nonce r r' v v' hv hv' (List.append_inj' (nonces_of_saltOf hsalt) hlength).2

theorem mem_derivations {r : EndRef} {v : SessionEnd} (hv : W.serverEnd r = some v) :
    (v.clientNonce, v.serverNonce) ∈ W.derivations := Or.inr ⟨r, v, hv, rfl⟩

theorem EndsDistinct.send (h : W.EndsDistinct C cfg) (hash : W.HashesInjective C cfg)
    {r r' : EndRef} {v v' : SessionEnd} (hv : W.serverEnd r = some v)
    (hv' : W.serverEnd r' = some v') (heq : v.keys.send = v'.keys.send) : r = r' := by
  rw [(h.data hv).1, (h.data hv').1] at heq
  exact h.of_salt hv hv'
    (hash.salt_of_serverSend (mem_derivations hv) (mem_derivations hv') heq)

theorem EndsDistinct.recv (h : W.EndsDistinct C cfg) (hash : W.HashesInjective C cfg)
    {r r' : EndRef} {v v' : SessionEnd} (hv : W.serverEnd r = some v)
    (hv' : W.serverEnd r' = some v') (heq : v.keys.recv = v'.keys.recv) : r = r' := by
  rw [(h.data hv).2, (h.data hv').2] at heq
  exact h.of_salt hv hv'
    (hash.salt_of_clientSend (mem_derivations hv) (mem_derivations hv') heq)

theorem EndsDistinct.directions (h : W.EndsDistinct C cfg) (hash : W.HashesInjective C cfg)
    {r r' : EndRef} {v v' : SessionEnd} (hv : W.serverEnd r = some v)
    (hv' : W.serverEnd r' = some v') : v.keys.send ≠ v'.keys.recv := by
  rw [(h.data hv).1, (h.data hv').2]
  exact fun heq => hash.directions (mem_derivations hv') (mem_derivations hv) heq.symm

end UnknownTunnel.Transport.World

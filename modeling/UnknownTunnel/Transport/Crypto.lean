import UnknownTunnel.Foundation.Bytes

/-!
# Session keys and nonces

The hash, the MAC and the authenticated cipher come from the standard
library and enter as one structure with their documented behaviour. Key
derivation and nonce construction follow `crypto.go`.

## Implementation notes

Unforgeability is not a property of these functions; it is a restriction on
what a network attacker delivers and is stated where the attacker is.
-/

namespace UnknownTunnel.Transport

open Foundation

/-- `crypto/sha256`, `crypto/hmac` and AES-GCM with its 16-byte overhead. -/
structure Crypto where
  sha256 : Bytes → Bytes
  hmac : (key message : Bytes) → Bytes
  aeadSeal : (key nonce plaintext aad : Bytes) → Bytes
  aeadOpen : (key nonce ciphertext aad : Bytes) → Option Bytes
  hmac_length : ∀ k m, (hmac k m).length = 32
  aeadSeal_length : ∀ k n p a, (aeadSeal k n p a).length = p.length + 16
  aeadOpen_aeadSeal : ∀ k n p a, aeadOpen k n (aeadSeal k n p a) a = some p

/-- `cipher.AEAD.Overhead` of AES-GCM. -/
def aeadOverhead : Nat := 16

/-- One call of `Seal`. -/
structure SealRecord where
  key : Bytes
  nonce : Bytes
  aad : Bytes
  plaintext : Bytes
  deriving DecidableEq

/-- The four directional keys of one handshake. -/
structure KeySet where
  clientSend : Bytes
  serverSend : Bytes
  clientAck : Bytes
  serverAck : Bytes
  deriving DecidableEq

/-- The 12-byte nonce of a sequence number. -/
def nonceFor (seq : Nat) : Bytes := ofString "UTN1" ++ Bytes.bePut 8 seq

namespace Crypto

variable (C : Crypto)

def hkdfExtract (salt input : Bytes) : Bytes := C.hmac salt input

/-- The expansion loop: one MAC block per round until `length` bytes exist.
Each round adds a block, so `length` rounds are always enough. -/
def hkdfExpandLoop (prk info : Bytes) (length : Nat) :
    Nat → Nat → Bytes → Bytes → Bytes
  | 0, _, _, result => result
  | fuel + 1, counter, previous, result =>
      if result.length < length then
        let block := C.hmac prk (previous ++ info ++ Bytes.bePut 1 counter)
        hkdfExpandLoop prk info length fuel (counter + 1) block (result ++ block)
      else result

/-- As many blocks as the length needs, cut to it. -/
def hkdfExpand (prk info : Bytes) (length : Nat) : Bytes :=
  (C.hkdfExpandLoop prk info length length 1 [] []).take length

/-- The salt of a key derivation; a zero byte separates the identifiers. -/
def saltInput (clientNonce serverNonce clientID serverID : Bytes) : Bytes :=
  clientNonce ++ serverNonce ++ clientID ++ [0] ++ serverID

/-- The keys of a session, one for each direction and use. -/
def deriveKeys (secret clientNonce serverNonce clientID serverID : Bytes) : KeySet :=
  let salt := C.sha256 (saltInput clientNonce serverNonce clientID serverID)
  let prk := C.hkdfExtract salt secret
  { clientSend := C.hkdfExpand prk (ofString "unknowntunnel/client-to-server/data") 32
    serverSend := C.hkdfExpand prk (ofString "unknowntunnel/server-to-client/data") 32
    clientAck := C.hkdfExpand prk (ofString "unknowntunnel/client-to-server/ack") 32
    serverAck := C.hkdfExpand prk (ofString "unknowntunnel/server-to-client/ack") 32 }

/-- A concrete instance: digests and tags are sums of the inputs read as
numbers, and a sealed text is the plaintext followed by its tag. -/
def sumTag (k n p a : Bytes) : Bytes :=
  Bytes.bePut 16 (3 * Bytes.beGet k + 5 * Bytes.beGet n + 7 * Bytes.beGet p + 11 * Bytes.beGet a)

def sum : Crypto where
  sha256 m := Bytes.bePut 32 (Bytes.beGet m)
  hmac k m := Bytes.bePut 32 (3 * Bytes.beGet k + 5 * Bytes.beGet m)
  aeadSeal k n p a := p ++ sumTag k n p a
  aeadOpen k n c a :=
    let p := c.take (c.length - 16)
    if c = p ++ sumTag k n p a then some p else none
  hmac_length := by simp
  aeadSeal_length := by simp [sumTag]
  aeadOpen_aeadSeal := by
    intro k n p a
    have hlen : (p ++ sumTag k n p a).length - 16 = p.length := by simp [sumTag]
    simp only [hlen, List.take_left, if_true]

end Crypto

end UnknownTunnel.Transport

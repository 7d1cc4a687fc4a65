import UnknownTunnel.ConfigFile.Validate
import UnknownTunnel.Foundation.Access

/-!
# The filter for Layer 3 packets

`PacketAllowed` finds the upper-layer protocol of an IP packet and looks it up
in a list. For IPv6 it walks over extension headers, whose kinds and lengths
the packet determines. The walk is compared with chains of headers that lie in
the packet one after the other.

## Implementation notes

The result of a function is `none` if it reads outside the packet. Offsets
stay below `16 * 2048`, within integers of any width. The count of rounds is
the fuel of the walk.
-/

namespace UnknownTunnel.Tun

open Foundation ConfigFile

/-! ## The filter -/

/-- How one round of the walk ends. -/
inductive WalkStep
  | done (protocol : UInt8) (ok : Bool)
  | go (next : UInt8) (offset : Nat)
  deriving DecidableEq

/-- The header at an offset is skipped if it lies inside the packet. -/
def skipHeader (packet : Bytes) (offset headerLen : Nat) (next : UInt8) : WalkStep :=
  if headerLen < 8 ∨ packet.length < offset + headerLen then .done 0 false
  else .go next (offset + headerLen)

/-- One round of the loop of `ipv6UpperLayerProtocol`. -/
def walkStep (packet : Bytes) (next : UInt8) (offset : Nat) : Option WalkStep :=
  if next = 6 ∨ next = 17 then some (.done next true)
  else if next = 0 ∨ next = 43 ∨ next = 60 then
    if packet.length < offset + 2 then some (.done 0 false)
    else do
      let following ← packet[offset]?
      let len ← packet[offset + 1]?
      pure (skipHeader packet offset ((len.toNat + 1) * 8) following)
  else if next = 44 then
    if packet.length < offset + 8 then some (.done 0 false)
    else do
      let following ← packet[offset]?
      pure (.go following (offset + 8))
  else if next = 51 then
    if packet.length < offset + 2 then some (.done 0 false)
    else do
      let following ← packet[offset]?
      let len ← packet[offset + 1]?
      pure (skipHeader packet offset ((len.toNat + 2) * 4) following)
  -- the cases 50 and 59 of the source do what its default does
  else some (.done next true)

/-- The rounds that are left of the walk. -/
def walk (packet : Bytes) : (rounds : Nat) → (next : UInt8) → (offset : Nat) →
    Option (UInt8 × Bool)
  | 0, _, _ => some (0, false)
  | rounds + 1, next, offset =>
      match walkStep packet next offset with
      | none => none
      | some (.done protocol ok) => some (protocol, ok)
      | some (.go following offset') => walk packet rounds following offset'

def ipv6UpperLayerProtocol (packet : Bytes) : Option (UInt8 × Bool) :=
  if packet.length < 40 then some (0, false)
  else do
    let next ← packet[6]?
    walk packet 16 next 40

/-- The case of IPv4 in `ipProtocol`. -/
def ipv4Protocol (packet : Bytes) (first : UInt8) : Option (UInt8 × Bool) :=
  if packet.length < 20 then some (0, false)
  else
    let headerLen := (first &&& 15).toNat * 4
    if headerLen < 20 ∨ packet.length < headerLen then some (0, false)
    else do
      let protocol ← packet[9]?
      pure (protocol, true)

def ipProtocol (packet : Bytes) : Option (UInt8 × Bool) :=
  if packet.length < 1 then some (0, false)
  else do
    let first : UInt8 ← packet[0]?
    if first >>> 4 = 4 then ipv4Protocol packet first
    else if first >>> 4 = 6 then ipv6UpperLayerProtocol packet
    else pure (0, false)

def packetAllowed (packet : Bytes) (protocols : List Bytes) : Option Bool := do
  let (protocol, ok) ← ipProtocol packet
  if ok = false then pure false
  else pure (protocols.any fun allowed =>
    (allowed = tcp ∧ protocol = 6) ∨ (allowed = udp ∧ protocol = 17))

/-! ## The grammar of packets -/

/-- An extension header at an offset, with the kind of the header after it and
its length. -/
inductive Extension (packet : Bytes) (offset : Nat) : UInt8 → UInt8 → Nat → Prop
  | options {kind following len : UInt8} (hkind : kind = 0 ∨ kind = 43 ∨ kind = 60)
      (hnext : packet[offset]? = some following) (hlen : packet[offset + 1]? = some len) :
      Extension packet offset kind following ((len.toNat + 1) * 8)
  | fragment {following : UInt8} (hnext : packet[offset]? = some following) :
      Extension packet offset 44 following 8
  | authentication {following len : UInt8} (hnext : packet[offset]? = some following)
      (hlen : packet[offset + 1]? = some len) :
      Extension packet offset 51 following ((len.toNat + 2) * 4)

/-- A number of extension headers from an offset on, each inside the packet,
that lead from a kind to a protocol. -/
inductive Chain (packet : Bytes) (protocol : UInt8) : Nat → UInt8 → Nat → Prop
  | reached (offset : Nat) : Chain packet protocol 0 protocol offset
  | extension {count len offset : Nat} {kind following : UInt8}
      (head : Extension packet offset kind following len)
      (inside : offset + len ≤ packet.length)
      (rest : Chain packet protocol count following (offset + len)) :
      Chain packet protocol (count + 1) kind offset

structure IPv4 (packet : Bytes) (protocol : UInt8) : Prop where
  version : (packet.getD 0 0).toNat / 16 = 4
  words : 5 ≤ (packet.getD 0 0).toNat % 16
  long : 20 ≤ packet.length
  header : (packet.getD 0 0).toNat % 16 * 4 ≤ packet.length
  protocol : packet.getD 9 0 = protocol

structure IPv6 (packet : Bytes) (protocol : UInt8) : Prop where
  version : (packet.getD 0 0).toNat / 16 = 6
  long : 40 ≤ packet.length
  chain : ∃ count, count ≤ 15 ∧ Chain packet protocol count (packet.getD 6 0) 40

/-- The protocols that a list allows. -/
def Allows (protocols : List Bytes) (protocol : UInt8) : Prop :=
  (protocol = 6 ∧ tcp ∈ protocols) ∨ (protocol = 17 ∧ udp ∈ protocols)

/-! ## The walk -/

section Walk

variable {packet : Bytes} {offset : Nat}

/-- What a round does. -/
inductive Round (packet : Bytes) (kind : UInt8) (offset : Nat) : WalkStep → Prop
  /-- The kind is not one of an extension header. -/
  | upper (hnone : ∀ following len, ¬ Extension packet offset kind following len) :
      Round packet kind offset (.done kind true)
  /-- The extension header does not lie inside the packet. -/
  | outside (hupper : kind ≠ 6 ∧ kind ≠ 17)
      (hout : ∀ following len, Extension packet offset kind following len →
        packet.length < offset + len) :
      Round packet kind offset (.done 0 false)
  | skipped {following : UInt8} {len : Nat} (head : Extension packet offset kind following len)
      (inside : offset + len ≤ packet.length)
      (unique : ∀ following' len', Extension packet offset kind following' len' →
        following' = following ∧ len' = len) :
      Round packet kind offset (.go following (offset + len))

theorem Extension.unique {kind following following' : UInt8} {len len' : Nat}
    (h : Extension packet offset kind following len)
    (h' : Extension packet offset kind following' len') : following' = following ∧ len' = len := by
  cases h with
  | options hkind hnext hlen =>
      cases h' with
      | options _ hnext' hlen' =>
          rw [hnext] at hnext'
          rw [hlen] at hlen'
          cases hnext'
          cases hlen'
          exact ⟨rfl, rfl⟩
      | fragment => simp at hkind
      | authentication => simp at hkind
  | fragment hnext =>
      cases h' with
      | options hkind => simp at hkind
      | fragment hnext' =>
          rw [hnext] at hnext'
          cases hnext'
          exact ⟨rfl, rfl⟩
  | authentication hnext hlen =>
      cases h' with
      | options hkind => simp at hkind
      | authentication hnext' hlen' =>
          rw [hnext] at hnext'
          rw [hlen] at hlen'
          cases hnext'
          cases hlen'
          exact ⟨rfl, rfl⟩

theorem Extension.kind {kind following : UInt8} {len : Nat}
    (h : Extension packet offset kind following len) :
    kind = 0 ∨ kind = 43 ∨ kind = 60 ∨ kind = 44 ∨ kind = 51 := by
  cases h with
  | options hkind => exact hkind.imp_right (Or.imp_right Or.inl)
  | fragment => simp
  | authentication => simp

theorem Extension.eight_le {kind following : UInt8} {len : Nat}
    (h : Extension packet offset kind following len) : 8 ≤ len := by
  cases h with
  | options hkind hnext hlen => omega
  | fragment hnext => exact le_rfl
  | authentication hnext hlen => omega

/-- A header of known length is skipped or found to be outside. -/
theorem round_skipHeader {kind following : UInt8} {len : Nat} (hupper : kind ≠ 6 ∧ kind ≠ 17)
    (head : Extension packet offset kind following len) :
    Round packet kind offset (skipHeader packet offset len following) := by
  have hlen := head.eight_le
  unfold skipHeader
  split
  · rename_i hout
    refine Round.outside hupper ?_
    intro following' len' head'
    obtain ⟨-, rfl⟩ := head.unique head'
    omega
  · rename_i hin
    exact Round.skipped head (by omega) fun _ _ head' => head.unique head'

/-- No round reads outside the packet. -/
theorem walkStep_round (packet : Bytes) (kind : UInt8) (offset : Nat) :
    ∃ step, walkStep packet kind offset = some step ∧ Round packet kind offset step := by
  unfold walkStep
  split
  · rename_i hupper
    refine ⟨_, rfl, Round.upper ?_⟩
    intro following len head
    have := head.kind
    grind
  rename_i hupper
  have hne : kind ≠ 6 ∧ kind ≠ 17 := not_or.mp hupper
  split
  · rename_i hkind
    split
    · rename_i hshort
      refine ⟨_, rfl, Round.outside hne fun following len head => ?_⟩
      have := head.eight_le
      omega
    · rename_i hlong
      rw [getElem?_eq_some_getD (show offset < packet.length by omega),
        getElem?_eq_some_getD (show offset + 1 < packet.length by omega)]
      exact ⟨_, rfl, round_skipHeader hne (.options hkind (getElem?_eq_some_getD (by omega))
        (getElem?_eq_some_getD (by omega)))⟩
  split
  · rename_i hkind
    subst hkind
    split
    · rename_i hshort
      refine ⟨_, rfl, Round.outside hne fun following len head => ?_⟩
      have := head.eight_le
      omega
    · rename_i hlong
      have head : Extension packet offset 44 (packet.getD offset 0) 8 :=
        .fragment (getElem?_eq_some_getD (by omega))
      rw [getElem?_eq_some_getD (show offset < packet.length by omega)]
      exact ⟨_, rfl, Round.skipped head (by omega) fun _ _ head' => head.unique head'⟩
  split
  · rename_i hkind
    subst hkind
    split
    · rename_i hshort
      refine ⟨_, rfl, Round.outside hne fun following len head => ?_⟩
      have := head.eight_le
      omega
    · rename_i hlong
      rw [getElem?_eq_some_getD (show offset < packet.length by omega),
        getElem?_eq_some_getD (show offset + 1 < packet.length by omega)]
      exact ⟨_, rfl, round_skipHeader hne (.authentication (getElem?_eq_some_getD (by omega))
        (getElem?_eq_some_getD (by omega)))⟩
  · refine ⟨_, rfl, Round.upper ?_⟩
    intro following len head
    have := head.kind
    grind

/-- The walk reads inside the packet, and finds a protocol exactly if fewer
extension headers than rounds lead to it. -/
theorem walk_spec (packet : Bytes) {protocol : UInt8} (hprotocol : protocol = 6 ∨ protocol = 17)
    (rounds : Nat) (kind : UInt8) (offset : Nat) :
    ∃ result, walk packet rounds kind offset = some result ∧
      (result = (protocol, true) ↔
        ∃ count, count < rounds ∧ Chain packet protocol count kind offset) := by
  induction rounds generalizing kind offset with
  | zero => exact ⟨_, rfl, iff_of_false (by simp) (by simp)⟩
  | succ rounds ih =>
      obtain ⟨step, hstep, hround⟩ := walkStep_round packet kind offset
      cases hround with
      | upper hnone =>
          refine ⟨(kind, true), by rw [walk, hstep], ?_⟩
          constructor
          · rintro ⟨⟩
            exact ⟨0, Nat.succ_pos _, Chain.reached offset⟩
          · rintro ⟨count, -, chain⟩
            cases chain with
            | reached => rfl
            | extension head inside rest => exact absurd head (hnone _ _)
      | outside hupper hout =>
          refine ⟨(0, false), by rw [walk, hstep], iff_of_false (by simp) ?_⟩
          rintro ⟨count, -, chain⟩
          cases chain with
          | reached => exact hprotocol.elim hupper.1 hupper.2
          | extension head inside rest =>
              have := hout _ _ head
              omega
      | @skipped following len head inside unique =>
          obtain ⟨result, hwalk, hiff⟩ := ih following (offset + len)
          refine ⟨result, by rw [walk, hstep]; exact hwalk, hiff.trans ?_⟩
          constructor
          · rintro ⟨count, hcount, chain⟩
            exact ⟨count + 1, Nat.succ_lt_succ hcount, Chain.extension head inside chain⟩
          · rintro ⟨count, hcount, chain⟩
            cases chain with
            | reached =>
                have := head.kind
                grind
            | extension head' inside' rest =>
                obtain ⟨rfl, rfl⟩ := unique _ _ head'
                exact ⟨_, Nat.lt_of_succ_lt_succ hcount, rest⟩

end Walk

/-! ## The filter and the grammar -/

section Grammar

variable (packet : Bytes) {protocol : UInt8}

theorem ipv6UpperLayerProtocol_spec (hprotocol : protocol = 6 ∨ protocol = 17) :
    ∃ result, ipv6UpperLayerProtocol packet = some result ∧
      (result = (protocol, true) ↔ 40 ≤ packet.length ∧
        ∃ count, count ≤ 15 ∧ Chain packet protocol count (packet.getD 6 0) 40) := by
  unfold ipv6UpperLayerProtocol
  split
  · rename_i hshort
    exact ⟨_, rfl, iff_of_false (by simp) (by omega)⟩
  · rename_i hlong
    rw [getElem?_eq_some_getD (show 6 < packet.length by omega)]
    obtain ⟨result, hwalk, hiff⟩ := walk_spec packet hprotocol 16 (packet.getD 6 0) 40
    refine ⟨result, hwalk, hiff.trans ?_⟩
    simp only [Nat.lt_succ_iff, not_lt.mp hlong, true_and]

theorem ipv4Protocol_spec (protocol : UInt8) :
    ∃ result, ipv4Protocol packet (packet.getD 0 0) = some result ∧
      (result = (protocol, true) ↔ 5 ≤ (packet.getD 0 0).toNat % 16 ∧ 20 ≤ packet.length ∧
        (packet.getD 0 0).toNat % 16 * 4 ≤ packet.length ∧ packet.getD 9 0 = protocol) := by
  have hwords : (packet.getD 0 0 &&& 15).toNat = (packet.getD 0 0).toNat % 16 := by
    rw [UInt8.toNat_and]
    exact Nat.and_two_pow_sub_one_eq_mod _ 4
  unfold ipv4Protocol
  simp only [hwords]
  split
  · rename_i hshort
    exact ⟨_, rfl, iff_of_false (by simp) (by omega)⟩
  split
  · rename_i hheader
    exact ⟨_, rfl, iff_of_false (by simp) (by omega)⟩
  · rename_i hlong hheader
    rw [getElem?_eq_some_getD (show 9 < packet.length by omega)]
    refine ⟨_, rfl, ?_⟩
    rw [Prod.mk.injEq]
    constructor
    · rintro ⟨hproto, -⟩
      exact ⟨by omega, by omega, by omega, hproto⟩
    · rintro ⟨-, -, -, hproto⟩
      exact ⟨hproto, rfl⟩

theorem version_eq_iff (n : UInt8) :
    packet.getD 0 0 >>> 4 = n ↔ (packet.getD 0 0).toNat / 16 = n.toNat := by
  rw [← UInt8.toNat_inj, UInt8.toNat_shiftRight, Nat.shiftRight_eq_div_pow]
  rfl

theorem ipProtocol_spec (hprotocol : protocol = 6 ∨ protocol = 17) :
    ∃ result, ipProtocol packet = some result ∧
      (result = (protocol, true) ↔ IPv4 packet protocol ∨ IPv6 packet protocol) := by
  have hversion := version_eq_iff packet
  unfold ipProtocol
  split
  · rename_i hempty
    refine ⟨_, rfl, iff_of_false (by simp) ?_⟩
    rintro (h | h)
    · have := h.long
      omega
    · have := h.long
      omega
  · rename_i hpos
    rw [getElem?_eq_some_getD (show 0 < packet.length by omega), Option.bind_eq_bind,
      Option.bind_some]
    split
    · rename_i hfour
      have hfour' : (packet.getD 0 0).toNat / 16 = 4 := (hversion 4).mp hfour
      obtain ⟨result, hresult, hiff⟩ := ipv4Protocol_spec packet protocol
      refine ⟨result, hresult, hiff.trans ?_⟩
      constructor
      · rintro ⟨hwords, hlong, hheader, hproto⟩
        exact Or.inl ⟨hfour', hwords, hlong, hheader, hproto⟩
      · rintro (h | h)
        · exact ⟨h.words, h.long, h.header, h.protocol⟩
        · have := h.version
          omega
    split
    · rename_i hsix
      have hsix' : (packet.getD 0 0).toNat / 16 = 6 := (hversion 6).mp hsix
      obtain ⟨result, hresult, hiff⟩ := ipv6UpperLayerProtocol_spec packet hprotocol
      refine ⟨result, hresult, hiff.trans ?_⟩
      constructor
      · rintro ⟨hlong, chain⟩
        exact Or.inr ⟨hsix', hlong, chain⟩
      · rintro (h | h)
        · have := h.version
          omega
        · exact ⟨h.long, h.chain⟩
    · rename_i hfour hsix
      refine ⟨_, rfl, iff_of_false (by simp) ?_⟩
      rintro (h | h)
      · exact hfour ((hversion 4).mpr h.version)
      · exact hsix ((hversion 6).mpr h.version)

instance (protocols : List Bytes) (protocol : UInt8) : Decidable (Allows protocols protocol) :=
  inferInstanceAs (Decidable ((protocol = 6 ∧ tcp ∈ protocols) ∨ (protocol = 17 ∧ udp ∈ protocols)))

theorem packetAllowed_of_protocol {packet : Bytes} {protocol : UInt8}
    (h : ipProtocol packet = some (protocol, true)) (protocols : List Bytes) :
    packetAllowed packet protocols = some (decide (Allows protocols protocol)) := by
  rw [packetAllowed, h]
  refine congrArg some (Bool.eq_iff_iff.mpr ?_)
  rw [List.any_eq_true, decide_eq_true_iff]
  constructor
  · rintro ⟨allowed, hmem, hmatch⟩
    rcases of_decide_eq_true hmatch with ⟨rfl, hprotocol⟩ | ⟨rfl, hprotocol⟩
    · exact Or.inl ⟨hprotocol, hmem⟩
    · exact Or.inr ⟨hprotocol, hmem⟩
  · rintro (⟨hprotocol, hmem⟩ | ⟨hprotocol, hmem⟩)
    · exact ⟨tcp, hmem, decide_eq_true (Or.inl ⟨rfl, hprotocol⟩)⟩
    · exact ⟨udp, hmem, decide_eq_true (Or.inr ⟨rfl, hprotocol⟩)⟩

/-- The filter reads inside the packet, and lets through exactly the packets
of the grammar whose protocol is allowed. -/
theorem packet_allowed_iff (packet : Bytes) (protocols : List Bytes) :
    ∃ allowed, packetAllowed packet protocols = some allowed ∧
      (allowed = true ↔ ∃ protocol, Allows protocols protocol ∧
        (IPv4 packet protocol ∨ IPv6 packet protocol)) := by
  obtain ⟨⟨found, ok⟩, hfound, hsix⟩ := ipProtocol_spec packet (Or.inl (Eq.refl (6 : UInt8)))
  obtain ⟨result, hresult, hseventeen⟩ :=
    ipProtocol_spec packet (Or.inr (Eq.refl (17 : UInt8)))
  obtain rfl : (found, ok) = result := Option.some.inj (hfound.symm.trans hresult)
  cases ok with
  | false =>
      refine ⟨false, by rw [packetAllowed, hfound]; rfl, iff_of_false (by simp) ?_⟩
      rintro ⟨protocol, ⟨rfl, -⟩ | ⟨rfl, -⟩, hpacket⟩
      · simpa using hsix.mpr hpacket
      · simpa using hseventeen.mpr hpacket
  | true =>
      refine ⟨_, packetAllowed_of_protocol hfound protocols, ?_⟩
      rw [decide_eq_true_iff]
      constructor
      · rintro (⟨rfl, hmem⟩ | ⟨rfl, hmem⟩)
        · exact ⟨6, Or.inl ⟨rfl, hmem⟩, hsix.mp rfl⟩
        · exact ⟨17, Or.inr ⟨rfl, hmem⟩, hseventeen.mp rfl⟩
      · rintro ⟨protocol, ⟨rfl, hmem⟩ | ⟨rfl, hmem⟩, hpacket⟩
        · obtain ⟨rfl, -⟩ := Prod.mk.inj (hsix.mpr hpacket)
          exact Or.inl ⟨rfl, hmem⟩
        · obtain ⟨rfl, -⟩ := Prod.mk.inj (hseventeen.mpr hpacket)
          exact Or.inr ⟨rfl, hmem⟩

end Grammar

end UnknownTunnel.Tun

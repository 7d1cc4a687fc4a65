import UnknownTunnel.Tun.Filter

/-!
# Fragments of IPv6 packets

A packet is split at a border between two of its headers. Every fragment has
the headers before the border, a Fragment header and a slice of what follows
the border. The walk goes on behind the Fragment header whatever the offset of
the fragment is, so that in a later fragment it takes data for headers if the
border lies before an extension header.

## Implementation notes

A border is given by the place of the byte that announces the next header and
by the offset of that header. Fields of a fragment that a value does not fit
in hold its low bits.
-/

namespace UnknownTunnel.Tun

open Foundation ConfigFile

/-! ## Headers of a packet -/

/-- The kinds of headers that the walk goes over. -/
def Walked (kind : UInt8) : Prop :=
  kind = 0 ∨ kind = 43 ∨ kind = 60 ∨ kind = 44 ∨ kind = 51

instance (kind : UInt8) : Decidable (Walked kind) :=
  inferInstanceAs (Decidable (kind = 0 ∨ kind = 43 ∨ kind = 60 ∨ kind = 44 ∨ kind = 51))

/-- Where a header starts and where its kind is announced. -/
structure Border where
  place : Nat
  offset : Nat
  deriving DecidableEq

/-- The end of the fixed header. -/
def fixedHeader : Border := ⟨6, 40⟩

/-- A number of extension headers, each inside the packet, between two borders. -/
inductive Headers (packet : Bytes) : Nat → Border → Border → Prop
  | none (b : Border) : Headers packet 0 b b
  | extension {count len : Nat} {b b' : Border} {following : UInt8}
      (head : Extension packet b.offset (packet.getD b.place 0) following len)
      (inside : b.offset + len ≤ packet.length)
      (rest : Headers packet count ⟨b.offset, b.offset + len⟩ b') :
      Headers packet (count + 1) b b'

/-- A packet with fewer than 15 extension headers, `count` of them before the
border `b`, and the border `finish` behind the last one. -/
structure Whole (packet : Bytes) (count rest : Nat) (b finish : Border) : Prop where
  version : (packet.getD 0 0).toNat / 16 = 6
  long : 40 ≤ packet.length
  before : Headers packet count fixedHeader b
  after : Headers packet rest b finish
  upper : ¬ Walked (packet.getD finish.place 0)
  few : count + rest < 15

/-! ## Splitting a packet -/

def fragmentHeader (next : UInt8) (offset : Nat) (more : Bool) (id : Nat) : Bytes :=
  next :: 0 :: (Bytes.bePut 2 (offset + more.toNat) ++ Bytes.bePut 4 id)

/-- The headers before a border, with `len` bytes after the fixed header. -/
def unfragmentable (packet : Bytes) (b : Border) (len : Nat) : Bytes :=
  (((packet.take b.offset).set b.place 44).set 4 (UInt8.ofNat (len / 256))).set 5
    (UInt8.ofNat len)

/-- A fragment whose data is found at an offset behind the border. -/
def fragment (packet : Bytes) (b : Border) (id offset : Nat) (more : Bool) (data : Bytes) :
    Bytes :=
  unfragmentable packet b (b.offset - 40 + 8 + data.length) ++
    (fragmentHeader (packet.getD b.place 0) offset more id ++ data)

/-- The fragment of the bytes from `piece.1` on and before `piece.2` behind the border. -/
def fragmentOf (packet : Bytes) (b : Border) (id : Nat) (piece : Nat × Nat) : Bytes :=
  fragment packet b id piece.1 (piece.2 ≠ packet.length - b.offset)
    (Bytes.slice (b.offset + piece.1) (b.offset + piece.2) packet)

/-- Pieces that cover the places from the given one on, cut at multiples of 8. -/
inductive Cuts (total : Nat) : Nat → List (Nat × Nat) → Prop
  | last {i : Nat} (hi : i < total) : Cuts total i [(i, total)]
  | more {i j : Nat} {rest : List (Nat × Nat)} (hi : i < j) (hj : j < total) (hunit : 8 ∣ j)
      (tail : Cuts total j rest) : Cuts total i ((i, j) :: rest)

/-- The first piece has all extension headers. -/
structure Splitting (packet : Bytes) (b finish : Border) (pieces : List (Nat × Nat)) :
    Prop where
  cuts : Cuts (packet.length - b.offset) 0 pieces
  first : ∀ j, (0, j) ∈ pieces → finish.offset - b.offset ≤ j

/-! ## The walk over headers -/

theorem Extension.following_eq {packet : Bytes} {offset len : Nat} {kind following : UInt8}
    (h : Extension packet offset kind following len) : packet.getD offset 0 = following := by
  cases h with
  | options _ hnext => rw [List.getD_eq_getElem?_getD, hnext, Option.getD_some]
  | fragment hnext => rw [List.getD_eq_getElem?_getD, hnext, Option.getD_some]
  | authentication hnext => rw [List.getD_eq_getElem?_getD, hnext, Option.getD_some]

/-- The header of the same kind and length at another place. -/
theorem Extension.relocate {packet other : Bytes} {offset offset' len : Nat}
    {kind following following' : UInt8} (h : Extension packet offset kind following len)
    (hnext : other[offset']? = some following')
    (hlen : other[offset' + 1]? = packet[offset + 1]?) :
    Extension other offset' kind following' len := by
  cases h with
  | options hkind _ hlen' => exact .options hkind hnext (hlen.trans hlen')
  | fragment _ => exact .fragment hnext
  | authentication _ hlen' => exact .authentication hnext (hlen.trans hlen')

/-- Every kind has headers of eight bytes. -/
theorem Walked.extension {packet : Bytes} {offset : Nat} {kind following : UInt8}
    (h : Walked kind) (hnext : packet[offset]? = some following)
    (hlen : packet[offset + 1]? = some 0) : Extension packet offset kind following 8 := by
  rcases h with rfl | rfl | rfl | rfl | rfl
  · exact .options (Or.inl rfl) hnext hlen
  · exact .options (Or.inr (Or.inl rfl)) hnext hlen
  · exact .options (Or.inr (Or.inr rfl)) hnext hlen
  · exact .fragment hnext
  · exact .authentication hnext hlen

theorem walkStep_of_extension {packet : Bytes} {offset len : Nat} {kind following : UInt8}
    (head : Extension packet offset kind following len) (inside : offset + len ≤ packet.length) :
    walkStep packet kind offset = some (.go following (offset + len)) := by
  obtain ⟨step, hstep, hround⟩ := walkStep_round packet kind offset
  cases hround with
  | upper hnone => exact absurd head (hnone _ _)
  | outside _ hout =>
      have := hout _ _ head
      omega
  | skipped _ _ unique =>
      obtain ⟨rfl, rfl⟩ := unique _ _ head
      exact hstep

theorem walk_of_upper {packet : Bytes} {kind : UInt8} (h : ¬ Walked kind) (rounds offset : Nat) :
    walk packet (rounds + 1) kind offset = some (kind, true) := by
  have hstep : walkStep packet kind offset = some (.done kind true) := by
    simp only [Walked, not_or] at h
    obtain ⟨hhop, hrouting, hoptions, hfragment, hauth⟩ := h
    simp only [walkStep, hhop, hrouting, hoptions, hfragment, hauth, or_self, if_false, ite_self]
  rw [walk, hstep]

/-- The walk goes over headers inside the packet. -/
theorem Headers.walk_eq {packet : Bytes} {count : Nat} {b b' : Border}
    (h : Headers packet count b b') (rounds : Nat) :
    walk packet (rounds + count) (packet.getD b.place 0) b.offset =
      walk packet rounds (packet.getD b'.place 0) b'.offset := by
  induction h with
  | none b => rfl
  | @extension count len b b' following head inside rest ih =>
      rw [← Nat.add_assoc, walk, walkStep_of_extension head inside, ← ih, head.following_eq]

theorem walkStep_ne_upper {packet : Bytes} {offset : Nat} {kind protocol : UInt8}
    (h : Walked kind) : walkStep packet kind offset ≠ some (.done protocol true) := by
  have hskip : ∀ len following, skipHeader packet offset len following ≠ .done protocol true := by
    intro len following
    unfold skipHeader
    split <;> simp
  intro hstep
  rcases h with rfl | rfl | rfl | rfl | rfl <;> simp [walkStep] at hstep <;> grind

/-- The walk classifies a packet exactly by the headers that are inside of it. -/
theorem walk_classified_iff (packet : Bytes) (protocol : UInt8) (rounds : Nat) (b : Border) :
    walk packet rounds (packet.getD b.place 0) b.offset = some (protocol, true) ↔
      ∃ count finish, count < rounds ∧ Headers packet count b finish ∧
        ¬ Walked protocol ∧ packet.getD finish.place 0 = protocol := by
  constructor
  · intro hwalk
    induction rounds generalizing b with
    | zero => simp [walk] at hwalk
    | succ rounds ih =>
        by_cases hkind : Walked (packet.getD b.place 0)
        · obtain ⟨step, hstep, hround⟩ := walkStep_round packet (packet.getD b.place 0) b.offset
          rw [walk, hstep] at hwalk
          cases hround with
          | upper => exact absurd hstep (walkStep_ne_upper hkind)
          | outside => simp at hwalk
          | @skipped following len head inside =>
              rw [← head.following_eq] at hwalk
              obtain ⟨count, finish, hcount, hrest, hupper⟩ :=
                ih ⟨b.offset, b.offset + len⟩ hwalk
              exact ⟨count + 1, finish, Nat.succ_lt_succ hcount, .extension head inside hrest,
                hupper⟩
        · rw [walk_of_upper hkind] at hwalk
          obtain ⟨rfl, -⟩ := Prod.mk.inj (Option.some.inj hwalk)
          exact ⟨0, b, Nat.succ_pos _, .none b, hkind, rfl⟩
  · rintro ⟨count, finish, hcount, hheaders, hupper, rfl⟩
    obtain ⟨k, rfl⟩ := Nat.exists_eq_add_of_lt hcount
    rw [show count + k + 1 = (k + 1) + count by omega, hheaders.walk_eq, walk_of_upper hupper]

theorem Headers.offset_le {packet : Bytes} {count : Nat} {b b' : Border}
    (h : Headers packet count b b') : b.offset ≤ b'.offset := by
  induction h with
  | none b => exact le_rfl
  | extension head inside rest ih => exact (Nat.le_add_right _ _).trans ih

theorem Headers.inside {packet : Bytes} {count : Nat} {b b' : Border}
    (h : Headers packet count b b') (hb : b.offset ≤ packet.length) :
    b'.offset ≤ packet.length := by
  induction h with
  | none b => exact hb
  | extension head inside rest ih => exact ih inside

theorem Headers.place_cases {packet : Bytes} {count : Nat} {b b' : Border}
    (h : Headers packet count b b') : b'.place = b.place ∨ b.offset ≤ b'.place := by
  induction h with
  | none b => exact Or.inl rfl
  | extension head inside rest ih =>
      rcases ih with hplace | hplace
      · exact Or.inr hplace.ge
      · exact Or.inr ((Nat.le_add_right _ _).trans hplace)

theorem Headers.place_lt {packet : Bytes} {count : Nat} {b b' : Border}
    (h : Headers packet count b b') (hb : b.place < b.offset) : b'.place < b'.offset := by
  induction h with
  | none b => exact hb
  | extension head inside rest ih =>
      apply ih
      have := head.eight_le
      exact Nat.lt_add_of_pos_right (by omega)

/-- Headers do not depend on the byte that announces what follows them. -/
theorem Headers.congr {packet other : Bytes} {count : Nat} {b b' : Border}
    (h : Headers packet count b b') (hb : b.place < b.offset) (hplace : 6 ≤ b.place)
    (hlen : b'.offset ≤ other.length)
    (hbytes : ∀ i, 6 ≤ i → i < b'.offset → i ≠ b'.place → other[i]? = packet[i]?) :
    Headers other count b b' := by
  induction h with
  | none b => exact .none b
  | @extension count len b b' following head inside rest ih =>
      have height := head.eight_le
      have hend : b.offset + len ≤ b'.offset := rest.offset_le
      have hnot : b.offset ≤ b'.place ∧ b.offset + 1 ≠ b'.place := by
        rcases rest.place_cases with hsame | hbehind
        · simp only at hsame
          omega
        · simp only at hbehind
          omega
      have hkind : other.getD b.place 0 = packet.getD b.place 0 := by
        rw [List.getD_eq_getElem?_getD, List.getD_eq_getElem?_getD,
          hbytes _ hplace (by omega) (by omega)]
      have hhead : Extension other b.offset (other.getD b.place 0) (other.getD b.offset 0) len := by
        rw [hkind]
        exact head.relocate (getElem?_eq_some_getD (by omega))
          (hbytes _ (by omega) (by omega) hnot.2)
      exact .extension hhead (by omega) (ih (by simp only; omega) (by simp only; omega) hlen hbytes)

/-- Headers that were moved as a block. -/
theorem Headers.shift {packet other : Bytes} {count distance : Nat} {b b' : Border}
    (h : Headers packet count b b') {place : Nat}
    (hkind : other.getD place 0 = packet.getD b.place 0)
    (hlen : b'.offset + distance ≤ other.length)
    (hbytes : ∀ i, b.offset ≤ i → i < b'.offset → other[i + distance]? = packet[i]?) :
    ∃ place', Headers other count ⟨place, b.offset + distance⟩ ⟨place', b'.offset + distance⟩ ∧
      other.getD place' 0 = packet.getD b'.place 0 := by
  induction h generalizing place with
  | none b => exact ⟨place, .none _, hkind⟩
  | @extension count len b b' following head inside rest ih =>
      have height := head.eight_le
      have hend : b.offset + len ≤ b'.offset := rest.offset_le
      have hnext : other[b.offset + distance]? = packet[b.offset]? := hbytes _ le_rfl (by omega)
      obtain ⟨place', hrest, hplace'⟩ := @ih (b.offset + distance)
        (by rw [List.getD_eq_getElem?_getD, hnext, List.getD_eq_getElem?_getD]) hlen
        fun i hi hi' => hbytes i ((Nat.le_add_right _ _).trans hi) hi'
      refine ⟨place', ?_, hplace'⟩
      have hhead : Extension other (b.offset + distance) (other.getD place 0) following len := by
        rw [hkind]
        refine head.relocate ?_ ?_
        · rw [hnext, getElem?_eq_some_getD (by omega), head.following_eq]
        · rw [Nat.add_right_comm]
          exact hbytes _ (by omega) (by omega)
      rw [Nat.add_right_comm] at hrest
      exact .extension hhead (by simp only; omega) hrest

/-! ## The bytes of a fragment -/

section Bytes

variable {packet : Bytes} {b : Border} (hb : b.offset ≤ packet.length) (id offset : Nat)
  (more : Bool) (data : Bytes)

include hb

theorem length_unfragmentable (len : Nat) : (unfragmentable packet b len).length = b.offset := by
  simp only [unfragmentable, List.length_set, List.length_take, Nat.min_eq_left hb]

theorem length_fragment :
    (fragment packet b id offset more data).length = b.offset + 8 + data.length := by
  simp only [fragment, fragmentHeader, List.length_append, length_unfragmentable hb,
    List.length_cons, Bytes.length_bePut]
  omega

theorem getElem?_fragment_front {i : Nat} (hi : i < b.offset) (hfour : i ≠ 4) (hfive : i ≠ 5)
    (hplace : i ≠ b.place) : (fragment packet b id offset more data)[i]? = packet[i]? := by
  rw [fragment, List.getElem?_append_left (by rw [length_unfragmentable hb]; exact hi),
    unfragmentable, List.getElem?_set_ne hfive.symm, List.getElem?_set_ne hfour.symm,
    List.getElem?_set_ne hplace.symm, List.getElem?_take_of_lt hi]

theorem getElem?_fragment_place (hplace : 6 ≤ b.place) (hlt : b.place < b.offset) :
    (fragment packet b id offset more data)[b.place]? = some 44 := by
  rw [fragment, List.getElem?_append_left (by rw [length_unfragmentable hb]; exact hlt),
    unfragmentable, List.getElem?_set_ne (by omega), List.getElem?_set_ne (by omega),
    List.getElem?_set_self (by rw [List.length_take]; omega)]

theorem getElem?_fragment_next :
    (fragment packet b id offset more data)[b.offset]? = some (packet.getD b.place 0) := by
  rw [fragment, List.getElem?_append_right (by rw [length_unfragmentable hb]),
    length_unfragmentable hb, Nat.sub_self]
  rfl

theorem getElem?_fragment_data (i : Nat) :
    (fragment packet b id offset more data)[b.offset + 8 + i]? = data[i]? := by
  have hheader : (fragmentHeader (packet.getD b.place 0) offset more id).length = 8 := by
    simp only [fragmentHeader, List.length_cons, List.length_append, Bytes.length_bePut]
  rw [fragment, List.getElem?_append_right (by rw [length_unfragmentable hb]; omega),
    length_unfragmentable hb, List.getElem?_append_right (by omega), hheader]
  congr 1
  omega

end Bytes

/-! ## Verdicts -/

theorem ipProtocol_of_headers {packet : Bytes} {count : Nat} {b : Border}
    (hversion : (packet.getD 0 0).toNat / 16 = 6) (hlong : 40 ≤ packet.length)
    (h : Headers packet count fixedHeader b) {rounds : Nat} (hrounds : rounds + count = 16) :
    ipProtocol packet = walk packet rounds (packet.getD b.place 0) b.offset := by
  have hsix : packet.getD 0 0 >>> 4 = 6 := (version_eq_iff packet 6).mpr hversion
  have hfour : packet.getD 0 0 >>> 4 ≠ 4 := by
    rw [hsix]
    decide
  calc ipProtocol packet
      = ipv6UpperLayerProtocol packet := by
        rw [ipProtocol, if_neg (by omega), getElem?_eq_some_getD (by omega), Option.bind_eq_bind,
          Option.bind_some, if_neg hfour, if_pos hsix]
    _ = walk packet 16 (packet.getD 6 0) 40 := by
        rw [ipv6UpperLayerProtocol, if_neg (by omega), getElem?_eq_some_getD (by omega),
          Option.bind_eq_bind, Option.bind_some]
    _ = walk packet rounds (packet.getD b.place 0) b.offset := by
        rw [← hrounds]
        exact h.walk_eq rounds

/-- The filter classifies an IPv6 packet exactly if its headers lie inside of it. -/
theorem classified_iff {packet : Bytes} (hversion : (packet.getD 0 0).toNat / 16 = 6)
    (hlong : 40 ≤ packet.length) (protocol : UInt8) :
    ipProtocol packet = some (protocol, true) ↔
      ∃ count finish, count < 16 ∧ Headers packet count fixedHeader finish ∧
        ¬ Walked protocol ∧ packet.getD finish.place 0 = protocol := by
  rw [ipProtocol_of_headers hversion hlong (.none fixedHeader) (Nat.add_zero 16)]
  exact walk_classified_iff packet protocol 16 fixedHeader

theorem packetAllowed_of_none {protocols : List Bytes} (htcp : tcp ∉ protocols)
    (hudp : udp ∉ protocols) (packet : Bytes) : packetAllowed packet protocols = some false := by
  obtain ⟨⟨protocol, ok⟩, hresult, -⟩ :=
    ipProtocol_spec packet (Or.inl (Eq.refl (6 : UInt8)))
  cases ok with
  | false =>
      rw [packetAllowed, hresult]
      rfl
  | true =>
      rw [packetAllowed_of_protocol hresult, decide_eq_false]
      rintro (⟨-, hmem⟩ | ⟨-, hmem⟩)
      · exact htcp hmem
      · exact hudp hmem

theorem packetAllowed_congr {packet other : Bytes} (h : ipProtocol other = ipProtocol packet)
    (protocols : List Bytes) : packetAllowed other protocols = packetAllowed packet protocols := by
  rw [packetAllowed, packetAllowed, h]

namespace Whole

variable {packet : Bytes} {count rest : Nat} {b finish : Border}

theorem inside (h : Whole packet count rest b finish) : b.offset ≤ packet.length :=
  h.before.inside h.long

theorem border (h : Whole packet count rest b finish) : 6 ≤ b.place ∧ b.place < b.offset := by
  refine ⟨?_, h.before.place_lt (by decide)⟩
  rcases h.before.place_cases with hplace | hplace
  · exact hplace.ge
  · exact le_trans (by decide) hplace

theorem protocol_eq (h : Whole packet count rest b finish) :
    ipProtocol packet = some (packet.getD finish.place 0, true) := by
  have hfew := h.few
  have hcount : (16 - count) + count = 16 := by omega
  have hrest : 16 - count = (15 - count - rest + 1) + rest := by omega
  rw [ipProtocol_of_headers h.version h.long h.before hcount, hrest, h.after.walk_eq,
    walk_of_upper h.upper]

/-- In a fragment the walk reaches the data. -/
theorem fragment_protocol_eq (h : Whole packet count rest b finish) (id offset : Nat) (more : Bool)
    (data : Bytes) :
    ipProtocol (fragment packet b id offset more data) =
      walk (fragment packet b id offset more data) (15 - count) (packet.getD b.place 0)
        (b.offset + 8) := by
  have hfew := h.few
  have hb := h.inside
  obtain ⟨hplace, hlt⟩ := h.border
  have hfront : 40 ≤ b.offset := h.before.offset_le
  generalize hF : fragment packet b id offset more data = F
  have hlen : F.length = b.offset + 8 + data.length := by rw [← hF, length_fragment hb]
  have hbytes : ∀ i, i < b.offset → i ≠ 4 → i ≠ 5 → i ≠ b.place → F[i]? = packet[i]? := by
    intro i hi hfour hfive hne
    rw [← hF, getElem?_fragment_front hb id offset more data hi hfour hfive hne]
  have hversion : (F.getD 0 0).toNat / 16 = 6 := by
    rw [List.getD_eq_getElem?_getD, hbytes 0 (by omega) (by decide) (by decide) (by omega),
      ← List.getD_eq_getElem?_getD]
    exact h.version
  have hheaders : Headers F count fixedHeader b :=
    h.before.congr (by decide) (by decide) (by omega)
      fun i hi hlt hne => hbytes i hlt (by omega) (by omega) hne
  have hkind : F.getD b.place 0 = 44 := by
    rw [List.getD_eq_getElem?_getD, ← hF, getElem?_fragment_place hb id offset more data hplace hlt,
      Option.getD_some]
  have hhead : Extension F b.offset 44 (packet.getD b.place 0) 8 := by
    refine .fragment ?_
    rw [← hF, getElem?_fragment_next hb]
  have hrounds : (15 - count + 1) + count = 16 := by omega
  rw [ipProtocol_of_headers hversion (by omega) hheaders hrounds, hkind, walk,
    walkStep_of_extension hhead (by omega)]

/-- A fragment with all extension headers is classified as its packet. -/
theorem first_fragment (h : Whole packet count rest b finish) (id offset : Nat) (more : Bool)
    {j : Nat} (hj : finish.offset - b.offset ≤ j) (hend : b.offset + j ≤ packet.length) :
    ipProtocol (fragment packet b id offset more (Bytes.slice b.offset (b.offset + j) packet)) =
      ipProtocol packet := by
  have hfew := h.few
  have hb := h.inside
  have hle := h.after.offset_le
  rw [h.fragment_protocol_eq, h.protocol_eq]
  generalize hF :
    fragment packet b id offset more (Bytes.slice b.offset (b.offset + j) packet) = F
  have hlen : F.length = b.offset + 8 + j := by
    rw [← hF, length_fragment hb, Bytes.length_slice hend]
    omega
  have hbytes : ∀ i, b.offset ≤ i → i < finish.offset → F[i + 8]? = packet[i]? := by
    intro i hi hlt
    obtain ⟨k, rfl⟩ := Nat.exists_eq_add_of_le hi
    rw [Nat.add_right_comm, ← hF, getElem?_fragment_data hb, Bytes.slice, List.getElem?_drop,
      List.getElem?_take_of_lt (by omega)]
  have hkind : F.getD b.offset 0 = packet.getD b.place 0 := by
    rw [List.getD_eq_getElem?_getD, ← hF, getElem?_fragment_next hb, Option.getD_some]
  obtain ⟨place, hheaders, hplace⟩ := h.after.shift hkind (by omega) hbytes
  have hrounds : 15 - count = (14 - count - rest + 1) + rest := by omega
  rw [hrounds, ← hkind, hheaders.walk_eq, hplace, walk_of_upper h.upper]

/-- Every fragment is classified as its packet if no extension header is split off. -/
theorem upper_fragment (h : Whole packet count rest b finish)
    (hkind : ¬ Walked (packet.getD b.place 0)) (id offset : Nat) (more : Bool) (data : Bytes) :
    ipProtocol (fragment packet b id offset more data) = ipProtocol packet := by
  have hfew := h.few
  have hsame : finish = b := by
    cases h.after with
    | none => rfl
    | extension head => exact absurd head.kind hkind
  have hrounds : 15 - count = (14 - count) + 1 := by omega
  rw [h.fragment_protocol_eq, h.protocol_eq, hsame, hrounds, walk_of_upper hkind]

theorem split_header (h : Whole packet count rest b finish)
    (hkind : Walked (packet.getD b.place 0)) : 0 < rest ∧ b.offset + 8 ≤ finish.offset := by
  cases h.after with
  | none => exact absurd hkind h.upper
  | extension head inside tail =>
      exact ⟨Nat.succ_pos _, (Nat.add_le_add_left head.eight_le _).trans tail.offset_le⟩

/-- Behind an extension header the data of a later fragment is its verdict. -/
theorem crafted_fragment (h : Whole packet count rest b finish)
    (hkind : Walked (packet.getD b.place 0)) (id offset : Nat) (more : Bool) {protocol : UInt8}
    (hprotocol : ¬ Walked protocol) :
    ipProtocol (fragment packet b id offset more [protocol, 0, 0, 0, 0, 0, 0, 0]) =
      some (protocol, true) := by
  have hfew := h.few
  have hb := h.inside
  have hpos := (h.split_header hkind).1
  rw [h.fragment_protocol_eq]
  have hlen := length_fragment hb id offset more [protocol, 0, 0, 0, 0, 0, 0, 0]
  have hhead : Extension (fragment packet b id offset more [protocol, 0, 0, 0, 0, 0, 0, 0])
      (b.offset + 8) (packet.getD b.place 0) protocol 8 := by
    apply hkind.extension
    · exact getElem?_fragment_data hb id offset more _ 0
    · exact getElem?_fragment_data hb id offset more _ 1
  have hrounds : 15 - count = (13 - count + 1) + 1 := by omega
  rw [hrounds, walk, walkStep_of_extension hhead (by rw [hlen]; exact le_rfl)]
  exact walk_of_upper hprotocol _ _

end Whole

/-! ## All fragments of a packet -/

/-- The first place behind the extension headers where a packet may be cut. -/
def firstCut (b finish : Border) : Nat := (finish.offset - b.offset + 7) / 8 * 8

/-- A packet that ends before the first place to cut it is not split. -/
theorem Splitting.single {packet : Bytes} {b finish : Border} {pieces : List (Nat × Nat)}
    (h : Splitting packet b finish pieces) (hshort : packet.length ≤ b.offset + firstCut b finish) :
    pieces = [(0, packet.length - b.offset)] := by
  obtain ⟨hcuts, hfirst⟩ := h
  cases hcuts with
  | last => rfl
  | @more _ j rest hi hj hunit tail =>
      have hheaders := hfirst j List.mem_cons_self
      obtain ⟨k, rfl⟩ := hunit
      rw [firstCut] at hshort
      omega

/-- All splittings at a border give fragments that are treated like the packet,
whatever the data of the later ones, exactly if no extension header is split
off, or the packet is too short to be cut behind its headers, or no protocol is
allowed at all. -/
theorem fragments_alike_iff {packet : Bytes} {count rest : Nat} {b finish : Border}
    (h : Whole packet count rest b finish) (protocols : List Bytes) :
    (∀ id pieces, Splitting packet b finish pieces → ∀ piece ∈ pieces,
      packetAllowed (fragmentOf packet b id piece) protocols = packetAllowed packet protocols ∧
      (piece.1 ≠ 0 → ∀ data,
        packetAllowed (fragment packet b id piece.1 (piece.2 ≠ packet.length - b.offset) data)
            protocols =
          packetAllowed (fragmentOf packet b id piece) protocols)) ↔
    ¬ Walked (packet.getD b.place 0) ∨ packet.length ≤ b.offset + firstCut b finish ∨
      (tcp ∉ protocols ∧ udp ∉ protocols) := by
  have hb := h.inside
  constructor
  · intro halike
    by_contra hcondition
    simp only [not_or, not_not, not_le] at hcondition
    obtain ⟨hkind, hlong, hallowed⟩ := hcondition
    have hheader := (h.split_header hkind).2
    have hcut : 8 ∣ firstCut b finish := Nat.dvd_mul_left 8 _
    have hcover : finish.offset - b.offset ≤ firstCut b finish := by
      rw [firstCut]
      omega
    have hsplit : Splitting packet b finish
        [(0, firstCut b finish), (firstCut b finish, packet.length - b.offset)] := by
      refine ⟨.more (by omega) (by omega) hcut (.last (by omega)), ?_⟩
      intro j hj
      rcases List.mem_pair.mp hj with hj | hj
      · exact (Prod.mk.inj hj).2 ▸ hcover
      · have := (Prod.mk.inj hj).1
        omega
    have hsame := (halike 0 _ hsplit _ (List.mem_pair.mpr (Or.inr rfl))).2
      (by simp only; omega)
    -- a fragment may go on with any protocol, so that one verdict has to be given for all
    have hverdict : ∀ protocol, ¬ Walked protocol → ∀ other, ¬ Walked other →
        (Allows protocols protocol ↔ Allows protocols other) := by
      intro protocol hprotocol other hother
      have hequal := (hsame [protocol, 0, 0, 0, 0, 0, 0, 0]).trans
        (hsame [other, 0, 0, 0, 0, 0, 0, 0]).symm
      rw [packetAllowed_of_protocol (h.crafted_fragment hkind _ _ _ hprotocol),
        packetAllowed_of_protocol (h.crafted_fragment hkind _ _ _ hother)] at hequal
      exact decide_eq_decide.mp (Option.some.inj hequal)
    have hnone : ∀ protocol, ¬ Walked protocol → ¬ Allows protocols protocol := by
      intro protocol hprotocol hallows
      have := (hverdict protocol hprotocol 59 (by decide)).mp hallows
      simp [Allows] at this
    apply hallowed
    exact ⟨fun htcp => hnone 6 (by decide) (Or.inl ⟨rfl, htcp⟩),
      fun hudp => hnone 17 (by decide) (Or.inr ⟨rfl, hudp⟩)⟩
  · rintro (hkind | hshort | ⟨htcp, hudp⟩) id pieces hsplit piece hpiece
    · have hall := fun offset more data =>
        packetAllowed_congr (h.upper_fragment hkind id offset more data) protocols
      exact ⟨hall _ _ _, fun _ data => (hall _ _ data).trans (hall _ _ _).symm⟩
    · rw [hsplit.single hshort, List.mem_singleton] at hpiece
      subst hpiece
      have hheaders := h.after.inside hb
      refine ⟨packetAllowed_congr ?_ protocols, fun hne => absurd rfl hne⟩
      exact h.first_fragment id 0 _ (by omega) (by omega)
    · have hnone := packetAllowed_of_none htcp hudp
      exact ⟨(hnone _).trans (hnone _).symm, fun _ data => (hnone _).trans (hnone _).symm⟩

/-- A datagram behind Destination Options, with data that looks like headers. -/
def samplePacket : Bytes :=
  [96, 0, 0, 0, 0, 24, 60, 64] ++ (List.replicate 32 1 ++
    ([17, 0, 1, 4, 0, 0, 0, 0] ++ ([0, 53, 0, 53, 0, 16, 0, 0] ++ [6, 0, 0, 0, 0, 0, 0, 0])))

theorem samplePacket_options : Headers samplePacket 1 fixedHeader ⟨40, 48⟩ :=
  .extension (.options (Or.inr (Or.inr rfl)) rfl rfl) (by decide) (.none _)

theorem fragments_alike_iff_options_kept :
    Whole samplePacket 1 0 ⟨40, 48⟩ ⟨40, 48⟩ ∧
      ∀ id pieces, Splitting samplePacket ⟨40, 48⟩ ⟨40, 48⟩ pieces → ∀ piece ∈ pieces,
        packetAllowed (fragmentOf samplePacket ⟨40, 48⟩ id piece) [udp] =
          packetAllowed samplePacket [udp] := by
  have hwhole : Whole samplePacket 1 0 ⟨40, 48⟩ ⟨40, 48⟩ :=
    ⟨by decide, by decide, samplePacket_options, .none _, by decide, by decide⟩
  refine ⟨hwhole, fun id pieces hsplit piece hpiece => ?_⟩
  exact ((fragments_alike_iff hwhole [udp]).mpr (Or.inl (by decide)) id pieces hsplit piece
    hpiece).1

/-- The packet is allowed, its second fragment is not, and other data in its
place would be. -/
theorem options_split_off :
    Whole samplePacket 0 1 fixedHeader ⟨40, 48⟩ ∧
      Splitting samplePacket fixedHeader ⟨40, 48⟩ [(0, 8), (8, 24)] ∧
      packetAllowed samplePacket [udp] = some true ∧
      packetAllowed (fragmentOf samplePacket fixedHeader 7 (0, 8)) [udp] = some true ∧
      packetAllowed (fragmentOf samplePacket fixedHeader 7 (8, 24)) [udp] = some false ∧
      packetAllowed (fragment samplePacket fixedHeader 7 8 false
        ([17, 0, 0, 0, 0, 0, 0, 0] ++ [6, 0, 0, 0, 0, 0, 0, 0])) [udp] = some true := by
  refine ⟨⟨by decide, by decide, .none _, samplePacket_options, by decide, by decide⟩,
    ⟨.more (by decide) (by decide) (by decide) (.last (by decide)), ?_⟩, by decide +kernel,
    by decide +kernel, by decide +kernel, by decide +kernel⟩
  intro j hj
  rcases List.mem_pair.mp hj with hj | hj
  · rw [(Prod.mk.inj hj).2]
    decide
  · exact absurd (Prod.mk.inj hj).1 (by decide)

end UnknownTunnel.Tun

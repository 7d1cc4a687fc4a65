import UnknownTunnel.App.UdpNodes

/-!
# When forwarded UDP datagrams arrive whole

Assemblies are found by flow ID and datagram number. A datagram is joined from
its own fragments as long as no two datagrams with the same flow ID and number
are under way at a time. The counter of a flow object does not ensure that: it
starts again when a flow object is made anew under an old ID, while fragments
numbered by the old object are still kept by the peer.

## Implementation notes

All fragments with one flow ID and number that are still to be sent, on the
way, or kept by the peer belong to one datagram. That is the invariant, and
the condition on a run says that a call of `sendUDPDatagram` keeps it.
-/

namespace UnknownTunnel.App

open Foundation Transport

/-! ## Fragments -/

/-- The payload of a fragment of a datagram that is not too long. -/
def FragmentOf (data payload : Bytes) : Prop :=
  data.length ≤ maxUDPDatagram ∧ payload ∈ fragmentPayloads data

theorem FragmentOf.exists_part {data payload : Bytes} (h : FragmentOf data payload) :
    ∃ part, part < Pieces.pieceCount udpChunkSize data.length ∧
      Pieces.pieceCount udpChunkSize data.length ≤ 128 ∧ payload = fragmentPayload data part := by
  obtain ⟨hlen, hmem⟩ := h
  obtain ⟨part, hpart, rfl⟩ := List.mem_map.mp hmem
  refine ⟨part, List.mem_range.mp hpart, Pieces.pieceCount_le (by decide) (by decide) ?_, rfl⟩
  simp only [maxUDPDatagram, udpChunkSize] at hlen ⊢
  omega

theorem mem_messages {call : UdpCall} {m : UdpMessage} (h : m ∈ call.messages) :
    m.key = (call.flowID, call.datagramID) ∧ m.name = call.service ∧
      FragmentOf call.data m.payload := by
  unfold UdpCall.messages sendUDPDatagram at h
  split_ifs at h with hlen
  · cases h
  · obtain ⟨payload, hpayload, rfl⟩ := List.mem_map.mp h
    exact ⟨rfl, rfl, not_lt.mp hlen, hpayload⟩

section Header

variable (data : Bytes) (part : Nat)

theorem length_fragmentPayload : ¬ (fragmentPayload data part).length < 4 := by
  simp [fragmentPayload]
  omega

theorem part_fragmentPayload (h : part < 256 ^ 2) :
    Bytes.beGet (Bytes.slice 0 2 (fragmentPayload data part)) = part := by
  have hslice : Bytes.slice 0 2 ([] ++ fragmentPayload data part) = Bytes.bePut 2 part :=
    Bytes.slice_append _ rfl (by simp)
  rw [List.nil_append] at hslice
  rw [hslice, Bytes.beGet_bePut_of_lt h]

theorem total_fragmentPayload (h : Pieces.pieceCount udpChunkSize data.length < 256 ^ 2) :
    Bytes.beGet (Bytes.slice 2 4 (fragmentPayload data part)) =
      Pieces.pieceCount udpChunkSize data.length := by
  rw [fragmentPayload, Bytes.slice_append _ (by simp) (by simp), Bytes.beGet_bePut_of_lt h]

theorem drop_fragmentPayload :
    (fragmentPayload data part).drop 4 = Pieces.piece udpChunkSize data part := by
  rw [fragmentPayload, ← List.append_assoc]
  exact List.drop_left' (by simp)

end Header

/-! ## Assemblies -/

namespace UdpAssembly

/-- What holds of every assembly in the table. -/
structure Ok (a : UdpAssembly) : Prop where
  total : a.total = a.chunks.length
  received : a.received = Pieces.filled a.chunks
  incomplete : a.received < a.total

/-- The assembly holds fragments of one datagram only. -/
def Of (a : UdpAssembly) (data : Bytes) : Prop := Pieces.Holds udpChunkSize data a.chunks

theorem fresh_ok (now : Nat) (name : Bytes) {total : Nat} (h : 1 ≤ total) :
    (fresh now name total).Ok := by
  constructor
  · simp [fresh]
  · simp [fresh, Pieces.filled_replicate]
  · exact h

theorem fresh_of (now : Nat) (name : Bytes) (data : Bytes) :
    (fresh now name (Pieces.pieceCount udpChunkSize data.length)).Of data :=
  Pieces.holds_replicate udpChunkSize data

theorem put_of_vacant {a : UdpAssembly} {part : Nat} (h : a.chunks[part]? = some [])
    (name : Bytes) (chunk : Bytes) :
    (a.put name part chunk).chunks = a.chunks.set part chunk ∧
      (a.put name part chunk).received = a.received + 1 ∧
      (a.put name part chunk).total = a.total := by
  simp only [put, h, if_true]
  split <;> simp

theorem put_of_filled {a : UdpAssembly} {part : Nat} (h : a.chunks[part]? ≠ some [])
    (name : Bytes) (chunk : Bytes) :
    (a.put name part chunk).chunks = a.chunks ∧
      (a.put name part chunk).received = a.received ∧
      (a.put name part chunk).total = a.total := by
  simp only [put, h, if_false]
  split <;> exact ⟨rfl, rfl, rfl⟩

/-- A fragment of the datagram that an assembly is for completes it to that
datagram or leaves it incomplete. -/
theorem put_fragment {a : UdpAssembly} {data : Bytes} (hok : a.Ok) (hof : a.Of data)
    (name : Bytes) (part : Nat) (hpart : part < Pieces.pieceCount udpChunkSize data.length) :
    let b := a.put name part (Pieces.piece udpChunkSize data part)
    b.Of data ∧ (b.received = b.total → b.chunks.flatten = data) ∧
      (b.received ≠ b.total → b.Ok) := by
  intro b
  by_cases hvacant : a.chunks[part]? = some []
  · obtain ⟨hchunks, hreceived, htotal⟩ :=
      put_of_vacant hvacant name (Pieces.piece udpChunkSize data part)
    have hof' : b.Of data := by
      unfold Of
      rw [hchunks]
      exact Pieces.Holds.set hof part
    have hlength : b.total = b.chunks.length := by
      rw [htotal, hchunks, List.length_set, hok.total]
    rcases eq_or_ne data [] with hnil | hdata
    · -- The only chunk is empty, so it counts as received and stays vacant.
      subst hnil
      have hone : a.total = 1 := by rw [hok.total, hof.length]; rfl
      refine ⟨hof', fun _ => hof'.flatten_nil, fun hne => absurd ?_ hne⟩
      have := hok.incomplete
      rw [hreceived, htotal]
      omega
    · have hfilled : b.received = Pieces.filled b.chunks := by
        rw [hreceived, hchunks, hok.received,
          Pieces.filled_set hvacant (Pieces.piece_ne_nil (by decide) hdata hpart)]
      refine ⟨hof', fun heq => ?_, fun hne => ⟨hlength, hfilled, ?_⟩⟩
      · apply hof'.flatten_of_filled (by decide)
        rw [← hfilled, heq, hlength]
      · have := Pieces.filled_le b.chunks
        omega
  · obtain ⟨hchunks, hreceived, htotal⟩ :=
      put_of_filled hvacant name (Pieces.piece udpChunkSize data part)
    have hlt : b.received < b.total := by
      rw [hreceived, htotal]
      exact hok.incomplete
    refine ⟨?_, fun heq => absurd heq hlt.ne, fun _ => ⟨?_, ?_, hlt⟩⟩
    · unfold Of
      rw [hchunks]
      exact hof
    · rw [htotal, hchunks, hok.total]
    · rw [hreceived, hchunks, hok.received]

end UdpAssembly

theorem lookup_storeChunk_of_ne {m : UdpMessage} {key : Nat × Nat} (hne : key ≠ m.key)
    (part : Nat) (a : UdpAssembly) (assemblies : Assemblies) :
    Finmap.lookup key (storeChunk m part a assemblies).1 = Finmap.lookup key assemblies := by
  simp only [storeChunk]
  split <;> simp [hne]

/-- A message touches only the assembly of its own key. -/
theorem lookup_handleUDPChunk_of_ne {m : UdpMessage} {key : Nat × Nat} (hne : key ≠ m.key)
    (now : Nat) (assemblies : Assemblies) :
    Finmap.lookup key (handleUDPChunk now m assemblies).1 = Finmap.lookup key assemblies := by
  unfold handleUDPChunk
  split
  · rfl
  · simp only
    split
    · rfl
    · split
      · split
        · rfl
        · exact lookup_storeChunk_of_ne hne _ _ _
      · split
        · simp [hne]
        · exact lookup_storeChunk_of_ne hne _ _ _

/-- What a table keeps and passes on when a fragment of the datagram of its
assembly is handled. -/
structure KeepsTo (data : Bytes) (key : Nat × Nat)
    (result : Assemblies × Option (Bytes × Bytes)) : Prop where
  kept : ∀ a, Finmap.lookup key result.1 = some a → a.Ok ∧ a.Of data
  passed : ∀ service whole, result.2 = some (service, whole) → whole = data

theorem storeChunk_fragment {m : UdpMessage} {data : Bytes} {part : Nat} {a : UdpAssembly}
    (assemblies : Assemblies) (hok : a.Ok) (hof : a.Of data)
    (hpart : part < Pieces.pieceCount udpChunkSize data.length)
    (hchunk : m.payload.drop 4 = Pieces.piece udpChunkSize data part) :
    KeepsTo data m.key (storeChunk m part a assemblies) := by
  obtain ⟨hof', hcomplete, hincomplete⟩ := UdpAssembly.put_fragment hok hof m.name part hpart
  unfold storeChunk
  rw [hchunk]
  simp only
  split
  · rename_i hne
    constructor
    · intro b hb
      obtain rfl : _ = b := by simpa using hb
      exact ⟨hincomplete hne, hof'⟩
    · intro service whole hwhole
      cases hwhole
  · rename_i heq
    constructor
    · intro b hb
      simp at hb
    · intro service whole hwhole
      unfold UdpAssembly.joined at hwhole
      split at hwhole
      · cases hwhole
      · cases hwhole
        exact hcomplete (not_not.mp heq)

theorem handleUDPChunk_fragment {m : UdpMessage} {data : Bytes} (now : Nat)
    {assemblies : Assemblies} (hm : FragmentOf data m.payload)
    (hkept : ∀ a, Finmap.lookup m.key assemblies = some a → a.Ok ∧ a.Of data) :
    KeepsTo data m.key (handleUDPChunk now m assemblies) := by
  obtain ⟨part, hpart, hcount, hpayload⟩ := hm.exists_part
  have hunchanged : KeepsTo data m.key (assemblies, none) := ⟨hkept, nofun⟩
  have hchunk : m.payload.drop 4 = Pieces.piece udpChunkSize data part := by
    rw [hpayload, drop_fragmentPayload]
  have hone := Pieces.one_le_pieceCount udpChunkSize data.length
  unfold handleUDPChunk
  rw [if_neg (hpayload ▸ length_fragmentPayload data part)]
  simp only [hpayload ▸ part_fragmentPayload data part (by omega),
    hpayload ▸ total_fragmentPayload data part (by omega)]
  rw [if_neg (by omega)]
  split
  · split
    · exact hunchanged
    · exact storeChunk_fragment assemblies (UdpAssembly.fresh_ok now m.name hone)
        (UdpAssembly.fresh_of now m.name data) hpart hchunk
  · rename_i a ha
    obtain ⟨hok, hof⟩ := hkept a ha
    have htotal : a.total = Pieces.pieceCount udpChunkSize data.length := by
      rw [hok.total, hof.length]
    rw [if_neg (not_not.mpr htotal)]
    exact storeChunk_fragment assemblies hok hof hpart hchunk

/-! ## What leaves the assemblies alone -/

namespace UdpNode

variable {node : UdpNode}

@[simp] theorem assemblies_deleteRemoteUDP (flowID object : Nat) :
    (node.deleteRemoteUDP flowID object).assemblies = node.assemblies := by
  unfold deleteRemoteUDP
  split <;> rfl

@[simp] theorem assemblies_writeRemote (io : DatagramIO) (now flowID object : Nat) :
    (node.writeRemote io now flowID object).assemblies = node.assemblies := by
  simp only [writeRemote]
  split <;> simp

@[simp] theorem assemblies_handleUDPDatagram (services : Bytes → Bool) (io : DatagramIO)
    (now flowID : Nat) (service : Bytes) :
    (node.handleUDPDatagram services io now flowID service).assemblies = node.assemblies := by
  unfold handleUDPDatagram
  split
  · rfl
  · split
    · simp
    · split
      · rfl
      · split <;> simp

theorem assemblies_readEntry {key service : Bytes} {draws : List Nat} {now : Nat} {data : Bytes}
    {read : UdpNode × UdpCall} (h : node.readEntry key service draws now data = some read) :
    read.1.assemblies = node.assemblies := by
  obtain ⟨found, -, rfl⟩ := Option.map_eq_some_iff.mp h
  rfl

theorem assemblies_readRemote {object now : Nat} {data : Bytes} {read : UdpNode × UdpCall}
    (h : node.readRemote object now data = some read) :
    read.1.assemblies = node.assemblies := by
  obtain ⟨found, -, rfl⟩ := Option.map_eq_some_iff.mp h
  rfl

end UdpNode

/-! ## Fragments under way -/

namespace UdpNodes

/-- The messages of a node that are still to be sent or on the way. -/
def pending (N : UdpNodes) (X : Side) : List UdpMessage := (N.calls X).flatten ++ N.wire X.peer

/-- Everything under way or kept with a flow ID and number of node `X` belongs
to one datagram. -/
structure OnlyOf (N : UdpNodes) (X : Side) (key : Nat × Nat) (data : Bytes) : Prop where
  pending : ∀ m ∈ N.pending X, m.key = key → FragmentOf data m.payload
  kept : ∀ a, Finmap.lookup key (N.node X.peer).assemblies = some a → a.Of data

/-- Something is under way or kept with a flow ID and number. -/
def Live (N : UdpNodes) (X : Side) (key : Nat × Nat) : Prop :=
  (∃ m ∈ N.pending X, m.key = key) ∨
    ∃ a, Finmap.lookup key (N.node X.peer).assemblies = some a

/-- A call of `sendUDPDatagram` finds no fragment of another datagram with its
flow ID and number still to be sent, on the way, or kept by the peer. -/
def Unmixed (N : UdpNodes) (e : UdpNodesEvent) : Prop :=
  ∀ X node call, N.call e = some (X, node, call) →
    N.OnlyOf X (call.flowID, call.datagramID) call.data

structure Whole (N : UdpNodes) : Prop where
  kept : ∀ X key a, Finmap.lookup key (N.node X).assemblies = some a → a.Ok
  origin : ∀ X key, ∃ data, N.OnlyOf X key data ∧ (N.Live X key → (key.1, data) ∈ N.sent X)
  passed : ∀ X, ∀ datagram ∈ N.passed X, datagram ∈ N.sent X.peer

theorem whole_start : start.Whole := by
  refine ⟨?_, ?_, ?_⟩
  · intro X key a h
    simp [start] at h
  · intro X key
    refine ⟨[], ⟨?_, ?_⟩, ?_⟩
    · intro m hm
      simp [pending, start] at hm
    · intro a h
      simp [start] at h
    · simp [Live, pending, start]
  · intro X datagram h
    simp [start] at h

/-- A step that begins no call and passes nothing on. -/
structure Shrinks (N N' : UdpNodes) : Prop where
  pending : ∀ X, N'.pending X ⊆ N.pending X
  kept : ∀ X key a, Finmap.lookup key (N'.node X).assemblies = some a →
    Finmap.lookup key (N.node X).assemblies = some a
  sent : N'.sent = N.sent
  passed : N'.passed = N.passed

variable {N N' : UdpNodes}

theorem Whole.shrink (h : N.Whole) (hstep : Shrinks N N') : N'.Whole := by
  refine ⟨?_, ?_, ?_⟩
  · intro X key a ha
    exact h.kept X key a (hstep.kept X key a ha)
  · intro X key
    obtain ⟨data, honly, hsent⟩ := h.origin X key
    refine ⟨data, ⟨?_, ?_⟩, ?_⟩
    · intro m hm hkey
      exact honly.pending m (hstep.pending X hm) hkey
    · intro a ha
      exact honly.kept a (hstep.kept _ _ _ ha)
    · intro hlive
      rw [hstep.sent]
      apply hsent
      rcases hlive with ⟨m, hm, hkey⟩ | ⟨a, ha⟩
      · exact .inl ⟨m, hstep.pending X hm, hkey⟩
      · exact .inr ⟨a, hstep.kept _ _ _ ha⟩
  · rw [hstep.sent, hstep.passed]
    exact h.passed

theorem Shrinks.refl (N : UdpNodes) : Shrinks N N :=
  ⟨fun _ => List.Subset.refl _, fun _ _ _ h => h, rfl, rfl⟩

/-- A step that changes one node only, and in it drops assemblies at most. -/
theorem shrinks_node (X : Side) {node : UdpNode}
    (h : ∀ key a, Finmap.lookup key node.assemblies = some a →
      Finmap.lookup key (N.node X).assemblies = some a) :
    Shrinks N { N with node := Function.update N.node X node } := by
  refine ⟨fun _ => List.Subset.refl _, ?_, rfl, rfl⟩
  intro Y key a ha
  by_cases hY : Y = X
  · subst hY
    simp only [Function.update_self] at ha
    exact h key a ha
  · simpa [hY] using ha

/-- A step that changes only what is on the way to one node. -/
theorem shrinks_wire (X : Side) {wire : List UdpMessage} (h : wire ⊆ N.wire X) :
    Shrinks N { N with wire := Function.update N.wire X wire } := by
  refine ⟨?_, fun _ _ _ ha => ha, rfl, rfl⟩
  intro Y m hm
  simp only [pending, List.mem_append] at hm ⊢
  refine hm.imp_right fun hwire => ?_
  by_cases hY : Y.peer = X
  · subst hY
    simp only [Function.update_self] at hwire
    exact h hwire
  · simpa [hY] using hwire

theorem shrinks_sendNext (X : Side) (call : Nat) (sent : Bool) :
    Shrinks N (N.sendNext X call sent) := by
  unfold sendNext
  split
  · rename_i m rest hcall
    have hmem : m :: rest ∈ N.calls X := List.mem_of_getElem? hcall
    have hset (left : List UdpMessage) (hleft : left ⊆ m :: rest) :
        ((N.calls X).set call left).flatten ⊆ (N.calls X).flatten := by
      intro m' hm'
      obtain ⟨messages, hmessages, hin⟩ := List.mem_flatten.mp hm'
      rcases List.mem_or_eq_of_mem_set hmessages with hold | rfl
      · exact List.mem_flatten.mpr ⟨messages, hold, hin⟩
      · exact List.mem_flatten.mpr ⟨m :: rest, hmem, hleft hin⟩
    split
    · refine ⟨?_, fun _ _ _ ha => ha, rfl, rfl⟩
      intro Y m' hm'
      simp only [pending, List.mem_append] at hm' ⊢
      by_cases hY : Y = X
      · subst hY
        simp only [Function.update_self, List.mem_append, List.mem_singleton] at hm'
        rcases hm' with hold | hold | rfl
        · exact .inl (hset rest (List.subset_cons_self m rest) hold)
        · exact .inr hold
        · exact .inl (List.mem_flatten.mpr ⟨m' :: rest, hmem, List.mem_cons_self⟩)
      · have hpeer : Y.peer ≠ X.peer := fun heq => hY (by simpa using congrArg Side.peer heq)
        simpa [hY, hpeer] using hm'
    · refine ⟨?_, fun _ _ _ ha => ha, rfl, rfl⟩
      intro Y m' hm'
      simp only [pending, List.mem_append] at hm' ⊢
      refine hm'.imp_left fun hold => ?_
      by_cases hY : Y = X
      · subst hY
        simp only [Function.update_self] at hold
        exact hset [] (List.nil_subset _) hold
      · simpa [hY] using hold
  · exact .refl N

/-! ## The steps -/

/-- The messages of a new call are the only ones it adds. -/
theorem mem_pending_begin {X Y : Side} {node : UdpNode} {call : UdpCall} {m : UdpMessage}
    (h : m ∈ (N.begin X node call).pending Y) :
    m ∈ N.pending Y ∨ Y = X ∧ m ∈ call.messages := by
  by_cases hY : Y = X
  · subst hY
    simp only [pending, begin, Function.update_self, List.flatten_append, List.flatten_singleton,
      List.mem_append] at h ⊢
    tauto
  · exact .inl (by simpa [pending, begin, hY] using h)

theorem assemblies_begin {X : Side} {node : UdpNode} {call : UdpCall}
    (hnode : node.assemblies = (N.node X).assemblies) (Y : Side) :
    ((N.begin X node call).node Y).assemblies = (N.node Y).assemblies := by
  by_cases hY : Y = X
  · subst hY
    simpa [begin] using hnode
  · simp [begin, hY]

theorem sent_begin (X Y : Side) (node : UdpNode) (call : UdpCall) :
    N.sent Y ⊆ (N.begin X node call).sent Y := by
  by_cases hY : Y = X
  · subst hY
    simp [begin]
  · simp [begin, hY]

theorem Whole.begin (h : N.Whole) {X : Side} {node : UdpNode} {call : UdpCall}
    (hnode : node.assemblies = (N.node X).assemblies)
    (honly : N.OnlyOf X (call.flowID, call.datagramID) call.data) :
    (N.begin X node call).Whole := by
  refine ⟨?_, ?_, ?_⟩
  · intro Y key a ha
    rw [assemblies_begin hnode] at ha
    exact h.kept Y key a ha
  · intro Y key
    by_cases hnew : Y = X ∧ key = (call.flowID, call.datagramID)
    · obtain ⟨rfl, rfl⟩ := hnew
      refine ⟨call.data, ⟨?_, ?_⟩, ?_⟩
      · intro m hm hkey
        rcases mem_pending_begin hm with hold | ⟨-, hsend⟩
        · exact honly.pending m hold hkey
        · exact (mem_messages hsend).2.2
      · intro a ha
        rw [assemblies_begin hnode] at ha
        exact honly.kept a ha
      · intro _
        simp [UdpNodes.begin]
    · -- The call's messages have another key or another sender.
      have hold {m : UdpMessage} (hm : m ∈ (N.begin X node call).pending Y)
          (hkey : m.key = key) : m ∈ N.pending Y := by
        rcases mem_pending_begin hm with hold | ⟨hY, hsend⟩
        · exact hold
        · exact absurd ⟨hY, hkey ▸ (mem_messages hsend).1⟩ hnew
      obtain ⟨data, hdata, hsent⟩ := h.origin Y key
      refine ⟨data, ⟨?_, ?_⟩, ?_⟩
      · intro m hm hkey
        exact hdata.pending m (hold hm hkey) hkey
      · intro a ha
        rw [assemblies_begin hnode] at ha
        exact hdata.kept a ha
      · rintro (⟨m, hm, hkey⟩ | ⟨a, ha⟩)
        · exact sent_begin X Y node call (hsent (.inl ⟨m, hold hm hkey, hkey⟩))
        · rw [assemblies_begin hnode] at ha
          exact sent_begin X Y node call (hsent (.inr ⟨a, ha⟩))
  · intro Y datagram hmem
    exact sent_begin X Y.peer node call (h.passed Y datagram hmem)

/-- A step in which a node handles a message. -/
structure Collects (N N' : UdpNodes) (X : Side) (m : UdpMessage) (now : Nat) : Prop where
  pending : ∀ Y, N'.pending Y ⊆ N.pending Y
  kept : (N'.node X).assemblies = (handleUDPChunk now m (N.node X).assemblies).1
  others : ∀ Y, Y ≠ X → (N'.node Y).assemblies = (N.node Y).assemblies
  sent : N'.sent = N.sent
  passed : ∀ Y, ∀ datagram ∈ N'.passed Y, datagram ∈ N.passed Y ∨ Y = X ∧
    ∃ service whole, (handleUDPChunk now m (N.node X).assemblies).2 = some (service, whole) ∧
      datagram = (m.connID, whole)

theorem collects_handle (services : Side → Bytes → Bool) {X : Side} {i : Nat} {m : UdpMessage}
    (hm : (N.wire X)[i]? = some m) (now : Nat) (io : DatagramIO) :
    Collects N (N.handle services X i now io) X m now := by
  have hpending := (shrinks_wire (N := N) X (List.eraseIdx_subset (l := N.wire X) (k := i))).pending
  simp only [UdpNodes.handle, hm]
  split
  · refine ⟨hpending, by simp, ?_, rfl, fun Y datagram h => .inl h⟩
    intro Y hY
    simp [hY]
  · rename_i service whole hwhole
    refine ⟨hpending, by simp, ?_, rfl, ?_⟩
    · intro Y hY
      simp [hY]
    · intro Y datagram h
      by_cases hY : Y = X
      · subst hY
        simp only [Function.update_self, List.mem_append, List.mem_singleton] at h
        exact h.imp_right fun heq => ⟨rfl, service, whole, hwhole, heq⟩
      · exact .inl (by simpa [hY] using h)

theorem Whole.collect (h : N.Whole) {X : Side} {m : UdpMessage} {now : Nat}
    (hm : m ∈ N.wire X) (hstep : Collects N N' X m now) : N'.Whole := by
  have hmem : m ∈ N.pending X.peer := by simp [pending, hm]
  obtain ⟨data, honly, hsent⟩ := h.origin X.peer m.key
  have horigin : (m.connID, data) ∈ N.sent X.peer := hsent (.inl ⟨m, hmem, rfl⟩)
  have hkeeps : KeepsTo data m.key (handleUDPChunk now m (N.node X).assemblies) := by
    apply handleUDPChunk_fragment now (honly.pending m hmem rfl)
    intro a ha
    exact ⟨h.kept X m.key a ha, honly.kept a (by simpa using ha)⟩
  -- Away from the key of the message nothing changes in the assemblies.
  have hsame {Y : Side} {key : Nat × Nat} (hne : ¬ (Y = X ∧ key = m.key)) :
      Finmap.lookup key (N'.node Y).assemblies = Finmap.lookup key (N.node Y).assemblies := by
    by_cases hY : Y = X
    · subst hY
      rw [hstep.kept]
      exact lookup_handleUDPChunk_of_ne (fun hkey => hne ⟨rfl, hkey⟩) now _
    · rw [hstep.others Y hY]
  refine ⟨?_, ?_, ?_⟩
  · intro Y key a ha
    by_cases hkey : Y = X ∧ key = m.key
    · obtain ⟨rfl, rfl⟩ := hkey
      rw [hstep.kept] at ha
      exact (hkeeps.kept a ha).1
    · rw [hsame hkey] at ha
      exact h.kept Y key a ha
  · intro Y key
    rw [hstep.sent]
    by_cases hkey : Y.peer = X ∧ key = m.key
    · obtain ⟨rfl, rfl⟩ := hkey
      rw [Side.peer_peer] at honly horigin
      refine ⟨data, ⟨?_, ?_⟩, fun _ => horigin⟩
      · intro m' hm' hkey
        exact honly.pending m' (hstep.pending Y hm') hkey
      · intro a ha
        rw [hstep.kept] at ha
        exact (hkeeps.kept a ha).2
    · obtain ⟨data', honly', hsent'⟩ := h.origin Y key
      refine ⟨data', ⟨?_, ?_⟩, ?_⟩
      · intro m' hm' hkey'
        exact honly'.pending m' (hstep.pending Y hm') hkey'
      · intro a ha
        rw [hsame hkey] at ha
        exact honly'.kept a ha
      · rintro (⟨m', hm', hkey'⟩ | ⟨a, ha⟩)
        · exact hsent' (.inl ⟨m', hstep.pending Y hm', hkey'⟩)
        · rw [hsame hkey] at ha
          exact hsent' (.inr ⟨a, ha⟩)
  · intro Y datagram hpassed
    rw [hstep.sent]
    rcases hstep.passed Y datagram hpassed with hold | ⟨rfl, service, whole, hwhole, rfl⟩
    · exact h.passed Y datagram hold
    · rw [hkeeps.passed service whole hwhole]
      exact horigin

theorem assemblies_call {e : UdpNodesEvent} {X : Side} {node : UdpNode} {call : UdpCall}
    (h : N.call e = some (X, node, call)) : node.assemblies = (N.node X).assemblies := by
  cases e with
  | entryRead Y key service draws now data =>
      obtain ⟨read, hread, heq⟩ := Option.map_eq_some_iff.mp h
      cases heq
      exact UdpNode.assemblies_readEntry hread
  | remoteRead Y object now data =>
      obtain ⟨read, hread, heq⟩ := Option.map_eq_some_iff.mp h
      cases heq
      exact UdpNode.assemblies_readRemote hread
  | _ => cases h

theorem Whole.apply (h : N.Whole) (services : Side → Bytes → Bool) {e : UdpNodesEvent}
    (hok : N.Unmixed e) : (N.apply services e).Whole := by
  unfold UdpNodes.apply
  split
  · rename_i X node call hcall
    exact h.begin (assemblies_call hcall) (hok X node call hcall)
  · cases e with
    | remoteError X object =>
        simp only
        split
        · exact h.shrink (shrinks_node X fun key a ha => by simpa using ha)
        · exact h
    | send X call sent => exact h.shrink (shrinks_sendNext X call sent)
    | lose X i => exact h.shrink (shrinks_wire X List.eraseIdx_subset)
    | duplicate X i =>
        apply h.shrink (shrinks_wire X _)
        intro m hm
        rcases List.mem_append.mp hm with hold | hcopy
        · exact hold
        · exact List.mem_of_getElem? (Option.mem_toList.mp hcopy)
    | deliver X i now io =>
        cases hm : (N.wire X)[i]? with
        | none => simpa only [UdpNodes.handle, hm] using h
        | some m => exact h.collect (List.mem_of_getElem? hm) (collects_handle services hm now io)
    | cleanup X now =>
        refine h.shrink (shrinks_node X fun key a ha => ?_)
        exact (Table.lookup_filter.mp ha).1
    | _ => exact h

theorem whole_of_reachable {services : Side → Bytes → Bool}
    (run : (udpNodesMachine services).ReachableUnder Unmixed N) : N.Whole := by
  induction run with
  | start h =>
      cases h
      exact whole_start
  | next _ _ hok ih => exact ih.apply services hok

/-! ## Two runs -/

/-- The state after a list of events. -/
def after (services : Side → Bytes → Bool) (events : List UdpNodesEvent) : UdpNodes :=
  events.foldl (apply services) start

/-- Nothing is under way before the first step. -/
theorem unmixed_start (e : UdpNodesEvent) : start.Unmixed e := by
  intro X node call _
  constructor
  · intro m hm
    simp [pending, start] at hm
  · intro a ha
    simp [start] at ha

theorem unmixed_of_call_eq_none {e : UdpNodesEvent} (h : N.call e = none) : N.Unmixed e := by
  intro X node call hcall
  rw [h] at hcall
  cases hcall

/-- A client's datagram of one byte reaches the service. -/
def oneDatagram : List UdpNodesEvent :=
  [.entryRead .client (ofString "client") (ofString "service") [1] 0 [7], .send .client 0 true,
    .deliver .server 0 0 ⟨true, true⟩]

theorem oneDatagram_reachable (services : Side → Bytes → Bool) :
    (udpNodesMachine services).ReachableUnder Unmixed (after services oneDatagram) := by
  refine Machine.ReachableUnder.run (.start rfl) oneDatagram ⟨?_, unmixed_start _, trivial, ?_⟩
  · change [7].length ≤ maxUDPDatagram
    decide
  · exact ⟨unmixed_of_call_eq_none rfl, trivial, unmixed_of_call_eq_none rfl, trivial⟩

/-- A reply of two fragments loses its second one to a failed send. A write
error then ends the server's flow, the next datagram makes a new one, and its
first reply has two fragments again. -/
def remadeFlow : List UdpNodesEvent :=
  [.entryRead .client (ofString "client") (ofString "service") [1] 0 [0], .send .client 0 true,
    .deliver .server 0 0 ⟨true, true⟩,
    .remoteRead .server 0 0 (List.replicate 1201 1), .send .server 0 true, .send .server 0 false,
    .deliver .client 0 0 ⟨true, true⟩,
    .entryRead .client (ofString "client") (ofString "service") [] 0 [0], .send .client 1 true,
    .deliver .server 0 0 ⟨true, false⟩,
    .entryRead .client (ofString "client") (ofString "service") [] 0 [0], .send .client 2 true,
    .deliver .server 0 0 ⟨true, true⟩,
    .remoteRead .server 1 0 (List.replicate 1201 2), .send .server 1 true, .send .server 1 true,
    .deliver .client 0 0 ⟨true, true⟩, .deliver .client 0 0 ⟨true, true⟩]

theorem reachable_after {services : Side → Bytes → Bool} {events : List UdpNodesEvent}
    (h : ∀ e ∈ events, ∀ N : UdpNodes, N.enabled e) :
    (udpNodesMachine services).Reachable (after services events) := by
  refine Machine.ReachableUnder.run (.start rfl) events ?_
  generalize start = N
  induction events generalizing N with
  | nil => trivial
  | cons e rest ih =>
      refine ⟨h e List.mem_cons_self N, trivial, ih (fun e' he' => ?_) _⟩
      exact h e' (List.mem_cons_of_mem e he')

end UdpNodes

/-- If no call of `sendUDPDatagram` finds fragments of another datagram under
its flow ID and number, every datagram a node passes on is one that its peer
was given for that flow. -/
theorem udp_datagrams_passed_whole (services : Side → Bytes → Bool) {N : UdpNodes}
    (run : (udpNodesMachine services).ReachableUnder UdpNodes.Unmixed N) (X : Side)
    (flowID : Nat) (data : Bytes) (h : (flowID, data) ∈ N.passed X) :
    (flowID, data) ∈ N.sent X.peer :=
  (UdpNodes.whole_of_reachable run).passed X (flowID, data) h

theorem udp_datagrams_passed_whole_one :
    (1, [7]) ∈ (UdpNodes.after (fun _ _ => true) UdpNodes.oneDatagram).passed .server ∧
      (1, [7]) ∈ (UdpNodes.after (fun _ _ => true) UdpNodes.oneDatagram).sent .client := by
  have hpassed :
      (1, [7]) ∈ (UdpNodes.after (fun _ _ => true) UdpNodes.oneDatagram).passed .server := by
    decide +kernel
  exact ⟨hpassed, udp_datagrams_passed_whole _ (UdpNodes.oneDatagram_reachable _) .server 1 [7]
    hpassed⟩

/-- Both replies have number 1 of flow 1. The client joins the first fragment
of the one and the second fragment of the other. -/
theorem udp_remade_flow_mixes_datagrams :
    ∃ services N, (udpNodesMachine services).Reachable N ∧
      (1, List.replicate 1200 1 ++ [2]) ∈ N.passed .client ∧
      (1, List.replicate 1200 1 ++ [2]) ∉ N.sent .server := by
  refine ⟨fun _ _ => true, UdpNodes.after _ UdpNodes.remadeFlow, UdpNodes.reachable_after ?_,
    by decide +kernel, by decide +kernel⟩
  simp [-List.reduceReplicate, UdpNodes.remadeFlow, UdpNodes.enabled, maxUDPDatagram]

end UnknownTunnel.App

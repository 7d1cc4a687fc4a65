import UnknownTunnel.App.Reassembly

/-!
# Cutting a datagram and joining it again

The fragments of a datagram arrive in any order, among messages of other
datagrams. With room for its assembly the peer passes the datagram on exactly
once, with the last fragment that was missing, and forgets the assembly.

## Implementation notes

The table is followed for one key. Messages of other keys do not touch its
assembly, and the fragments that have arrived determine it.
-/

namespace UnknownTunnel.App

open Foundation

/-- A message with the time of its arrival. -/
abbrev UdpArrival := Nat × UdpMessage

/-- The table after a sequence of messages. -/
def collect (assemblies : Assemblies) (arrivals : List UdpArrival) : Assemblies :=
  arrivals.foldl (fun assemblies arrival => (handleUDPChunk arrival.1 arrival.2 assemblies).1)
    assemblies

/-- The calls of `handleUDPDatagram` that messages of a key lead to. -/
def passedOn (key : Nat × Nat) (assemblies : Assemblies) :
    List UdpArrival → List (Bytes × Bytes)
  | [] => []
  | (now, m) :: rest =>
      (if m.key = key then (handleUDPChunk now m assemblies).2.toList else []) ++
        passedOn key (handleUDPChunk now m assemblies).1 rest

/-- The messages of a key. -/
def ofKey (key : Nat × Nat) (arrivals : List UdpArrival) : List UdpMessage :=
  (arrivals.map Prod.snd).filter fun m => m.key = key

/-- The first message of a key finds fewer assemblies than the limit. -/
def HasRoom (key : Nat × Nat) (assemblies : Assemblies) (arrivals : List UdpArrival) : Prop :=
  ∀ earlier arrival later, arrivals = earlier ++ arrival :: later → arrival.2.key = key →
    (∀ other ∈ earlier, other.2.key ≠ key) → (collect assemblies earlier).size < maxUDPAssemblies

namespace UdpCall

variable (call : UdpCall)

def key : Nat × Nat := (call.flowID, call.datagramID)

def count : Nat := Pieces.pieceCount udpChunkSize call.data.length

def piece (part : Nat) : Bytes := Pieces.piece udpChunkSize call.data part

/-- The message with a part of the datagram. -/
def fragment (part : Nat) : UdpMessage where
  connID := call.flowID
  seq := call.datagramID
  name := call.service
  payload := fragmentPayload call.data part

/-- The parts with their data. -/
def pieces (parts : List Nat) : List (Nat × Bytes) := parts.map fun part => (part, call.piece part)

/-- The assembly of the datagram after some of its parts. -/
def Underway (parts : List Nat) (assemblies : Assemblies) : Prop :=
  if parts = [] ∨ parts.length = call.count then Finmap.lookup call.key assemblies = none
  else ∃ a, Finmap.lookup call.key assemblies = some a ∧ a.total = call.count ∧
    a.name = call.service ∧ a.Collected (call.pieces parts)

variable {call}

theorem sendUDPDatagram_eq (hlen : call.data.length ≤ maxUDPDatagram) :
    sendUDPDatagram call = .ok ((List.range call.count).map call.fragment) := by
  rw [sendUDPDatagram, fragmentPayloads, if_neg hlen.not_gt, List.map_map]
  rfl

theorem messages_eq (hlen : call.data.length ≤ maxUDPDatagram) :
    call.messages = (List.range call.count).map call.fragment := by
  rw [messages, sendUDPDatagram_eq hlen]

theorem count_le (hlen : call.data.length ≤ maxUDPDatagram) : call.count ≤ 128 := by
  apply Pieces.pieceCount_le (by decide) (by decide)
  simp only [maxUDPDatagram, udpChunkSize] at hlen ⊢
  omega

section Fragment

variable {i : Nat}

theorem part_fragment (h : i < 256 ^ 2) : (call.fragment i).part = i :=
  part_fragmentPayload call.data i h

theorem chunk_fragment : (call.fragment i).chunk = call.piece i :=
  drop_fragmentPayload call.data i

theorem total_fragment (hlen : call.data.length ≤ maxUDPDatagram) :
    (call.fragment i).total = call.count :=
  total_fragmentPayload call.data i (lt_of_le_of_lt (count_le hlen) (by decide))

theorem acceptable_fragment (hlen : call.data.length ≤ maxUDPDatagram) (hi : i < call.count) :
    (call.fragment i).Acceptable := by
  have hcount := count_le hlen
  refine ⟨not_lt.mp (length_fragmentPayload call.data i), ?_, ?_, ?_⟩
  · rw [total_fragment hlen]
    exact Pieces.one_le_pieceCount _ _
  · rw [total_fragment hlen]
    exact hcount
  · rw [total_fragment hlen, part_fragment (by omega)]
    exact hi

end Fragment

/-! ## The parts that have arrived -/

section Parts

variable {parts : List Nat}

theorem numbers_pieces : Arrivals.numbers (call.pieces parts) = parts.toFinset := by
  ext i
  simp [Arrivals.numbers, pieces]

theorem pieces_append (i : Nat) :
    call.pieces (parts ++ [i]) = call.pieces parts ++ [(i, call.piece i)] := by
  simp [pieces]

theorem first_pieces {i : Nat} (h : i ∈ parts) :
    Arrivals.first (call.pieces parts) i = call.piece i := by
  induction parts using List.reverseRecOn with
  | nil => cases h
  | append_singleton earlier last ih =>
      rw [pieces_append]
      by_cases hmem : i ∈ earlier
      · rw [Arrivals.first_append_of_mem (by rw [numbers_pieces]; exact List.mem_toFinset.mpr hmem),
          ih hmem]
      · obtain rfl : i = last := by
          simpa [hmem] using h
        exact Arrivals.first_append_of_notMem
          (by rw [numbers_pieces]; exact mt List.mem_toFinset.mp hmem) _

/-- All parts together are the datagram. -/
theorem flatten_places (h : ∀ i < call.count, i ∈ parts) :
    (Arrivals.places (call.pieces parts) call.count).flatten = call.data := by
  have hplaces : Arrivals.places (call.pieces parts) call.count =
      (List.range call.count).map (Pieces.piece udpChunkSize call.data) := by
    apply List.map_congr_left
    intro i hi
    exact first_pieces (h i (List.mem_range.mp hi))
  rw [hplaces, Pieces.flatten_pieces]
  exact List.take_of_length_le (Pieces.le_pieceCount_mul (by decide) _)

end Parts

/-! ## One fragment -/

theorem put_name {a : UdpAssembly} (part : Nat) (chunk : Bytes) :
    (a.put a.name part chunk).name = a.name := by
  have hname : ¬ (a.name = [] ∧ a.name ≠ []) := fun h => h.2 h.1
  simp only [UdpAssembly.put, if_neg hname]
  split <;> rfl

/-- Different parts of a datagram are no more than it has. -/
theorem length_lt_count {parts : List Nat} {i : Nat} (hnodup : (parts ++ [i]).Nodup)
    (hlt : ∀ j ∈ parts ++ [i], j < call.count) : parts.length < call.count := by
  have hsub : parts ++ [i] ⊆ List.range call.count := fun j hj => List.mem_range.mpr (hlt j hj)
  have hle := (List.subperm_of_subset hnodup hsub).length_le
  rw [List.length_append, List.length_singleton, List.length_range] at hle
  exact hle

/-- The assembly that a fragment is stored in. -/
theorem exists_stored {parts : List Nat} {i : Nat} (now : Nat) {assemblies : Assemblies}
    (hlen : call.data.length ≤ maxUDPDatagram) (hunder : call.Underway parts assemblies)
    (hi : i < call.count) (hless : parts.length < call.count)
    (hroom : parts = [] → assemblies.size < maxUDPAssemblies) :
    ∃ a : UdpAssembly, a.total = call.count ∧ a.name = call.service ∧
      a.Collected (call.pieces parts) ∧
      handleUDPChunk now (call.fragment i) assemblies =
        storeChunk (call.fragment i) i a assemblies := by
  have hacc := acceptable_fragment hlen hi
  have htotal : (call.fragment i).total = call.count := total_fragment hlen
  have hpart : (call.fragment i).part = i :=
    part_fragment (lt_trans (lt_of_lt_of_le hi (count_le hlen)) (by decide))
  have hcases := handled now (call.fragment i) assemblies
  by_cases hnil : parts = []
  · subst hnil
    have hnone : Finmap.lookup (call.fragment i).key assemblies = none := by
      rw [Underway, if_pos (Or.inl rfl)] at hunder
      exact hunder
    refine ⟨.fresh now call.service call.count, rfl, rfl,
      UdpAssembly.fresh_collected now call.service call.count, ?_⟩
    generalize handleUDPChunk now (call.fragment i) assemblies = result at hcases
    cases hcases with
    | refused hnot => exact absurd hacc hnot
    | full _ _ hfull => exact absurd hfull (hroom rfl).not_ge
    | opened _ _ _ => rw [hpart, htotal]; rfl
    | mismatched _ a hsome _ => cases hnone.symm.trans hsome
    | stored _ a hsome _ => cases hnone.symm.trans hsome
  · rw [Underway, if_neg (by simp [hnil, hless.ne])] at hunder
    obtain ⟨a, hsome, hat, hname, hcollected⟩ := hunder
    refine ⟨a, hat, hname, hcollected, ?_⟩
    generalize handleUDPChunk now (call.fragment i) assemblies = result at hcases
    cases hcases with
    | refused hnot => exact absurd hacc hnot
    | full _ hnone _ => cases hnone.symm.trans hsome
    | opened _ hnone _ => cases hnone.symm.trans hsome
    | mismatched _ b hb hne =>
        obtain rfl : a = b := Option.some.inj (hsome.symm.trans hb)
        exact absurd (hat.trans htotal.symm) hne
    | stored _ b hb _ =>
        obtain rfl : a = b := Option.some.inj (hsome.symm.trans hb)
        rw [hpart]

/-- A fragment that is new moves the assembly on, and the last one passes the
datagram on. -/
theorem handle_fragment {parts : List Nat} {i : Nat} (now : Nat) {assemblies : Assemblies}
    (hlen : call.data.length ≤ maxUDPDatagram) (hunder : call.Underway parts assemblies)
    (hnodup : (parts ++ [i]).Nodup) (hlt : ∀ j ∈ parts ++ [i], j < call.count)
    (hroom : parts = [] → assemblies.size < maxUDPAssemblies) :
    call.Underway (parts ++ [i]) (handleUDPChunk now (call.fragment i) assemblies).1 ∧
      (handleUDPChunk now (call.fragment i) assemblies).2 =
        if parts.length + 1 = call.count then some (call.service, call.data) else none := by
  have hless := length_lt_count hnodup hlt
  have hi : i < call.count := hlt i (List.mem_append_right _ List.mem_cons_self)
  have hnew : i ∉ parts := fun hmem =>
    (List.disjoint_of_nodup_append hnodup) hmem List.mem_cons_self
  obtain ⟨a, htotal, hname, hcollected, hresult⟩ :=
    exists_stored now hlen hunder hi hless hroom
  have hput : (a.put call.service i (call.piece i)).Collected (call.pieces (parts ++ [i])) := by
    rw [pieces_append]
    refine hcollected.put _ _ (hi.trans_eq htotal.symm) fun hmem => absurd hmem ?_
    rw [numbers_pieces]
    exact mt List.mem_toFinset.mp hnew
  have htotal' : (a.put call.service i (call.piece i)).total = call.count :=
    (UdpAssembly.put_total ..).trans htotal
  have hname' : (a.put call.service i (call.piece i)).name = call.service := by
    rw [← hname]
    exact put_name i _
  have hreceived : (a.put call.service i (call.piece i)).received = parts.length + 1 := by
    rw [hput.received, numbers_pieces, List.toFinset_card_of_nodup hnodup]
    simp
  have hstore : storeChunk (call.fragment i) i a assemblies =
      if parts.length + 1 ≠ call.count then
        (assemblies.insert call.key (a.put call.service i (call.piece i)), none)
      else (assemblies.erase call.key, (a.put call.service i (call.piece i)).joined) := by
    have hchunk : (call.fragment i).payload.drop 4 = call.piece i := chunk_fragment
    simp only [storeChunk, hchunk]
    rw [← hreceived, ← htotal']
    rfl
  rw [hresult, hstore]
  have hlength : (parts ++ [i]).length = parts.length + 1 := by simp
  by_cases hlast : parts.length + 1 = call.count
  · rw [if_neg (not_not.mpr hlast), if_pos hlast, Underway, if_pos (Or.inr (hlength.trans hlast))]
    refine ⟨Finmap.lookup_erase _ _, ?_⟩
    have hall : ∀ j < call.count, j ∈ parts ++ [i] := by
      intro j hj
      have hmem := hput.complete (by rw [hreceived, htotal', hlast]) (hj.trans_eq htotal'.symm)
      rw [numbers_pieces] at hmem
      exact List.mem_toFinset.mp hmem
    have hflatten : (a.put call.service i (call.piece i)).chunks.flatten = call.data := by
      rw [hput.chunks, htotal', flatten_places hall]
    rw [UdpAssembly.joined, ← List.length_flatten, hflatten, if_neg hlen.not_gt, hname']
  · rw [if_pos hlast, if_neg hlast, Underway, if_neg (by simpa using hlast)]
    exact ⟨⟨_, Finmap.lookup_insert _, htotal', hname', hput⟩, rfl⟩

end UdpCall

/-! ## A sequence of messages -/

section Run

variable {key : Nat × Nat} {assemblies : Assemblies} {arrivals : List UdpArrival}

theorem collect_append (more : List UdpArrival) :
    collect assemblies (arrivals ++ more) = collect (collect assemblies arrivals) more :=
  List.foldl_append

theorem passedOn_append (more : List UdpArrival) :
    passedOn key assemblies (arrivals ++ more) =
      passedOn key assemblies arrivals ++ passedOn key (collect assemblies arrivals) more := by
  induction arrivals generalizing assemblies with
  | nil => rfl
  | cons arrival rest ih =>
      rw [List.cons_append, passedOn, passedOn, ih, List.append_assoc]
      rfl

theorem ofKey_append (more : List UdpArrival) :
    ofKey key (arrivals ++ more) = ofKey key arrivals ++ ofKey key more := by
  rw [ofKey, List.map_append, List.filter_append]
  rfl

theorem ofKey_singleton_of_eq {arrival : UdpArrival} (h : arrival.2.key = key) :
    ofKey key [arrival] = [arrival.2] := by
  simp [ofKey, h]

theorem ofKey_singleton_of_ne {arrival : UdpArrival} (h : arrival.2.key ≠ key) :
    ofKey key [arrival] = [] := by
  simp [ofKey, h]

theorem mem_ofKey {m : UdpMessage} :
    m ∈ ofKey key arrivals ↔ (∃ arrival ∈ arrivals, arrival.2 = m) ∧ m.key = key := by
  simp [ofKey]

theorem HasRoom.of_append {more : List UdpArrival} (h : HasRoom key assemblies (arrivals ++ more)) :
    HasRoom key assemblies arrivals := by
  intro earlier arrival later heq
  refine h earlier arrival (later ++ more) ?_
  rw [heq, List.append_assoc, List.cons_append]

variable {call : UdpCall}

/-- Messages of which those of the datagram are different fragments of it. -/
structure UdpCall.Arrived (call : UdpCall) (parts : List Nat) (arrivals : List UdpArrival) :
    Prop where
  fragments : ofKey call.key arrivals = parts.map call.fragment
  nodup : parts.Nodup
  bound : ∀ i ∈ parts, i < call.count

/-- The fragments of a beginning are the first fragments. -/
theorem UdpCall.Arrived.split {parts : List Nat} {more : List UdpArrival}
    (h : call.Arrived parts (arrivals ++ more)) :
    ∃ before after, parts = before ++ after ∧ call.Arrived before arrivals ∧
      ofKey call.key more = after.map call.fragment := by
  have hfragments := h.fragments
  rw [ofKey_append] at hfragments
  obtain ⟨before, after, rfl, hbefore, hafter⟩ := List.map_eq_append_iff.mp hfragments.symm
  refine ⟨before, after, rfl, ⟨hbefore.symm, ?_, ?_⟩, hafter.symm⟩
  · exact (List.nodup_append.mp h.nodup).1
  · intro i hi
    exact h.bound i (List.mem_append_left _ hi)

/-- The last message is of another key or is a new fragment. -/
theorem UdpCall.Arrived.cases_append {parts : List Nat} {arrival : UdpArrival}
    (h : call.Arrived parts (arrivals ++ [arrival])) :
    (arrival.2.key ≠ call.key ∧ call.Arrived parts arrivals) ∨
      ∃ before i, parts = before ++ [i] ∧ arrival.2 = call.fragment i ∧
        call.Arrived before arrivals := by
  obtain ⟨before, after, rfl, hbefore, hafter⟩ := h.split
  by_cases hkey : arrival.2.key = call.key
  · rw [ofKey_singleton_of_eq hkey] at hafter
    obtain ⟨i, rfl, hi⟩ := List.map_eq_singleton_iff.mp hafter.symm
    exact Or.inr ⟨before, i, rfl, hi.symm, hbefore⟩
  · rw [ofKey_singleton_of_ne hkey] at hafter
    obtain rfl : after = [] := List.map_eq_nil_iff.mp hafter.symm
    rw [List.append_nil]
    exact Or.inl ⟨hkey, hbefore⟩

theorem UdpCall.Arrived.first {arrivals : List UdpArrival} (h : call.Arrived [] arrivals) :
    ∀ arrival ∈ arrivals, arrival.2.key ≠ call.key := by
  intro arrival hmem hkey
  have hin : arrival.2 ∈ ofKey call.key arrivals := mem_ofKey.mpr ⟨⟨arrival, hmem, rfl⟩, hkey⟩
  rw [h.fragments] at hin
  cases hin

/-- The table and the calls after any of the fragments. -/
theorem collect_underway (hlen : call.data.length ≤ maxUDPDatagram)
    (hnone : Finmap.lookup call.key assemblies = none) {parts : List Nat}
    (harrived : call.Arrived parts arrivals) (hroom : HasRoom call.key assemblies arrivals) :
    call.Underway parts (collect assemblies arrivals) ∧
      passedOn call.key assemblies arrivals =
        if parts.length = call.count then [(call.service, call.data)] else [] := by
  induction arrivals using List.reverseRecOn generalizing parts with
  | nil =>
      obtain rfl : parts = [] := List.map_eq_nil_iff.mp harrived.fragments.symm
      have hpos : 1 ≤ call.count := Pieces.one_le_pieceCount _ _
      rw [UdpCall.Underway, if_pos (Or.inl rfl), if_neg (by rw [List.length_nil]; omega)]
      exact ⟨hnone, rfl⟩
  | append_singleton earlier arrival ih =>
      rw [collect_append, passedOn_append]
      rcases harrived.cases_append with ⟨hkey, hsame⟩ | ⟨before, i, rfl, hfragment, hbefore⟩
      · obtain ⟨hunder, hpassed⟩ := ih hsame hroom.of_append
        have hlookup : Finmap.lookup call.key (collect (collect assemblies earlier) [arrival]) =
            Finmap.lookup call.key (collect assemblies earlier) :=
          lookup_handleUDPChunk_of_ne (Ne.symm hkey) _ _
        refine ⟨?_, ?_⟩
        · rw [UdpCall.Underway, hlookup]
          exact hunder
        · rw [hpassed, passedOn, if_neg hkey, passedOn, List.append_nil, List.append_nil]
      · obtain ⟨hunder, hpassed⟩ := ih hbefore hroom.of_append
        have hfirst : before = [] → (collect assemblies earlier).size < maxUDPAssemblies := by
          rintro rfl
          exact hroom earlier arrival [] rfl (by rw [hfragment]; rfl) hbefore.first
        obtain ⟨hunder', hout⟩ := UdpCall.handle_fragment arrival.1 hlen hunder harrived.nodup
          harrived.bound hfirst
        have hless := UdpCall.length_lt_count harrived.nodup harrived.bound
        obtain ⟨now, m⟩ := arrival
        obtain rfl : m = call.fragment i := hfragment
        refine ⟨hunder', ?_⟩
        have hkey : (call.fragment i).key = call.key := rfl
        rw [hpassed, if_neg hless.ne, passedOn, if_pos hkey, hout, passedOn, List.append_nil,
          List.nil_append, List.length_append, List.length_singleton]
        split <;> rfl

/-- An order of the fragments is an order of their numbers. -/
theorem arrived_of_perm (hlen : call.data.length ≤ maxUDPDatagram)
    (hperm : (ofKey call.key arrivals).Perm call.messages) :
    ∃ parts, parts.Perm (List.range call.count) ∧ call.Arrived parts arrivals := by
  rw [UdpCall.messages_eq hlen] at hperm
  have hsmall (i : Nat) (hi : i < call.count) : (call.fragment i).part = i :=
    UdpCall.part_fragment (lt_trans (lt_of_lt_of_le hi (UdpCall.count_le hlen)) (by decide))
  have hback : (List.range call.count).map (UdpMessage.part ∘ call.fragment) =
      List.range call.count := by
    apply List.ext_getElem (by simp)
    intro i hi _
    have hlt : i < call.count := by simpa using hi
    rw [List.getElem_map, List.getElem_range, Function.comp_apply, hsmall i hlt]
  have hparts : ((ofKey call.key arrivals).map UdpMessage.part).Perm (List.range call.count) := by
    have hmap := hperm.map UdpMessage.part
    rw [List.map_map, hback] at hmap
    exact hmap
  refine ⟨_, hparts, ?_, ?_, ?_⟩
  · rw [List.map_map]
    apply List.ext_getElem (by simp)
    intro k hk _
    obtain ⟨i, hi, heq⟩ := List.mem_map.mp (hperm.mem_iff.mp (List.getElem_mem hk))
    rw [List.getElem_map, Function.comp_apply, ← heq, hsmall i (List.mem_range.mp hi)]
  · exact hparts.nodup_iff.mpr List.nodup_range
  · intro i hi
    exact List.mem_range.mp (hparts.mem_iff.mp hi)

/-- A fragment passes the datagram on exactly if no other is still to come. -/
theorem handle_arrived (hlen : call.data.length ≤ maxUDPDatagram)
    (hnone : Finmap.lookup call.key assemblies = none) {parts : List Nat}
    (harrived : call.Arrived parts arrivals) (hall : parts.length = call.count)
    (hroom : HasRoom call.key assemblies arrivals) {earlier later : List UdpArrival} {now : Nat}
    {m : UdpMessage} (heq : arrivals = earlier ++ (now, m) :: later) (hkey : m.key = call.key) :
    (handleUDPChunk now m (collect assemblies earlier)).2 =
      if ∃ arrival ∈ later, arrival.2.key = call.key then none
      else some (call.service, call.data) := by
  have hsplit : arrivals = (earlier ++ [(now, m)]) ++ later := by
    rw [heq, List.append_assoc, List.singleton_append]
  subst hsplit
  obtain ⟨upTo, after, rfl, hupTo, hafter⟩ := harrived.split
  rcases hupTo.cases_append with ⟨hne, -⟩ | ⟨before, i, rfl, hfragment, hbefore⟩
  · exact absurd hkey hne
  obtain rfl : m = call.fragment i := hfragment
  have hunder := (collect_underway hlen hnone hbefore hroom.of_append.of_append).1
  have hfirst : before = [] → (collect assemblies earlier).size < maxUDPAssemblies := by
    rintro rfl
    exact hroom.of_append earlier _ [] rfl hkey hbefore.first
  rw [(UdpCall.handle_fragment now hlen hunder hupTo.nodup hupTo.bound hfirst).2]
  rw [List.length_append, List.length_append, List.length_singleton] at hall
  have hlater : (∃ arrival ∈ later, arrival.2.key = call.key) ↔ after ≠ [] := by
    constructor
    · rintro ⟨arrival, hmem, hk⟩ rfl
      have hin : arrival.2 ∈ ofKey call.key later := mem_ofKey.mpr ⟨⟨arrival, hmem, rfl⟩, hk⟩
      rw [hafter] at hin
      cases hin
    · intro hne
      obtain ⟨j, hj⟩ := List.exists_mem_of_ne_nil _ hne
      have hin : call.fragment j ∈ ofKey call.key later := by
        rw [hafter]
        exact List.mem_map_of_mem hj
      obtain ⟨⟨arrival, hmem, heq'⟩, hk⟩ := mem_ofKey.mp hin
      exact ⟨arrival, hmem, heq' ▸ hk⟩
  by_cases hlast : after = []
  · subst hlast
    rw [if_pos (by simpa using hall), if_neg (by rw [hlater]; exact not_not.mpr rfl)]
  · have hpos := List.length_pos_of_ne_nil hlast
    rw [if_neg (by omega), if_pos (hlater.mpr hlast)]

end Run

/-- The fragments of a datagram, in any order and among messages of other
datagrams, are all accepted and lead to one call with the datagram. -/
theorem udp_fragments_round_trip (call : UdpCall) (hlen : call.data.length ≤ maxUDPDatagram)
    (assemblies : Assemblies) (hnone : Finmap.lookup call.key assemblies = none)
    (arrivals : List UdpArrival)
    (hperm : (ofKey call.key arrivals).Perm call.messages)
    (hroom : HasRoom call.key assemblies arrivals) :
    sendUDPDatagram call = .ok call.messages ∧ (∀ m ∈ call.messages, m.Acceptable) ∧
      (∀ earlier now m later, arrivals = earlier ++ (now, m) :: later → m.key = call.key →
        (handleUDPChunk now m (collect assemblies earlier)).2 =
          if ∃ arrival ∈ later, arrival.2.key = call.key then none
          else some (call.service, call.data)) ∧
      passedOn call.key assemblies arrivals = [(call.service, call.data)] ∧
      Finmap.lookup call.key (collect assemblies arrivals) = none := by
  obtain ⟨parts, hparts, harrived⟩ := arrived_of_perm hlen hperm
  have hall : parts.length = call.count := by
    rw [hparts.length_eq, List.length_range]
  obtain ⟨hunder, hpassed⟩ := collect_underway hlen hnone harrived hroom
  refine ⟨?_, ?_, ?_, ?_, ?_⟩
  · rw [UdpCall.messages_eq hlen, UdpCall.sendUDPDatagram_eq hlen]
  · intro m hm
    rw [UdpCall.messages_eq hlen] at hm
    obtain ⟨i, hi, rfl⟩ := List.mem_map.mp hm
    exact UdpCall.acceptable_fragment hlen (List.mem_range.mp hi)
  · intro earlier now m later heq hkey
    exact handle_arrived hlen hnone harrived hall hroom heq hkey
  · rw [hpassed, if_pos hall]
  · rw [UdpCall.Underway, if_pos (Or.inr hall)] at hunder
    exact hunder

def largestCall : UdpCall := ⟨1, [7], 1, List.replicate maxUDPDatagram 0⟩

def reversedArrivals : List UdpArrival := largestCall.messages.reverse.map fun m => (0, m)

/-- The largest datagram arrives with its fragments in reverse order. -/
theorem udp_fragments_round_trip_reversed :
    passedOn largestCall.key ∅ reversedArrivals = [(largestCall.service, largestCall.data)] := by
  have hkeys : ∀ m ∈ largestCall.messages.reverse, m.key = largestCall.key :=
    fun m hm => (mem_messages (List.mem_reverse.mp hm)).1
  have hmessages : ofKey largestCall.key reversedArrivals =
      largestCall.messages.reverse := by
    rw [ofKey, reversedArrivals, List.map_map, List.filter_eq_self.mpr]
    · exact List.map_id _
    · intro m hm
      obtain ⟨m', hm', rfl⟩ := List.mem_map.mp hm
      exact decide_eq_true (hkeys m' hm')
  have hroom : HasRoom largestCall.key ∅ reversedArrivals := by
    intro earlier arrival later heq _ hnot
    have hnil : earlier = [] := by
      rw [List.eq_nil_iff_forall_not_mem]
      intro other hmem
      have hin : other ∈ reversedArrivals := by
        rw [heq]
        exact List.mem_append_left _ hmem
      obtain ⟨m, hm, rfl⟩ := List.mem_map.mp hin
      exact hnot _ hmem (hkeys m hm)
    rw [hnil]
    exact Nat.zero_lt_succ _
  have hlen : largestCall.data.length ≤ maxUDPDatagram := by
    simp only [largestCall, List.length_replicate, le_refl]
  have hperm : (ofKey largestCall.key reversedArrivals).Perm largestCall.messages := by
    rw [hmessages]
    exact List.reverse_perm _
  exact (udp_fragments_round_trip largestCall hlen ∅ (Finmap.lookup_empty _) reversedArrivals
    hperm hroom).2.2.2.1

end UnknownTunnel.App

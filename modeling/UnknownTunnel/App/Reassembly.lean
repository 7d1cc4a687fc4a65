import UnknownTunnel.App.UdpIntegrity
import UnknownTunnel.Foundation.Arrivals
import UnknownTunnel.Foundation.Machine

/-!
# Reassembly of forwarded datagrams

An assembly counts the parts it has received in one field and keeps their data
in another, where a part without data looks like a part that is missing. The
two agree as long as no part that came without data comes again. The fragments
of a sender are such a sequence, in any order and among the fragments of other
datagrams, so each datagram is joined exactly once.

## Implementation notes

The parts that went into the current assembly of a key are recorded beside the
table, in the order of their arrival. An assembly is described by that record:
its chunks are the first pieces of each number, and its counter is the number
of different numbers.
-/

namespace UnknownTunnel.App

open Foundation

/-! ## Messages -/

namespace UdpMessage

/-- The position of a fragment. -/
def part (m : UdpMessage) : Nat := Bytes.beGet (Bytes.slice 0 2 m.payload)

/-- The number of fragments. -/
def total (m : UdpMessage) : Nat := Bytes.beGet (Bytes.slice 2 4 m.payload)

/-- The data of a fragment. -/
def chunk (m : UdpMessage) : Bytes := m.payload.drop 4

/-- A message that passes the tests of `handleUDPChunk` on its own fields. -/
structure Acceptable (m : UdpMessage) : Prop where
  long : 4 ≤ m.payload.length
  total_pos : 1 ≤ m.total
  total_le : m.total ≤ 128
  part_lt : m.part < m.total

instance (m : UdpMessage) : Decidable m.Acceptable :=
  decidable_of_iff (4 ≤ m.payload.length ∧ 1 ≤ m.total ∧ m.total ≤ 128 ∧ m.part < m.total)
    ⟨fun ⟨hlong, hpos, hle, hpart⟩ => ⟨hlong, hpos, hle, hpart⟩,
      fun h => ⟨h.long, h.total_pos, h.total_le, h.part_lt⟩⟩

end UdpMessage

/-- Everything `handleUDPChunk` can do with a message. -/
inductive Handled (now : Nat) (m : UdpMessage) (assemblies : Assemblies) :
    Assemblies × Option (Bytes × Bytes) → Prop
  | refused (h : ¬ m.Acceptable) : Handled now m assemblies (assemblies, none)
  | full (h : m.Acceptable) (hnone : Finmap.lookup m.key assemblies = none)
      (hfull : maxUDPAssemblies ≤ assemblies.size) : Handled now m assemblies (assemblies, none)
  | opened (h : m.Acceptable) (hnone : Finmap.lookup m.key assemblies = none)
      (hroom : assemblies.size < maxUDPAssemblies) :
      Handled now m assemblies (storeChunk m m.part (.fresh now m.name m.total) assemblies)
  | mismatched (h : m.Acceptable) (a : UdpAssembly)
      (hsome : Finmap.lookup m.key assemblies = some a) (hne : a.total ≠ m.total) :
      Handled now m assemblies (assemblies.erase m.key, none)
  | stored (h : m.Acceptable) (a : UdpAssembly)
      (hsome : Finmap.lookup m.key assemblies = some a) (heq : a.total = m.total) :
      Handled now m assemblies (storeChunk m m.part a assemblies)

theorem handled (now : Nat) (m : UdpMessage) (assemblies : Assemblies) :
    Handled now m assemblies (handleUDPChunk now m assemblies) := by
  have hpart : Bytes.beGet (Bytes.slice 0 2 m.payload) = m.part := rfl
  have htotal : Bytes.beGet (Bytes.slice 2 4 m.payload) = m.total := rfl
  unfold handleUDPChunk
  simp only [hpart, htotal]
  split
  · exact .refused fun h => absurd h.long (by omega)
  split
  · refine .refused fun h => ?_
    have := h.total_pos
    have := h.total_le
    have := h.part_lt
    omega
  have hacc : m.Acceptable := ⟨by omega, by omega, by omega, by omega⟩
  split
  · rename_i hnone
    split
    · rename_i hfull
      exact .full hacc hnone hfull
    · rename_i hroom
      exact .opened hacc hnone (not_le.mp hroom)
  · rename_i a hsome
    split
    · rename_i hne
      exact .mismatched hacc a hsome hne
    · rename_i heq
      exact .stored hacc a hsome (not_not.mp heq)

/-! ## One assembly -/

namespace UdpAssembly

/-- The assembly after the given parts. -/
structure Collected (a : UdpAssembly) (parts : List (Nat × Bytes)) : Prop where
  chunks : a.chunks = Arrivals.places parts a.total
  received : a.received = (Arrivals.numbers parts).card
  bound : ∀ part ∈ Arrivals.numbers parts, part < a.total

variable {a : UdpAssembly} {parts : List (Nat × Bytes)}

theorem fresh_collected (now : Nat) (name : Bytes) (total : Nat) :
    (fresh now name total).Collected [] := by
  constructor
  · exact (Arrivals.places_nil total).symm
  · rfl
  · intro part hpart
    exact absurd hpart (Finset.notMem_empty part)

/-- A part is put into its place, unless it came before with no data. -/
theorem Collected.put (h : a.Collected parts) (name : Bytes) {part : Nat} (chunk : Bytes)
    (hpart : part < a.total)
    (hagain : part ∈ Arrivals.numbers parts → Arrivals.first parts part ≠ []) :
    (a.put name part chunk).Collected (parts ++ [(part, chunk)]) := by
  have hplace : a.chunks[part]? = some (Arrivals.first parts part) := by
    rw [h.chunks]
    exact Arrivals.getElem?_places hpart
  have hbound (total : Nat) (htotal : total = a.total) :
      ∀ i ∈ Arrivals.numbers (parts ++ [(part, chunk)]), i < total := by
    intro i hi
    rw [Arrivals.numbers_append, Finset.mem_insert] at hi
    rcases hi with rfl | hi
    · omega
    · rw [htotal]
      exact h.bound i hi
  by_cases hmem : part ∈ Arrivals.numbers parts
  · have hfilled : a.chunks[part]? ≠ some [] := by
      rw [hplace]
      exact fun heq => hagain hmem (Option.some.inj heq)
    obtain ⟨hchunks, hreceived, htotal⟩ := put_of_filled hfilled name chunk
    constructor
    · rw [hchunks, htotal, Arrivals.places_append_of_mem hmem, h.chunks]
    · rw [hreceived, Arrivals.numbers_append, Finset.insert_eq_of_mem hmem, h.received]
    · exact hbound _ htotal
  · have hvacant : a.chunks[part]? = some [] := by
      rw [hplace, Arrivals.first_of_notMem hmem]
    obtain ⟨hchunks, hreceived, htotal⟩ := put_of_vacant hvacant name chunk
    constructor
    · rw [hchunks, htotal, Arrivals.places_append_of_notMem hmem, h.chunks]
    · rw [hreceived, Arrivals.numbers_append, Finset.card_insert_of_notMem hmem, h.received]
    · exact hbound _ htotal

/-- A complete assembly has every part. -/
theorem Collected.complete (h : a.Collected parts) (hall : a.received = a.total) {part : Nat}
    (hpart : part < a.total) : part ∈ Arrivals.numbers parts :=
  Arrivals.mem_numbers_of_card h.bound (h.received.symm.trans hall) hpart

theorem joined_eq_some {name data : Bytes} (h : a.joined = some (name, data)) :
    name = a.name ∧ data = a.chunks.flatten := by
  unfold joined at h
  split at h
  · cases h
  · cases h
    exact ⟨rfl, rfl⟩

theorem put_total (name : Bytes) (part : Nat) (chunk : Bytes) :
    (a.put name part chunk).total = a.total := by
  by_cases hvacant : a.chunks[part]? = some []
  · exact (put_of_vacant hvacant name chunk).2.2
  · exact (put_of_filled hvacant name chunk).2.2

end UdpAssembly

/-! ## Runs of the table -/

/-- A datagram that was passed on, with the parts of its assembly. -/
structure PassedDatagram where
  total : Nat
  parts : List (Nat × Bytes)
  data : Bytes
  deriving DecidableEq

/-- The table of assemblies, with the parts that went into the assembly of
each key and the datagrams passed to `handleUDPDatagram`. -/
structure Reassembly where
  assemblies : Assemblies
  parts : Nat × Nat → List (Nat × Bytes)
  passed : List PassedDatagram

/-- The steps that touch the table: a message, the removal of old assemblies in
`cleanup`, and the new table that `Close` makes. -/
inductive ReassemblyEvent
  | message (now : Nat) (m : UdpMessage)
  | expire (now : Nat)
  | close

namespace Reassembly

def start : Reassembly := ⟨∅, fun _ => [], []⟩

/-- The parts of the assembly that a message is for, the message included. -/
def partsWith (R : Reassembly) (m : UdpMessage) : List (Nat × Bytes) :=
  (if (Finmap.lookup m.key R.assemblies).isSome then R.parts m.key else []) ++
    [(m.part, m.chunk)]

def receive (R : Reassembly) (now : Nat) (m : UdpMessage) : Reassembly :=
  let result := handleUDPChunk now m R.assemblies
  { assemblies := result.1
    parts := if m.Acceptable then Function.update R.parts m.key (R.partsWith m) else R.parts
    passed := match result.2 with
      | none => R.passed
      | some (_, data) => R.passed ++ [⟨m.total, R.partsWith m, data⟩] }

def apply (R : Reassembly) : ReassemblyEvent → Reassembly
  | .message now m => R.receive now m
  | .expire now =>
      { R with assemblies := R.assemblies.filter fun _ a => now - a.created ≤ udpAssemblyLifetime }
  | .close => { R with assemblies := ∅ }

end Reassembly

/-- Any messages, and `cleanup` and `Close` at any time between them. -/
def reassemblyMachine : Machine Reassembly ReassemblyEvent where
  init := fun R => R = .start
  enabled := fun _ _ => True
  apply := Reassembly.apply

namespace Reassembly

/-- Counters are right, and what is passed on consists of all parts. -/
structure Faithful (R : Reassembly) : Prop where
  counted : ∀ key a, Finmap.lookup key R.assemblies = some a →
    a.received = (Arrivals.numbers (R.parts key)).card
  passed : ∀ d ∈ R.passed, (∀ part < d.total, part ∈ Arrivals.numbers d.parts) ∧
    d.data = (Arrivals.places d.parts d.total).flatten

/-- A message does not bring a part again that the open assembly of its key has
received without data. -/
def NoEmptyRepeat (R : Reassembly) : ReassemblyEvent → Prop
  | .message _ m => m.Acceptable → ∀ a, Finmap.lookup m.key R.assemblies = some a →
      a.total = m.total → m.part ∈ Arrivals.numbers (R.parts m.key) →
      Arrivals.first (R.parts m.key) m.part ≠ []
  | _ => True

/-- Every assembly is described by its parts. -/
structure Described (R : Reassembly) : Prop where
  kept : ∀ key a, Finmap.lookup key R.assemblies = some a → a.Collected (R.parts key)
  passed : ∀ d ∈ R.passed, (∀ part < d.total, part ∈ Arrivals.numbers d.parts) ∧
    d.data = (Arrivals.places d.parts d.total).flatten

variable {R : Reassembly} {m : UdpMessage} {now : Nat}

theorem Described.faithful (h : R.Described) : R.Faithful :=
  ⟨fun key a ha => (h.kept key a ha).received, h.passed⟩

/-- What a message leaves alone. -/
theorem receive_other (h : R.Described) {key : Nat × Nat} (hne : key ≠ m.key) {a : UdpAssembly}
    (ha : Finmap.lookup key (R.receive now m).assemblies = some a) :
    a.Collected ((R.receive now m).parts key) := by
  have hbefore : Finmap.lookup key R.assemblies = some a := by
    rw [← lookup_handleUDPChunk_of_ne hne now R.assemblies]
    exact ha
  have hparts : (R.receive now m).parts key = R.parts key := by
    simp only [receive]
    split
    · exact Function.update_of_ne hne _ _
    · rfl
  rw [hparts]
  exact h.kept key a hbefore

/-- It is enough to look at the key of a message and at what it passes on. -/
theorem Described.receive (h : R.Described)
    (hown : ∀ a, Finmap.lookup m.key (R.receive now m).assemblies = some a →
      a.Collected ((R.receive now m).parts m.key))
    (hpassed : ∀ d ∈ (R.receive now m).passed, d ∈ R.passed ∨
      (∀ part < d.total, part ∈ Arrivals.numbers d.parts) ∧
        d.data = (Arrivals.places d.parts d.total).flatten) : (R.receive now m).Described := by
  constructor
  · intro key a ha
    by_cases hkey : key = m.key
    · subst hkey
      exact hown a ha
    · exact receive_other h hkey ha
  · intro d hd
    exact (hpassed d hd).elim (h.passed d) id

/-- A message after which its key has no assembly and nothing is passed on. -/
theorem receive_none (h : R.Described)
    (hkept : Finmap.lookup m.key (handleUDPChunk now m R.assemblies).1 = none)
    (hpassed : (handleUDPChunk now m R.assemblies).2 = none) : (R.receive now m).Described := by
  apply h.receive
  · intro a ha
    cases hkept.symm.trans ha
  · intro d hd
    simp only [receive, hpassed] at hd
    exact Or.inl hd

/-- A message that is stored. -/
theorem receive_store (h : R.Described) (hacc : m.Acceptable) {a : UdpAssembly}
    (ha : (a.put m.name m.part m.chunk).Collected (R.partsWith m)) (htotal : a.total = m.total)
    (hresult : handleUDPChunk now m R.assemblies = storeChunk m m.part a R.assemblies) :
    (R.receive now m).Described := by
  have hstored : (a.put m.name m.part m.chunk).total = m.total :=
    (UdpAssembly.put_total ..).trans htotal
  have hown : (R.receive now m).parts m.key = R.partsWith m := by
    simp only [receive, if_pos hacc, Function.update_self]
  by_cases hcomplete : (a.put m.name m.part m.chunk).received =
      (a.put m.name m.part m.chunk).total
  · have hstore : handleUDPChunk now m R.assemblies =
        (R.assemblies.erase m.key, (a.put m.name m.part m.chunk).joined) :=
      hresult.trans (if_neg (not_not.mpr hcomplete))
    have hkept : Finmap.lookup m.key (handleUDPChunk now m R.assemblies).1 = none := by
      rw [hstore, Finmap.lookup_erase]
    cases hjoined : (a.put m.name m.part m.chunk).joined with
    | none => exact receive_none h hkept (by rw [hstore, hjoined])
    | some whole =>
        obtain ⟨name, data⟩ := whole
        apply h.receive
        · intro b hb
          cases hkept.symm.trans hb
        · intro d hd
          simp only [receive, hstore, hjoined, List.mem_append, List.mem_singleton] at hd
          refine hd.imp_right ?_
          rintro rfl
          refine ⟨fun part hpart => ha.complete hcomplete (hpart.trans_eq hstored.symm), ?_⟩
          rw [(UdpAssembly.joined_eq_some hjoined).2, ha.chunks, hstored]
  · have hstore : handleUDPChunk now m R.assemblies =
        (R.assemblies.insert m.key (a.put m.name m.part m.chunk), none) :=
      hresult.trans (if_pos hcomplete)
    apply h.receive
    · intro b hb
      simp only [receive, hstore, Finmap.lookup_insert] at hb
      rw [hown, ← Option.some.inj hb]
      exact ha
    · intro d hd
      simp only [receive, hstore] at hd
      exact Or.inl hd

theorem receive_described (h : R.Described) (hok : R.NoEmptyRepeat (.message now m)) :
    (R.receive now m).Described := by
  have hcases := handled now m R.assemblies
  generalize hresult : handleUDPChunk now m R.assemblies = result at hcases
  cases hcases with
  | refused hnot =>
      have hsame : R.receive now m = R := by
        simp only [receive, hresult, if_neg hnot]
      rw [hsame]
      exact h
  | full hacc hnone hfull => exact receive_none h (by rw [hresult]; exact hnone) (by rw [hresult])
  | mismatched hacc a hsome hne =>
      exact receive_none h (by rw [hresult, Finmap.lookup_erase]) (by rw [hresult])
  | opened hacc hnone hroom =>
      have hparts : R.partsWith m = [] ++ [(m.part, m.chunk)] := by
        simp only [partsWith, hnone, Option.isSome_none, Bool.false_eq_true, if_false]
      refine receive_store h hacc ?_ rfl hresult
      rw [hparts]
      exact (UdpAssembly.fresh_collected now m.name m.total).put m.name m.chunk hacc.part_lt
        fun hmem => absurd hmem (Finset.notMem_empty _)
  | stored hacc a hsome heq =>
      have hparts : R.partsWith m = R.parts m.key ++ [(m.part, m.chunk)] := by
        simp only [partsWith, hsome, Option.isSome_some, if_true]
      refine receive_store h hacc ?_ heq hresult
      rw [hparts]
      exact (h.kept m.key a hsome).put m.name m.chunk (hacc.part_lt.trans_eq heq.symm)
        (hok hacc a hsome heq)

theorem described_of_reachable (run : reassemblyMachine.ReachableUnder NoEmptyRepeat R) :
    R.Described := by
  refine run.invariant (J := fun _ => True) (fun _ _ => trivial) ?_ ?_
  · rintro R rfl
    constructor
    · intro key a ha
      cases ha
    · intro d hd
      cases hd
  · intro R e _ h _ hok
    cases e with
    | message now m => exact receive_described h hok
    | expire now =>
        refine ⟨fun key a ha => ?_, h.passed⟩
        exact h.kept key a (Table.lookup_filter.mp ha).1
    | close =>
        refine ⟨fun key a ha => ?_, h.passed⟩
        cases ha

end Reassembly

/-- If no message brings a part again that its assembly has received without
data, the counters are right and only complete datagrams are passed on. -/
theorem udp_reassembly_complete {R : Reassembly}
    (run : reassemblyMachine.ReachableUnder Reassembly.NoEmptyRepeat R) : R.Faithful :=
  (Reassembly.described_of_reachable run).faithful

/-- Two parts with data arrive in the wrong order. -/
theorem udp_reassembly_complete_swapped :
    ∃ R, reassemblyMachine.ReachableUnder Reassembly.NoEmptyRepeat R ∧
      ⟨2, [(1, [9]), (0, [8])], [8, 9]⟩ ∈ R.passed ∧ R.Faithful := by
  have hstart : reassemblyMachine.ReachableUnder Reassembly.NoEmptyRepeat .start := .start rfl
  have hfirst := hstart.next (e := .message 0 ⟨1, 1, [], [0, 1, 0, 2, 9]⟩) trivial (by
    intro _ a ha
    cases ha)
  have hsecond := hfirst.next (e := .message 0 ⟨1, 1, [], [0, 0, 0, 2, 8]⟩) trivial (by
    intro _ a _ _ hmem
    revert hmem
    decide +kernel)
  exact ⟨_, hsecond, by decide +kernel, udp_reassembly_complete hsecond⟩

/-- A part without data arrives twice and stands for both parts. -/
theorem udp_empty_part_counted_twice :
    ∃ R, reassemblyMachine.Reachable R ∧ ⟨2, [(0, []), (0, [])], []⟩ ∈ R.passed ∧
      ¬ R.Faithful := by
  have hrun : reassemblyMachine.Reachable ([.message 0 ⟨1, 1, [], [0, 0, 0, 2]⟩,
      .message 0 ⟨1, 1, [], [0, 0, 0, 2]⟩].foldl Reassembly.apply .start) :=
    Machine.ReachableUnder.run (.start rfl) _ ⟨trivial, trivial, trivial, trivial, trivial⟩
  have hpassed : (⟨2, [(0, []), (0, [])], []⟩ : PassedDatagram) ∈
      ([.message 0 ⟨1, 1, [], [0, 0, 0, 2]⟩,
        .message 0 ⟨1, 1, [], [0, 0, 0, 2]⟩].foldl Reassembly.apply .start).passed := by
    decide +kernel
  refine ⟨_, hrun, hpassed, fun h => ?_⟩
  have hmissing := (h.passed _ hpassed).1 1 (by decide)
  revert hmissing
  decide

end UnknownTunnel.App

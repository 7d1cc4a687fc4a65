import UnknownTunnel.App.TcpTable
import UnknownTunnel.Foundation.Crew

/-!
# The limit of the table of TCP connections

A goroutine tests the size of `tcpConns` under one lock and enters its
connection under another, and `openLocalTCP` draws its ID in between. Between
test and entry nothing is reserved, so the limit can be passed and an entry can
be replaced. The limit is kept in the runs in which each test would also count
the goroutines between test and entry, and in which nobody else enters or draws
an ID that a goroutine of `openLocalTCP` has drawn.

## Implementation notes

A goroutine between test and entry holds a reservation. The invariant is that
entries and reservations together stay within the limit, and that a drawn ID is
free.
-/

namespace UnknownTunnel.App

open Foundation ConfigFile Protocol

/-- The goroutine has passed the test and has not entered its connection. -/
def AcceptStage.reserved : AcceptStage → Bool
  | .dialing _ | .connected | .registering => true
  | _ => false

/-- The goroutine has passed the test and has not entered its connection. -/
def OpenStage.reserved : OpenStage → Bool
  | .drawing _ | .registering _ => true
  | _ => false

/-- The goroutine draws IDs. -/
def OpenStage.isDrawing : OpenStage → Bool
  | .drawing _ => true
  | _ => false

theorem countP_set_add {α : Type*} {p : α → Bool} {l : List α} {i : Nat} {a : α}
    (h : l[i]? = some a) (b : α) :
    (l.set i b).countP p + (if p a then 1 else 0) = l.countP p + (if p b then 1 else 0) := by
  obtain ⟨hi, rfl⟩ := List.getElem?_eq_some_iff.mp h
  have hle := List.boole_getElem_le_countP (p := p) hi
  rw [List.countP_set hi]
  omega

namespace TcpTable

/-- The goroutines between test and entry. -/
def reserved (T : TcpTable) : Nat :=
  T.accepts.countP (fun a => a.2.reserved) + T.opens.countP OpenStage.reserved

/-- A test of the size leaves room for the goroutines between test and entry,
or refuses. -/
def LeavesRoom (T : TcpTable) : Prop :=
  T.tcpConns.size + T.reserved < maxTCPConnections ∨ maxTCPConnections ≤ T.tcpConns.size

/-- The ID is drawn by a goroutine of `openLocalTCP` and not entered. -/
def Drawn (T : TcpTable) (id : Nat) : Prop := OpenStage.registering id ∈ T.opens

/-- Tests of the size leave room, and IDs that are drawn are left alone. -/
def Reserves (T : TcpTable) : TcpTableEvent → Prop
  | .accept i _ => ∀ a ∈ T.accepts[i]?,
      (a.2 = .counting → T.LeavesRoom) ∧ (a.2 = .registering → ¬ T.Drawn a.1.connID.toNat)
  | .open i draw _ => ∀ stage ∈ T.opens[i]?,
      (stage = .counting → T.LeavesRoom) ∧
        (stage.isDrawing = true → ∀ id ∈ draw, ¬ T.Drawn id)
  | .message _ | .connection | .closeTCP _ | .close | .clear => True

/-- IDs that are drawn are left alone, whatever the tests of the size find. -/
def LeavesDrawn (T : TcpTable) : TcpTableEvent → Prop
  | .accept i _ => ∀ a ∈ T.accepts[i]?, a.2 = .registering → ¬ T.Drawn a.1.connID.toNat
  | .open i draw _ => ∀ stage ∈ T.opens[i]?,
      stage.isDrawing = true → ∀ id ∈ draw, ¬ T.Drawn id
  | .message _ | .connection | .closeTCP _ | .close | .clear => True

theorem Reserves.leavesDrawn {T : TcpTable} {e : TcpTableEvent} (h : T.Reserves e) :
    T.LeavesDrawn e := by
  cases e with
  | accept i ok => exact fun a ha => (h a ha).2
  | «open» i draw ok => exact fun stage hstage => (h stage hstage).2
  | message m | connection | closeTCP connID | close | clear => trivial

instance (T : TcpTable) : Decidable T.LeavesRoom := inferInstanceAs (Decidable (_ ∨ _))

instance (T : TcpTable) (id : Nat) : Decidable (T.Drawn id) := inferInstanceAs (Decidable (_ ∈ _))

instance decidableReserves (T : TcpTable) : ∀ e, Decidable (T.Reserves e)
  | .accept i _ => inferInstanceAs (Decidable (∀ a ∈ T.accepts[i]?,
      (a.2 = .counting → T.LeavesRoom) ∧ (a.2 = .registering → ¬ T.Drawn a.1.connID.toNat)))
  | .open i draw _ => inferInstanceAs (Decidable (∀ stage ∈ T.opens[i]?,
      (stage = .counting → T.LeavesRoom) ∧
        (stage.isDrawing = true → ∀ id ∈ draw, ¬ T.Drawn id)))
  | .message _ | .connection | .closeTCP _ | .close | .clear => isTrue trivial

instance decidableLeavesDrawn (T : TcpTable) : ∀ e, Decidable (T.LeavesDrawn e)
  | .accept i _ => inferInstanceAs (Decidable (∀ a ∈ T.accepts[i]?,
      a.2 = .registering → ¬ T.Drawn a.1.connID.toNat))
  | .open i draw _ => inferInstanceAs (Decidable (∀ stage ∈ T.opens[i]?,
      stage.isDrawing = true → ∀ id ∈ draw, ¬ T.Drawn id))
  | .message _ | .connection | .closeTCP _ | .close | .clear => isTrue trivial

instance decidableEnabled (T : TcpTable) : ∀ e, Decidable (T.enabled e)
  | .clear => inferInstanceAs (Decidable (T.closed = true))
  | .message _ | .accept _ _ | .connection | .open _ _ _ | .closeTCP _ | .close => isTrue trivial

/-- Drawn IDs are free and different. -/
structure DrawnFree (T : TcpTable) : Prop where
  free : ∀ id, T.Drawn id → id ∉ T.tcpConns
  distinct : ∀ (i j id : Nat), T.opens[i]? = some (OpenStage.registering id) →
    T.opens[j]? = some (OpenStage.registering id) → i = j

/-- Entries and reservations are within the limit. -/
def Fits (T : TcpTable) : Prop := T.tcpConns.size + T.reserved ≤ maxTCPConnections

variable {services : Services} {T T' : TcpTable}

/-! ## Drawn IDs -/

namespace DrawnFree

/-- A step that leaves the opening goroutines alone. -/
theorem of_opens_eq (h : T.DrawnFree) (hopens : T'.opens = T.opens)
    (hsub : ∀ id ∈ T'.tcpConns, id ∈ T.tcpConns ∨ ¬ T.Drawn id) : T'.DrawnFree := by
  refine ⟨?_, ?_⟩
  · intro id hdrawn hmem
    have hdrawn' : T.Drawn id := by
      rw [Drawn, ← hopens]
      exact hdrawn
    rcases hsub id hmem with hold | hnot
    · exact h.free id hdrawn' hold
    · exact hnot hdrawn'
  · rw [hopens]
    exact h.distinct

theorem closeTCP (h : T.DrawnFree) (id : Nat) : (T.closeTCP id).DrawnFree :=
  h.of_opens_eq rfl fun _ hid => Or.inl (Finmap.mem_erase.mp hid).2

theorem handleOpenTCP (h : T.DrawnFree) {i : Nat} {m : Message} {stage : AcceptStage}
    (hdrawn : stage = .registering → ¬ T.Drawn m.connID.toNat) (ok : Bool) :
    (T.handleOpenTCP services i m ok stage).DrawnFree := by
  have hsame {stage' : AcceptStage} : (T.goAccept i m stage').DrawnFree := ⟨h.free, h.distinct⟩
  cases stage with
  | started | connected => exact hsame
  | counting =>
      simp only [TcpTable.handleOpenTCP]
      split
      · exact ⟨h.free, h.distinct⟩
      · split <;> exact ⟨h.free, h.distinct⟩
  | dialing address =>
      simp only [TcpTable.handleOpenTCP]
      split
      · exact hsame
      · exact ⟨h.free, h.distinct⟩
  | registering =>
      simp only [TcpTable.handleOpenTCP]
      split
      · exact hsame
      · refine h.of_opens_eq rfl fun id hid => ?_
        rcases Finmap.mem_insert.mp hid with rfl | hold
        · exact Or.inr (hdrawn rfl)
        · exact Or.inl hold
  | announcing =>
      simp only [TcpTable.handleOpenTCP]
      split
      · exact ⟨h.free, h.distinct⟩
      · exact hsame.closeTCP _
  | finished => exact h

theorem goOpen (h : T.DrawnFree) (i : Nat) (stage' : OpenStage)
    (hnew : ∀ id, stage' = .registering id → id ∉ T.tcpConns ∧ ¬ T.Drawn id) :
    (T.goOpen i stage').DrawnFree := by
  refine ⟨?_, ?_⟩
  · intro id hdrawn
    rcases List.mem_or_eq_of_mem_set hdrawn with hold | heq
    · exact h.free id hold
    · exact (hnew id heq.symm).1
  · -- Two goroutines with one drawn ID: both old, or one has just drawn it.
    intro j k id hj hk
    rcases Crew.getElem?_set hj with ⟨hji, hstage⟩ | ⟨_, hjold⟩
    · rcases Crew.getElem?_set hk with ⟨hki, _⟩ | ⟨_, hkold⟩
      · exact hji.trans hki.symm
      · exact absurd (List.mem_of_getElem? hkold) (hnew id hstage.symm).2
    · rcases Crew.getElem?_set hk with ⟨_, hstage⟩ | ⟨_, hkold⟩
      · exact absurd (List.mem_of_getElem? hjold) (hnew id hstage.symm).2
      · exact h.distinct j k id hjold hkold

theorem finishOpen (h : T.DrawnFree) (i : Nat) : (T.goOpen i .finished).DrawnFree :=
  h.goOpen i .finished fun _ hs => by cases hs

/-- A drawn ID is entered, and no other goroutine has drawn it. -/
theorem enter (h : T.DrawnFree) {i id : Nat} (hi : T.opens[i]? = some (.registering id)) :
    DrawnFree { T.goOpen i (.sending id) with tcpConns := T.tcpConns.insert id (.opened i) } := by
  have hgo := h.goOpen i (.sending id) fun _ hs => by cases hs
  refine ⟨?_, hgo.distinct⟩
  intro id' hdrawn hmem
  rcases Finmap.mem_insert.mp hmem with rfl | hold
  · obtain ⟨j, hj⟩ := List.getElem?_of_mem hdrawn
    rcases Crew.getElem?_set hj with ⟨_, hstage⟩ | ⟨hne, hj⟩
    · cases hstage
    · exact hne (h.distinct j i _ hj hi)
  · exact hgo.free id' hdrawn hold

theorem openLocalTCP (h : T.DrawnFree) {i : Nat} {stage : OpenStage}
    (hi : T.opens[i]? = some stage) {draw : Option Nat} (ok : Bool)
    (hdrawn : stage.isDrawing = true → ∀ id ∈ draw, ¬ T.Drawn id) :
    (T.openLocalTCP i draw ok stage).DrawnFree := by
  cases stage with
  | started | counting =>
      simp only [TcpTable.openLocalTCP]
      split
      · exact h.finishOpen i
      · exact h.goOpen i _ fun _ hs => by cases hs
  | drawing attempts =>
      cases draw with
      | none => exact h.finishOpen i
      | some id =>
          simp only [TcpTable.openLocalTCP]
          split
          · split
            · exact h.goOpen i _ fun _ hs => by cases hs
            · exact h.finishOpen i
          · rename_i hfree
            refine h.goOpen i (.registering id) ?_
            rintro id' ⟨⟩
            exact ⟨hfree, hdrawn rfl id rfl⟩
  | registering id => exact h.enter hi
  | sending id =>
      simp only [TcpTable.openLocalTCP]
      split
      · exact h.goOpen i _ fun _ hs => by cases hs
      · exact (h.finishOpen i).closeTCP id
  | waiting id =>
      simp only [TcpTable.openLocalTCP]
      split
      · exact h.finishOpen i
      · exact (h.finishOpen i).closeTCP id
  | finished => exact h

theorem apply (h : T.DrawnFree) {e : TcpTableEvent} (hok : T.LeavesDrawn e) :
    (T.apply services e).DrawnFree := by
  cases e with
  | message m =>
      simp only [TcpTable.apply]
      split
      · exact ⟨h.free, h.distinct⟩
      · split
        · exact h.closeTCP _
        · exact h
  | accept i ok =>
      simp only [TcpTable.apply]
      split
      · rename_i m stage hi
        exact h.handleOpenTCP (hok _ hi) ok
      · exact h
  | connection =>
      have hold : ∀ {j id : Nat}, (T.opens ++ [.started])[j]? = some (OpenStage.registering id) →
          T.opens[j]? = some (.registering id) := by
        intro j id hj
        rcases Crew.getElem?_concat hj with ⟨_, hstage⟩ | ⟨_, hj⟩
        · cases hstage
        · exact hj
      refine ⟨?_, ?_⟩
      · intro id hdrawn
        obtain ⟨j, hj⟩ := List.getElem?_of_mem hdrawn
        exact h.free id (List.mem_of_getElem? (hold hj))
      · intro j k id hj hk
        exact h.distinct j k id (hold hj) (hold hk)
  | «open» i draw ok =>
      simp only [TcpTable.apply]
      split
      · rename_i stage hi
        exact h.openLocalTCP hi ok (hok stage hi)
      · exact h
  | closeTCP id => exact h.closeTCP id
  | close => exact ⟨h.free, h.distinct⟩
  | clear => exact h.of_opens_eq rfl fun id hid => absurd hid Finmap.notMem_empty

end DrawnFree

theorem drawnFree_of_reachable {cfg : Config}
    (run : (tcpTableMachine cfg).ReachableUnder LeavesDrawn T) : T.DrawnFree := by
  refine run.invariant (I := DrawnFree) (J := fun _ => True) (fun _ _ => trivial) ?_
    fun s e _ h _ hok => h.apply hok
  rintro s rfl
  exact ⟨nofun, nofun⟩

/-! ## Reservations -/

theorem reserved_goAccept {i : Nat} {m : Message} {stage : AcceptStage}
    (hi : T.accepts[i]? = some (m, stage)) (stage' : AcceptStage) :
    (T.goAccept i m stage').reserved + (if stage.reserved then 1 else 0) =
      T.reserved + (if stage'.reserved then 1 else 0) := by
  have hcount := countP_set_add (p := fun a => a.2.reserved) hi (m, stage')
  simp only [reserved, goAccept]
  simp only at hcount
  omega

theorem reserved_goOpen {i : Nat} {stage : OpenStage} (hi : T.opens[i]? = some stage)
    (stage' : OpenStage) :
    (T.goOpen i stage').reserved + (if stage.reserved then 1 else 0) =
      T.reserved + (if stage'.reserved then 1 else 0) := by
  have hcount := countP_set_add (p := OpenStage.reserved) hi stage'
  simp only [reserved, goOpen]
  omega

namespace Fits

/-- A goroutine that changes its stage takes a reservation only with room. -/
theorem of_move (h : T.Fits) {before after : Bool} {reserved' : Nat}
    (hcount : reserved' + (if before then 1 else 0) = T.reserved + (if after then 1 else 0))
    (hroom : after = true → before = false →
      T.tcpConns.size + T.reserved < maxTCPConnections) :
    T.tcpConns.size + reserved' ≤ maxTCPConnections := by
  have hsize : T.tcpConns.size + T.reserved ≤ maxTCPConnections := h
  cases after with
  | false =>
      simp only [Bool.false_eq_true, if_false] at hcount
      omega
  | true =>
      cases before with
      | false =>
          have hlt := hroom rfl rfl
          simp only [Bool.false_eq_true, if_false, if_true] at hcount
          omega
      | true =>
          simp only [if_true] at hcount
          omega

theorem goAccept (h : T.Fits) {i : Nat} {m : Message} {stage : AcceptStage}
    (hi : T.accepts[i]? = some (m, stage)) (stage' : AcceptStage)
    (hroom : stage'.reserved = true → stage.reserved = false →
      T.tcpConns.size + T.reserved < maxTCPConnections) : (T.goAccept i m stage').Fits :=
  h.of_move (reserved_goAccept hi stage') hroom

/-- A goroutine that ends, whatever it answers. -/
theorem finishAccept (h : T.Fits) {i : Nat} {m : Message} {stage : AcceptStage}
    (hi : T.accepts[i]? = some (m, stage)) : (T.goAccept i m .finished).Fits :=
  h.goAccept hi .finished fun hreserved => by cases hreserved

theorem closeTCP (h : T.Fits) (id : Nat) : (T.closeTCP id).Fits := by
  have hle := Table.size_erase_le T.tcpConns id
  have hsize : T.tcpConns.size + T.reserved ≤ maxTCPConnections := h
  show Table.size (T.tcpConns.erase id) + T.reserved ≤ maxTCPConnections
  omega

/-- An entry takes the place of a reservation. -/
theorem enter (h : T.Fits) {reserved' : Nat} (hcount : reserved' + 1 = T.reserved) (id : Nat)
    (owner : ConnOwner) :
    Table.size (T.tcpConns.insert id owner) + reserved' ≤ maxTCPConnections := by
  have hle := Table.size_insert_le T.tcpConns id owner
  have hsize : T.tcpConns.size + T.reserved ≤ maxTCPConnections := h
  omega

theorem handleOpenTCP (h : T.Fits) {i : Nat} {m : Message} {stage : AcceptStage}
    (hi : T.accepts[i]? = some (m, stage)) (ok : Bool)
    (hroom : stage = .counting → T.LeavesRoom) :
    (T.handleOpenTCP services i m ok stage).Fits := by
  cases stage with
  | started =>
      apply h.goAccept hi
      intro hreserved
      split at hreserved <;> cases hreserved
  | counting =>
      simp only [TcpTable.handleOpenTCP]
      split
      · exact h.finishAccept hi
      · rename_i hbelow
        split
        · exact h.finishAccept hi
        · rename_i address _
          exact h.goAccept hi (.dialing address) fun _ _ => (hroom rfl).resolve_right hbelow
  | dialing address =>
      simp only [TcpTable.handleOpenTCP]
      split
      · exact h.goAccept hi .connected fun _ hs => by cases hs
      · exact h.finishAccept hi
  | connected => exact h.goAccept hi _ fun _ hs => by cases hs
  | registering =>
      simp only [TcpTable.handleOpenTCP]
      split
      · exact h.finishAccept hi
      · exact h.enter (reserved_goAccept hi .announcing) _ _
  | announcing =>
      simp only [TcpTable.handleOpenTCP]
      split
      · exact h.finishAccept hi
      · exact (h.finishAccept hi).closeTCP _
  | finished => exact h

theorem goOpen (h : T.Fits) {i : Nat} {stage : OpenStage} (hi : T.opens[i]? = some stage)
    (stage' : OpenStage)
    (hroom : stage'.reserved = true → stage.reserved = false →
      T.tcpConns.size + T.reserved < maxTCPConnections) : (T.goOpen i stage').Fits :=
  h.of_move (reserved_goOpen hi stage') hroom

theorem finishOpen (h : T.Fits) {i : Nat} {stage : OpenStage}
    (hi : T.opens[i]? = some stage) : (T.goOpen i .finished).Fits :=
  h.goOpen hi .finished fun hreserved => by cases hreserved

theorem openLocalTCP (h : T.Fits) {i : Nat} {stage : OpenStage}
    (hi : T.opens[i]? = some stage) (draw : Option Nat) (ok : Bool)
    (hroom : stage = .counting → T.LeavesRoom) : (T.openLocalTCP i draw ok stage).Fits := by
  cases stage with
  | started =>
      simp only [TcpTable.openLocalTCP]
      split
      · exact h.finishOpen hi
      · exact h.goOpen hi .counting fun hr => by cases hr
  | counting =>
      simp only [TcpTable.openLocalTCP]
      split
      · exact h.finishOpen hi
      · rename_i hbelow
        exact h.goOpen hi (.drawing 0) fun _ _ => (hroom rfl).resolve_right hbelow
  | drawing attempts =>
      cases draw with
      | none => exact h.finishOpen hi
      | some id =>
          simp only [TcpTable.openLocalTCP]
          split
          · split
            · exact h.goOpen hi (.drawing (attempts + 1)) fun _ hs => by cases hs
            · exact h.finishOpen hi
          · exact h.goOpen hi (.registering id) fun _ hs => by cases hs
  | registering id => exact h.enter (reserved_goOpen hi (.sending id)) _ _
  | sending id =>
      simp only [TcpTable.openLocalTCP]
      split
      · exact h.goOpen hi (.waiting id) fun hr => by cases hr
      · exact (h.finishOpen hi).closeTCP id
  | waiting id =>
      simp only [TcpTable.openLocalTCP]
      split
      · exact h.finishOpen hi
      · exact (h.finishOpen hi).closeTCP id
  | finished => exact h

theorem apply (h : T.Fits) {e : TcpTableEvent} (hok : T.Reserves e) :
    (T.apply services e).Fits := by
  have hsize : T.tcpConns.size + T.reserved ≤ maxTCPConnections := h
  cases e with
  | message m =>
      simp only [TcpTable.apply]
      split
      · simpa [Fits, reserved, AcceptStage.reserved] using hsize
      · split
        · exact h.closeTCP _
        · exact h
  | accept i ok =>
      simp only [TcpTable.apply]
      split
      · rename_i m stage hi
        exact h.handleOpenTCP hi ok (hok _ hi).1
      · exact h
  | connection => simpa [Fits, TcpTable.apply, reserved, OpenStage.reserved] using hsize
  | «open» i draw ok =>
      simp only [TcpTable.apply]
      split
      · rename_i stage hi
        exact h.openLocalTCP hi draw ok (hok stage hi).1
      · exact h
  | closeTCP id => exact h.closeTCP id
  | close => exact h
  | clear =>
      show (∅ : Table Nat ConnOwner).size + T.reserved ≤ maxTCPConnections
      rw [Table.size_empty]
      omega

end Fits

theorem fits_of_reachable {cfg : Config} (run : (tcpTableMachine cfg).ReachableUnder Reserves T) :
    T.Fits := by
  refine run.invariant (I := Fits) (J := fun _ => True) (fun _ _ => trivial) ?_
    fun s e _ h _ hok => h.apply hok
  rintro s rfl
  show (∅ : Table Nat ConnOwner).size + 0 ≤ maxTCPConnections
  rw [Table.size_empty]
  decide

/-! ## Steps and runs -/

/-- What a step does to the table: connections are entered where none is. -/
inductive Changes (conns : Table Nat ConnOwner) : Table Nat ConnOwner → Prop
  | same : Changes conns conns
  | entered (id : Nat) (owner : ConnOwner) (free : id ∉ conns) :
      Changes conns (conns.insert id owner)
  | closed (id : Nat) : Changes conns (conns.erase id)
  | cleared : Changes conns ∅

theorem Changes.owner_eq {conns conns' : Table Nat ConnOwner} (h : Changes conns conns')
    {id : Nat} {owner owner' : ConnOwner} (hbefore : conns.lookup id = some owner)
    (hafter : conns'.lookup id = some owner') : owner' = owner := by
  cases h with
  | same =>
      rw [hbefore] at hafter
      exact (Option.some.inj hafter).symm
  | entered id' new free =>
      have hne : id ≠ id' := by
        rintro rfl
        exact free (Finmap.lookup_isSome.mp (by rw [hbefore]; rfl))
      rw [Finmap.lookup_insert_of_ne _ hne, hbefore] at hafter
      exact (Option.some.inj hafter).symm
  | closed id' =>
      rw [Table.lookup_erase_eq] at hafter
      split at hafter
      · cases hafter
      · rw [hbefore] at hafter
        exact (Option.some.inj hafter).symm
  | cleared =>
      rw [Finmap.lookup_empty] at hafter
      cases hafter

theorem changes_handleOpenTCP (i : Nat) (m : Message) (ok : Bool) (stage : AcceptStage) :
    Changes T.tcpConns (T.handleOpenTCP services i m ok stage).tcpConns := by
  cases stage with
  | started | connected | finished => exact .same
  | counting =>
      simp only [TcpTable.handleOpenTCP]
      split
      · exact .same
      · split <;> exact .same
  | dialing address =>
      simp only [TcpTable.handleOpenTCP]
      split <;> exact .same
  | registering =>
      simp only [TcpTable.handleOpenTCP]
      split
      · exact .same
      · rename_i hfree
        exact .entered _ _ hfree
  | announcing =>
      simp only [TcpTable.handleOpenTCP]
      split
      · exact .same
      · exact .closed _

/-- `openLocalTCP` enters its connection without a test: the invariant says that
the ID is free. -/
theorem DrawnFree.changes_openLocalTCP (h : T.DrawnFree) {i : Nat} {stage : OpenStage}
    (hi : T.opens[i]? = some stage) (draw : Option Nat) (ok : Bool) :
    Changes T.tcpConns (T.openLocalTCP i draw ok stage).tcpConns := by
  cases stage with
  | started | counting | finished => exact .same
  | drawing attempts =>
      cases draw with
      | none => exact .same
      | some id =>
          simp only [TcpTable.openLocalTCP]
          split <;> exact .same
  | registering id => exact .entered _ _ (h.free id (List.mem_of_getElem? hi))
  | sending id | waiting id =>
      simp only [TcpTable.openLocalTCP]
      split
      · exact .same
      · exact .closed _

theorem DrawnFree.changes (h : T.DrawnFree) (e : TcpTableEvent) :
    Changes T.tcpConns (T.apply services e).tcpConns := by
  cases e with
  | message m =>
      simp only [TcpTable.apply]
      split
      · exact .same
      · split
        · exact .closed _
        · exact .same
  | accept i ok =>
      simp only [TcpTable.apply]
      split
      · exact changes_handleOpenTCP _ _ _ _
      · exact .same
  | «open» i draw ok =>
      simp only [TcpTable.apply]
      split
      · rename_i stage hi
        exact h.changes_openLocalTCP hi draw ok
      · exact .same
  | connection | close => exact .same
  | closeTCP id => exact .closed id
  | clear => exact .cleared

end TcpTable

/-- In every run in which each test of the size leaves room for the goroutines
between test and entry, and in which drawn IDs are left alone, the table holds
at most `maxTCPConnections` connections, and no step replaces a connection. -/
theorem tcp_limit_kept (cfg : Config) (T : TcpTable)
    (run : (tcpTableMachine cfg).ReachableUnder TcpTable.Reserves T) :
    T.tcpConns.size ≤ maxTCPConnections ∧
    ∀ e, T.enabled e → T.Reserves e → ∀ id owner owner',
      T.tcpConns.lookup id = some owner →
      (T.apply cfg.services e).tcpConns.lookup id = some owner' → owner' = owner := by
  constructor
  · exact Nat.le_of_add_right_le (TcpTable.fits_of_reachable run)
  · intro e _ _ id owner owner' hbefore hafter
    have hdrawn := TcpTable.drawnFree_of_reachable
      (run.mono fun _ _ => TcpTable.Reserves.leavesDrawn)
    exact (hdrawn.changes e).owner_eq hbefore hafter

instance (cfg : Config) : ∀ T e, Decidable ((tcpTableMachine cfg).enabled T e) :=
  TcpTable.decidableEnabled

/-! ## A server with one TCP service -/

/-- The server of the small configuration, with a TCP service. -/
def webConfig : Config :=
  { sampleConfig with
    services := AList.singleton (ofString "web") ⟨tcp, ofString "127.0.0.1:80"⟩
    forwards := [] }

/-- The request to open a connection to it under an ID. -/
def webRequest (id : Nat) : Message :=
  { id := UInt64.ofNat id, type := typeOpenTCP, connID := UInt64.ofNat id, seq := 0
    name := ofString "web", error := [], payload := [] }

/-- A connection of the peer under the ID 7 and one opened here under 8. -/
def twoConnections : List TcpTableEvent :=
  [.message (webRequest 7), .accept 0 true, .accept 0 true, .accept 0 true, .accept 0 true,
    .accept 0 true, .connection, .open 0 none true, .open 0 none true, .open 0 (some 8) true,
    .open 0 none true]

theorem tcp_limit_kept_two_connections :
    ∃ T, (tcpTableMachine webConfig).ReachableUnder TcpTable.Reserves T ∧
      T.tcpConns.lookup 7 = some (.accepted 0) ∧ T.tcpConns.lookup 8 = some (.opened 0) ∧
      T.tcpConns.size ≤ maxTCPConnections := by
  have run : (tcpTableMachine webConfig).ReachableUnder TcpTable.Reserves
      (twoConnections.foldl (TcpTable.apply _) {}) :=
    Machine.ReachableUnder.run (.start rfl) twoConnections (by decide +kernel)
  exact ⟨_, run, by decide +kernel, by decide +kernel, (tcp_limit_kept _ _ run).1⟩

/-! ## Requests that all pass the test -/

/-- A request is driven up to its entry while the table stays as it is. -/
theorem reachable_registering {cfg : Config} {T : TcpTable} {m : Message} {address : Bytes}
    (run : (tcpTableMachine cfg).Reachable T) (hopen : T.closed = false)
    (hroom : T.tcpConns.size < maxTCPConnections) (htype : m.type = typeOpenTCP)
    (haddress : TcpTable.tcpAddress cfg.services m.name = some address) :
    (tcpTableMachine cfg).Reachable
      { T with
        accepts := T.accepts ++ [(m, .registering)], dialed := T.dialed ++ [(m, address)] } := by
  have hstarted : (tcpTableMachine cfg).Reachable
      { T with accepts := T.accepts ++ [(m, .started)] } :=
    run.to (.message m) trivial trivial (by simp [tcpTableMachine, TcpTable.apply, htype])
  have hcounting : (tcpTableMachine cfg).Reachable
      { T with accepts := T.accepts ++ [(m, .counting)] } :=
    hstarted.to (.accept T.accepts.length true) trivial trivial
      (by simp [tcpTableMachine, TcpTable.apply, TcpTable.handleOpenTCP, TcpTable.goAccept, hopen])
  have hdialing : (tcpTableMachine cfg).Reachable
      { T with
        accepts := T.accepts ++ [(m, .dialing address)], dialed := T.dialed ++ [(m, address)] } :=
    hcounting.to (.accept T.accepts.length true) trivial trivial
      (by simp [tcpTableMachine, TcpTable.apply, TcpTable.handleOpenTCP, TcpTable.goAccept,
        Nat.not_le.mpr hroom, haddress])
  have hconnected : (tcpTableMachine cfg).Reachable
      { T with
        accepts := T.accepts ++ [(m, .connected)], dialed := T.dialed ++ [(m, address)] } :=
    hdialing.to (.accept T.accepts.length true) trivial trivial
      (by simp [tcpTableMachine, TcpTable.apply, TcpTable.handleOpenTCP, TcpTable.goAccept])
  exact hconnected.to (.accept T.accepts.length true) trivial trivial
    (by simp [tcpTableMachine, TcpTable.apply, TcpTable.handleOpenTCP, TcpTable.goAccept, hopen])

/-- Any number of requests stand before their entries, with the table empty. -/
theorem reachable_crowd (n : Nat) :
    ∃ T, (tcpTableMachine webConfig).Reachable T ∧ T.closed = false ∧ T.tcpConns = ∅ ∧
      T.accepts = (List.range n).map fun k => (webRequest k, .registering) := by
  induction n with
  | zero => exact ⟨{}, .start rfl, rfl, rfl, rfl⟩
  | succ n ih =>
      obtain ⟨T, run, hopen, hempty, haccepts⟩ := ih
      have hroom : T.tcpConns.size < maxTCPConnections := by
        rw [hempty, Table.size_empty]
        decide
      have haddress : TcpTable.tcpAddress webConfig.services (ofString "web") =
          some (ofString "127.0.0.1:80") := by decide +kernel
      refine ⟨_, reachable_registering (m := webRequest n) run hopen hroom rfl haddress, hopen,
        hempty, ?_⟩
      rw [List.range_succ, List.map_append, ← haccepts]
      rfl

/-- They enter one after the other, and nothing stops them. -/
theorem reachable_entered {n : Nat} (hn : n ≤ 2 ^ 64) (k : Nat) (hk : k ≤ n) :
    ∃ T, (tcpTableMachine webConfig).Reachable T ∧ T.tcpConns.size = k ∧
      ∀ j, k ≤ j → j < n →
        T.accepts[j]? = some (webRequest j, .registering) ∧ j ∉ T.tcpConns := by
  induction k with
  | zero =>
      obtain ⟨T, run, _, hempty, haccepts⟩ := reachable_crowd n
      refine ⟨T, run, by rw [hempty, Table.size_empty], ?_⟩
      intro j _ hj
      rw [haccepts, hempty]
      exact ⟨by simp [hj], Finmap.notMem_empty⟩
  | succ k ih =>
      obtain ⟨T, run, hsize, hwaiting⟩ := ih (by omega)
      obtain ⟨hk', hfree⟩ := hwaiting k le_rfl hk
      have hid : ∀ j < n, (webRequest j).connID.toNat = j := by
        intro j hj
        exact Nat.mod_eq_of_lt (by omega)
      have hnext : TcpTable.apply webConfig.services T (.accept k true) =
          { T.goAccept k (webRequest k) .announcing with
            tcpConns := T.tcpConns.insert k (.accepted k) } := by
        simp only [TcpTable.apply, hk', TcpTable.handleOpenTCP, hid k hk, hfree, if_false]
      refine ⟨_, run.to (.accept k true) trivial trivial hnext, ?_, ?_⟩
      · show Table.size (T.tcpConns.insert k _) = k + 1
        rw [Table.size_insert_of_notMem hfree, hsize]
      · intro j hkj hj
        obtain ⟨haccept, hfreej⟩ := hwaiting j (by omega) hj
        constructor
        · show (T.accepts.set k _)[j]? = _
          rw [List.getElem?_set_ne (by omega), haccept]
        · rw [Finmap.mem_insert]
          rintro (rfl | hmem)
          · omega
          · exact hfreej hmem

/-- The peer's connection 7 is entered after this node has drawn the ID 7. -/
def drawnThenAccepted : List TcpTableEvent :=
  [.connection, .open 0 none true, .open 0 none true, .open 0 (some 7) true,
    .message (webRequest 7), .accept 0 true, .accept 0 true, .accept 0 true, .accept 0 true,
    .accept 0 true]

/-- More requests than the limit pass the test while the table is empty and all
enter. And the entry of a connection opened here replaces one of the peer. -/
theorem tcp_limit_passed_and_entry_replaced :
    (∃ T, (tcpTableMachine webConfig).Reachable T ∧ maxTCPConnections < T.tcpConns.size) ∧
    ∃ T, (tcpTableMachine webConfig).Reachable T ∧
      T.tcpConns.lookup 7 = some (.accepted 0) ∧
      (T.apply webConfig.services (.open 0 none true)).tcpConns.lookup 7 =
        some (.opened 0) := by
  constructor
  · obtain ⟨T, run, hsize, _⟩ :=
      reachable_entered (n := maxTCPConnections + 1) (by decide) _ le_rfl
    exact ⟨T, run, by omega⟩
  · refine ⟨_, Machine.ReachableUnder.run (.start rfl) drawnThenAccepted (by decide +kernel),
      by decide +kernel, by decide +kernel⟩

end UnknownTunnel.App

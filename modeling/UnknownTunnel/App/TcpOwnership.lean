import UnknownTunnel.App.TcpCapacity
import UnknownTunnel.Foundation.Copies
import UnknownTunnel.Foundation.Crew

/-!
# Who owns a connection

A connection comes to a node from a listener or from a dial for the peer. The
goroutine that has it enters it in `tcpConns` or closes it, and whoever takes an
entry out of the table closes it. So each connection is in one place: with its
goroutine, in the table, or closed. The one exception is an entry that
`openLocalTCP` replaces because its ID came into use after it was drawn.

## Implementation notes

The steps are those of the table. Which connections a node has got, closed and
replaced is kept as the number of times it has happened to each.
-/

namespace UnknownTunnel.App

open Foundation ConfigFile Protocol

/-- The goroutine has a connection that it has neither entered nor closed. -/
def AcceptStage.holds : AcceptStage → Nat
  | .connected | .registering => 1
  | _ => 0

/-- The goroutine has a connection that it has neither entered nor closed. -/
def OpenStage.holds : OpenStage → Nat
  | .started | .counting | .drawing _ | .registering _ => 1
  | _ => 0

/-- The goroutine may still dial. -/
def AcceptStage.early : AcceptStage → Bool
  | .started | .counting | .dialing _ => true
  | _ => false

/-- One if the connections are the same. -/
def ConnOwner.is (o o' : ConnOwner) : Nat := if o = o' then 1 else 0

namespace TcpTable

/-- Whether the goroutine of the connection holds it. -/
def held (T : TcpTable) : ConnOwner → Nat
  | .accepted i => match T.accepts[i]? with
      | some (_, stage) => stage.holds
      | none => 0
  | .opened i => match T.opens[i]? with
      | some stage => stage.holds
      | none => 0

/-- The connections that a step of `closeTCP` closes. -/
def taken (T : TcpTable) (connID : Nat) (o : ConnOwner) : Nat :=
  if Finmap.lookup connID T.tcpConns = some o then 1 else 0

/-- The connections that a goroutine of `handleOpenTCP` closes. -/
def acceptCloses (T : TcpTable) (i : Nat) (m : Message) (ok : Bool) (o : ConnOwner) :
    AcceptStage → Nat
  | .connected => if T.closed then o.is (.accepted i) else 0
  | .registering => if m.connID.toNat ∈ T.tcpConns then o.is (.accepted i) else 0
  | .announcing => if ok then 0 else T.taken m.connID.toNat o
  | _ => 0

/-- The connections that a goroutine of `openLocalTCP` closes. -/
def openCloses (T : TcpTable) (i : Nat) (draw : Option Nat) (ok : Bool) (o : ConnOwner) :
    OpenStage → Nat
  | .started => if T.closed then o.is (.opened i) else 0
  | .counting => if maxTCPConnections ≤ T.tcpConns.size then o.is (.opened i) else 0
  | .drawing attempts => match draw with
      | none => o.is (.opened i)
      | some id => if id ∈ T.tcpConns ∧ ¬ attempts + 1 < 10 then o.is (.opened i) else 0
  | .sending id | .waiting id => if ok then 0 else T.taken id o
  | _ => 0

/-- The connections that a step closes. -/
def closes (T : TcpTable) (o : ConnOwner) : TcpTableEvent → Nat
  | .message m => if m.type = typeOpenTCP then 0
      else if m.type = typeTCPClose then T.taken m.connID.toNat o
      else 0
  | .accept i ok => match T.accepts[i]? with
      | some (m, stage) => T.acceptCloses i m ok o stage
      | none => 0
  | .open i draw ok => match T.opens[i]? with
      | some stage => T.openCloses i draw ok o stage
      | none => 0
  | .closeTCP connID => T.taken connID o
  | .clear => T.tcpConns.copies o
  | .connection | .close => 0

/-- A dial that succeeds brings a connection. -/
def acceptObtains (i : Nat) (ok : Bool) (o : ConnOwner) : AcceptStage → Nat
  | .dialing _ => if ok then o.is (.accepted i) else 0
  | _ => 0

/-- The connections that a step brings. -/
def obtains (T : TcpTable) (o : ConnOwner) : TcpTableEvent → Nat
  | .accept i ok => match T.accepts[i]? with
      | some (_, stage) => acceptObtains i ok o stage
      | none => 0
  | .connection => o.is (.opened T.opens.length)
  | _ => 0

/-- The connections whose entry a step replaces. -/
def replaces (T : TcpTable) (o : ConnOwner) : TcpTableEvent → Nat
  | .open i _ _ => match T.opens[i]? with
      | some (.registering id) => T.taken id o
      | _ => 0
  | _ => 0

end TcpTable

/-- The table, and what has happened to each connection so far. -/
structure ConnLedger where
  table : TcpTable
  obtained : ConnOwner → Nat
  closed : ConnOwner → Nat
  replaced : ConnOwner → Nat

/-- The steps of the table, with what they do to the connections. -/
def ledgerMachine (cfg : Config) : Machine ConnLedger TcpTableEvent where
  init := fun S => S = ⟨{}, 0, 0, 0⟩
  enabled := fun S e => S.table.enabled e
  apply := fun S e =>
    { table := S.table.apply cfg.services e
      obtained := fun o => S.obtained o + S.table.obtains o e
      closed := fun o => S.closed o + S.table.closes o e
      replaced := fun o => S.replaced o + S.table.replaces o e }

namespace TcpTable

variable {services : Services} {T : TcpTable} {o : ConnOwner}

/-- A goroutine of `handleOpenTCP` moves on: what it held is held, entered or
closed. -/
theorem balance_accept {T' : TcpTable} {i : Nat} {m : Message} {stage stage' : AcceptStage}
    {closes obtains : Nat} (hi : T.accepts[i]? = some (m, stage))
    (haccepts : T'.accepts = T.accepts.set i (m, stage')) (hopens : T'.opens = T.opens)
    (hmove : stage'.holds * o.is (.accepted i) + T'.tcpConns.copies o + closes =
      stage.holds * o.is (.accepted i) + T.tcpConns.copies o + obtains) :
    T'.held o + T'.tcpConns.copies o + closes = T.held o + T.tcpConns.copies o + obtains := by
  have hheld : T'.held o + stage.holds * o.is (.accepted i) =
      T.held o + stage'.holds * o.is (.accepted i) := by
    cases o with
    | accepted j =>
        by_cases hj : j = i
        · subst hj
          have hlt := (List.getElem?_eq_some_iff.mp hi).1
          simp only [held, haccepts, hi, List.getElem?_set_self hlt, ConnOwner.is, if_true]
          omega
        · simp [held, haccepts, ConnOwner.is, hj, List.getElem?_set_ne (Ne.symm hj)]
    | opened j => simp [held, hopens, ConnOwner.is]
  omega

/-- A goroutine of `openLocalTCP` moves on. -/
theorem balance_open {T' : TcpTable} {i : Nat} {stage stage' : OpenStage}
    {closes : Nat} (hi : T.opens[i]? = some stage)
    (hopens : T'.opens = T.opens.set i stage') (haccepts : T'.accepts = T.accepts)
    (hmove : stage'.holds * o.is (.opened i) + T'.tcpConns.copies o + closes =
      stage.holds * o.is (.opened i) + T.tcpConns.copies o) :
    T'.held o + T'.tcpConns.copies o + closes = T.held o + T.tcpConns.copies o := by
  have hheld : T'.held o + stage.holds * o.is (.opened i) =
      T.held o + stage'.holds * o.is (.opened i) := by
    cases o with
    | opened j =>
        by_cases hj : j = i
        · subst hj
          have hlt := (List.getElem?_eq_some_iff.mp hi).1
          simp only [held, hopens, hi, List.getElem?_set_self hlt, ConnOwner.is, if_true]
          omega
        · simp [held, hopens, ConnOwner.is, hj, List.getElem?_set_ne (Ne.symm hj)]
    | accepted j => simp [held, haccepts, ConnOwner.is]
  omega

/-- What `closeTCP` takes out of the table it closes. -/
theorem copies_closeTCP (T : TcpTable) (connID : Nat) (o : ConnOwner) :
    (T.closeTCP connID).tcpConns.copies o + T.taken connID o = T.tcpConns.copies o :=
  Table.copies_erase T.tcpConns connID o

/-- What an entry replaces is no longer in the table. -/
theorem copies_insert (T : TcpTable) (connID : Nat) (o o' : ConnOwner) :
    Table.copies (T.tcpConns.insert connID o') o + T.taken connID o =
      T.tcpConns.copies o + o.is o' := by
  rw [taken, Table.copies_insert, ConnOwner.is]
  simp only [eq_comm]

theorem taken_of_notMem {connID : Nat} (h : connID ∉ T.tcpConns) : T.taken connID o = 0 := by
  rw [taken, Finmap.lookup_eq_none.mpr h]
  rfl

/-- A step of `handleOpenTCP` moves a connection from one place to another. -/
theorem handleOpenTCP_balance {i : Nat} {m : Message} {stage : AcceptStage}
    (hi : T.accepts[i]? = some (m, stage)) (ok : Bool) :
    (T.handleOpenTCP services i m ok stage).held o +
        (T.handleOpenTCP services i m ok stage).tcpConns.copies o +
        T.acceptCloses i m ok o stage =
      T.held o + T.tcpConns.copies o + acceptObtains i ok o stage := by
  cases stage with
  | started =>
      refine balance_accept hi rfl rfl ?_
      split <;> simp [handleOpenTCP, goAccept, acceptCloses, acceptObtains, AcceptStage.holds]
  | counting =>
      simp only [handleOpenTCP]
      split
      · exact balance_accept hi rfl rfl rfl
      · split <;> exact balance_accept hi rfl rfl rfl
  | dialing address =>
      cases ok with
      | false => exact balance_accept hi rfl rfl rfl
      | true =>
          refine balance_accept hi rfl rfl ?_
          simp [handleOpenTCP, goAccept, acceptCloses, acceptObtains, AcceptStage.holds]
          omega
  | connected =>
      refine balance_accept hi rfl rfl ?_
      split <;>
        simp_all [handleOpenTCP, goAccept, acceptCloses, acceptObtains, AcceptStage.holds,
          Nat.add_comm]
  | registering =>
      simp only [handleOpenTCP, acceptCloses]
      split
      · refine balance_accept hi rfl rfl ?_
        simp [goAccept, acceptObtains, AcceptStage.holds, Nat.add_comm]
      · rename_i hfree
        have hentry := T.copies_insert m.connID.toNat o (.accepted i)
        rw [taken_of_notMem hfree] at hentry
        refine balance_accept hi rfl rfl ?_
        simp only [acceptObtains, AcceptStage.holds]
        omega
  | announcing =>
      simp only [handleOpenTCP, acceptCloses]
      split
      · exact balance_accept hi rfl rfl rfl
      · refine balance_accept hi rfl rfl ?_
        have hclosed := T.copies_closeTCP m.connID.toNat o
        simp only [closeTCP, goAccept, acceptObtains, AcceptStage.holds] at hclosed ⊢
        omega
  | finished => rfl

/-- A step of `openLocalTCP` moves a connection from one place to another. -/
theorem openLocalTCP_balance {i : Nat} {stage : OpenStage} (hi : T.opens[i]? = some stage)
    (draw : Option Nat) (ok : Bool) :
    (T.openLocalTCP i draw ok stage).held o +
        (T.openLocalTCP i draw ok stage).tcpConns.copies o +
        (T.openCloses i draw ok o stage + T.replaces o (.open i draw ok)) =
      T.held o + T.tcpConns.copies o := by
  simp only [replaces, hi]
  cases stage with
  | started =>
      refine balance_open hi rfl rfl ?_
      split <;> simp_all [openLocalTCP, goOpen, openCloses, OpenStage.holds, Nat.add_comm]
  | counting =>
      refine balance_open hi rfl rfl ?_
      split <;> simp_all [openLocalTCP, goOpen, openCloses, OpenStage.holds, Nat.add_comm]
  | drawing attempts =>
      cases draw with
      | none =>
          refine balance_open hi rfl rfl ?_
          simp [openLocalTCP, goOpen, openCloses, OpenStage.holds, Nat.add_comm]
      | some id =>
          simp only [openLocalTCP, openCloses]
          split
          · rename_i hused
            refine balance_open hi rfl rfl ?_
            split <;> simp_all [goOpen, OpenStage.holds, Nat.add_comm]
          · rename_i hfree
            refine balance_open hi rfl rfl ?_
            simp [goOpen, OpenStage.holds, hfree]
  | registering id =>
      have hentry := T.copies_insert id o (.opened i)
      refine balance_open hi rfl rfl ?_
      simp only [openLocalTCP, openCloses, OpenStage.holds]
      omega
  | sending id | waiting id =>
      simp only [openLocalTCP, openCloses]
      split
      · exact balance_open hi rfl rfl rfl
      · refine balance_open hi rfl rfl ?_
        have hclosed := T.copies_closeTCP id o
        simp only [closeTCP, goOpen, OpenStage.holds] at hclosed ⊢
        omega
  | finished => rfl

/-- A new connection is with its goroutine. -/
theorem held_connection (T : TcpTable) (o : ConnOwner) :
    ({ T with opens := T.opens ++ [.started] } : TcpTable).held o =
      T.held o + o.is (.opened T.opens.length) := by
  cases o with
  | accepted i => simp [held, ConnOwner.is]
  | opened i =>
      rcases Nat.lt_trichotomy i T.opens.length with hlt | rfl | hgt
      · simp [held, ConnOwner.is, List.getElem?_append_left hlt, Nat.ne_of_lt hlt]
      · simp [held, ConnOwner.is, OpenStage.holds]
      · have hnew : (T.opens ++ [OpenStage.started])[i]? = none :=
          List.getElem?_eq_none (by simp; omega)
        simp [held, ConnOwner.is, hnew, List.getElem?_eq_none (Nat.le_of_lt hgt),
          Nat.ne_of_gt hgt]

/-- A new request has no connection. -/
theorem held_request (T : TcpTable) (m : Message) (o : ConnOwner) :
    ({ T with accepts := T.accepts ++ [(m, .started)] } : TcpTable).held o = T.held o := by
  cases o with
  | opened i => rfl
  | accepted i =>
      rcases Nat.lt_trichotomy i T.accepts.length with hlt | rfl | hgt
      · simp [held, List.getElem?_append_left hlt]
      · simp [held, AcceptStage.holds]
      · have hnew : (T.accepts ++ [(m, AcceptStage.started)])[i]? = none :=
          List.getElem?_eq_none (by simp; omega)
        simp [held, hnew, List.getElem?_eq_none (Nat.le_of_lt hgt)]

/-- Every step keeps the connections together: those held, in the table, closed
and replaced after it are those before it and the new ones. -/
theorem apply_balance (T : TcpTable) (o : ConnOwner) (e : TcpTableEvent) :
    (T.apply services e).held o + (T.apply services e).tcpConns.copies o +
        (T.closes o e + T.replaces o e) =
      T.held o + T.tcpConns.copies o + T.obtains o e := by
  cases e with
  | message m =>
      simp only [apply, closes, replaces, obtains]
      split
      · rw [held_request]
      · split
        · have hclosed := T.copies_closeTCP m.connID.toNat o
          have hheld : (T.closeTCP m.connID.toNat).held o = T.held o := by cases o <;> rfl
          omega
        · rfl
  | accept i ok =>
      simp only [apply, closes, replaces, obtains, Nat.add_zero]
      cases hi : T.accepts[i]? with
      | none => rfl
      | some a => exact handleOpenTCP_balance hi ok
  | connection =>
      simp only [apply, closes, replaces, obtains]
      rw [held_connection]
      omega
  | «open» i draw ok =>
      cases hi : T.opens[i]? with
      | none => simp [apply, closes, replaces, obtains, hi]
      | some stage =>
          simp only [apply, closes, obtains, hi]
          exact openLocalTCP_balance hi draw ok
  | closeTCP connID =>
      have hclosed := T.copies_closeTCP connID o
      have hheld : (T.closeTCP connID).held o = T.held o := by cases o <;> rfl
      simp only [apply, closes, replaces, obtains]
      omega
  | close =>
      cases o <;> rfl
  | clear =>
      have hheld : ({ T with tcpConns := ∅ } : TcpTable).held o = T.held o := by cases o <;> rfl
      simp only [apply, closes, replaces, obtains, Table.copies_empty]
      omega

/-! ## A connection comes once -/

/-- The node can still get the connection. -/
def expects (T : TcpTable) : ConnOwner → Bool
  | .accepted i => match T.accepts[i]? with
      | some (_, stage) => stage.early
      | none => true
  | .opened i => decide (T.opens.length ≤ i)

variable (services) in
/-- A goroutine does not come back to its dial, and a dial that succeeds is
over. -/
theorem accepts_move {i : Nat} {m : Message} {stage : AcceptStage}
    (hi : T.accepts[i]? = some (m, stage)) (ok : Bool) (o : ConnOwner) :
    ∃ stage', (T.handleOpenTCP services i m ok stage).accepts = T.accepts.set i (m, stage') ∧
      (T.handleOpenTCP services i m ok stage).opens = T.opens ∧
      (stage'.early = true → stage.early = true ∧ acceptObtains i ok o stage = 0) := by
  cases stage with
  | started => exact ⟨_, rfl, rfl, fun _ => ⟨rfl, rfl⟩⟩
  | counting =>
      simp only [handleOpenTCP]
      split
      · exact ⟨_, rfl, rfl, fun _ => ⟨rfl, rfl⟩⟩
      · split <;> exact ⟨_, rfl, rfl, fun _ => ⟨rfl, rfl⟩⟩
  | dialing address =>
      cases ok
      · exact ⟨_, rfl, rfl, fun _ => ⟨rfl, rfl⟩⟩
      · exact ⟨.connected, rfl, rfl, fun h => by cases h⟩
  | connected =>
      refine ⟨_, rfl, rfl, fun h => ?_⟩
      split at h <;> cases h
  | registering =>
      simp only [handleOpenTCP]
      split
      · exact ⟨.finished, rfl, rfl, fun h => by cases h⟩
      · exact ⟨.announcing, rfl, rfl, fun h => by cases h⟩
  | announcing =>
      simp only [handleOpenTCP]
      split <;> exact ⟨.finished, rfl, rfl, fun h => by cases h⟩
  | finished => exact ⟨.finished, (Crew.set_self hi).symm, rfl, fun h => by cases h⟩

/-- A goroutine of `openLocalTCP` changes nothing but its stage and the table. -/
theorem opens_move {i : Nat} {stage : OpenStage} (draw : Option Nat) (ok : Bool) :
    (T.openLocalTCP i draw ok stage).opens.length = T.opens.length := by
  cases stage with
  | drawing attempts =>
      cases draw with
      | none => exact List.length_set
      | some id =>
          simp only [openLocalTCP]
          split <;> exact List.length_set
  | sending id | waiting id =>
      simp only [openLocalTCP]
      split <;> exact List.length_set
  | started | counting | registering id => exact List.length_set
  | finished => rfl

/-- What a node expects it has expected, and it does not expect what it gets. -/
theorem expects_apply (T : TcpTable) (o : ConnOwner) (e : TcpTableEvent)
    (h : (T.apply services e).expects o = true) : T.expects o = true ∧ T.obtains o e = 0 := by
  cases e with
  | message m =>
      simp only [apply] at h
      split at h
      · refine ⟨?_, rfl⟩
        cases o with
        | opened i => exact h
        | accepted i =>
            cases hi : T.accepts[i]? with
            | none => simp [expects, hi]
            | some a =>
                have hlt := (List.getElem?_eq_some_iff.mp hi).1
                simpa only [expects, List.getElem?_append_left hlt, hi] using h
      · split at h <;> exact ⟨by cases o <;> exact h, rfl⟩
  | accept i ok =>
      simp only [apply] at h
      simp only [obtains]
      cases hi : T.accepts[i]? with
      | none =>
          rw [hi] at h
          exact ⟨h, rfl⟩
      | some a =>
          obtain ⟨m, stage⟩ := a
          rw [hi] at h
          obtain ⟨stage', haccepts, hopens, hearly⟩ := accepts_move services hi ok o
          have hlt := (List.getElem?_eq_some_iff.mp hi).1
          have hother : o ≠ .accepted i → acceptObtains i ok o stage = 0 := by
            intro hne
            cases stage <;> simp [acceptObtains, ConnOwner.is, hne]
          cases o with
          | opened j =>
              simp only [expects, hopens] at h
              exact ⟨h, hother (by simp)⟩
          | accepted j =>
              by_cases hj : j = i
              · subst hj
                simp only [expects, haccepts, List.getElem?_set_self hlt] at h
                obtain ⟨hwas, hnone⟩ := hearly h
                exact ⟨by simpa only [expects, hi] using hwas, hnone⟩
              · simp only [expects, haccepts, List.getElem?_set_ne (Ne.symm hj)] at h
                exact ⟨h, hother (by simpa using hj)⟩
  | connection =>
      cases o with
      | accepted i => exact ⟨h, rfl⟩
      | opened i =>
          simp only [apply, expects, List.length_append, List.length_singleton,
            decide_eq_true_eq] at h
          refine ⟨by simp [expects]; omega, ?_⟩
          simp [obtains, ConnOwner.is]
          omega
  | «open» i draw ok =>
      refine ⟨?_, rfl⟩
      simp only [apply] at h
      split at h
      · rename_i stage hi
        cases o with
        | accepted j => simpa only [expects, (openLocalTCP_frame i draw ok stage).2] using h
        | opened j => simpa only [expects, opens_move] using h
      · exact h
  | closeTCP connID | close | clear => exact ⟨by cases o <;> exact h, rfl⟩

/-- A step brings only connections that were expected. -/
theorem obtains_cases (T : TcpTable) (o : ConnOwner) (e : TcpTableEvent) :
    T.obtains o e = 0 ∨ T.obtains o e = 1 ∧ T.expects o = true := by
  have his : ∀ o', T.expects o' = true → o.is o' = 0 ∨ o.is o' = 1 ∧ T.expects o = true := by
    intro o' ho'
    by_cases heq : o = o'
    · exact Or.inr ⟨if_pos heq, heq ▸ ho'⟩
    · exact Or.inl (if_neg heq)
  cases e with
  | accept i ok =>
      simp only [obtains]
      cases hi : T.accepts[i]? with
      | none => exact Or.inl rfl
      | some a =>
          obtain ⟨m, stage⟩ := a
          cases stage with
          | dialing address =>
              cases ok
              · exact Or.inl rfl
              · exact his _ (by simp [expects, hi, AcceptStage.early])
          | started | counting | connected | registering | announcing | finished =>
              exact Or.inl rfl
  | connection => exact his _ (by simp [expects])
  | message m | «open» i draw ok | closeTCP connID | close | clear => exact Or.inl rfl

end TcpTable

namespace ConnLedger

/-- Every connection came at most once, and is in as many places as it came. -/
structure Accounted (S : ConnLedger) : Prop where
  places : ∀ o, S.table.held o + S.table.tcpConns.copies o + (S.closed o + S.replaced o) =
    S.obtained o
  once : ∀ o, S.obtained o ≤ 1
  fresh : ∀ o, S.table.expects o = true → S.obtained o = 0

theorem Accounted.apply {cfg : Config} {S : ConnLedger} (h : S.Accounted) (e : TcpTableEvent) :
    ((ledgerMachine cfg).apply S e).Accounted := by
  refine ⟨?_, ?_, ?_⟩
  · intro o
    have hplaces := h.places o
    have hstep : (S.table.apply cfg.services e).held o + _ + _ = _ :=
      S.table.apply_balance o e
    simp only [ledgerMachine]
    omega
  · intro o
    have honce := h.once o
    simp only [ledgerMachine]
    obtain hnone | ⟨hone, hexpected⟩ := S.table.obtains_cases o e
    · omega
    · have hfresh := h.fresh o hexpected
      omega
  · intro o ho
    obtain ⟨hexpected, hnone⟩ := S.table.expects_apply o e ho
    simp only [ledgerMachine, h.fresh o hexpected, hnone]

theorem accounted_of_reachable {cfg : Config} {S : ConnLedger}
    (run : (ledgerMachine cfg).Reachable S) : S.Accounted := by
  refine run.invariant ?_ fun S e h _ => h.apply e
  rintro S rfl
  refine ⟨?_, ?_, ?_⟩
  · intro o
    cases o <;> simp [TcpTable.held]
  · intro o
    exact Nat.zero_le 1
  · intro o _
    rfl

end ConnLedger

namespace ConnLedger

variable {cfg : Config} {S : ConnLedger}

/-- What happens to the table of a ledger is a run of the table. -/
theorem table_reachable
    (run : (ledgerMachine cfg).ReachableUnder (fun S e => S.table.LeavesDrawn e) S) :
    (tcpTableMachine cfg).ReachableUnder TcpTable.LeavesDrawn S.table := by
  induction run with
  | start h =>
      obtain rfl := h
      exact .start rfl
  | next _ he hok ih => exact ih.next he hok

/-- An ID that was drawn and left alone is free when it is entered. -/
theorem replaces_eq_zero (h : S.table.DrawnFree) (o : ConnOwner) (e : TcpTableEvent) :
    S.table.replaces o e = 0 := by
  cases e with
  | «open» i draw ok =>
      simp only [TcpTable.replaces]
      split
      · rename_i id hi
        exact TcpTable.taken_of_notMem (h.free id (List.mem_of_getElem? hi))
      · rfl
  | message m | accept i ok | connection | closeTCP connID | close | clear => rfl

theorem replaced_eq_zero
    (run : (ledgerMachine cfg).ReachableUnder (fun S e => S.table.LeavesDrawn e) S)
    (o : ConnOwner) : S.replaced o = 0 := by
  refine run.invariant (J := fun S => S.table.DrawnFree) (I := fun S => S.replaced o = 0)
    (fun S run => TcpTable.drawnFree_of_reachable (table_reachable run)) ?_ ?_
  · rintro S rfl
    rfl
  · intro S e hdrawn hnone _ _
    simp only [ledgerMachine, hnone, replaces_eq_zero hdrawn o e]

end ConnLedger

/-- In every run, a connection that a node has got is in exactly one place: held
by the goroutine that got it, in the table under one ID, closed, or out of the
table because its entry was replaced. No entry is replaced in the runs in which
IDs that were drawn are left alone, however many connections there are. -/
theorem tcp_conns_accounted (cfg : Config) (S : ConnLedger)
    (run : (ledgerMachine cfg).Reachable S) (o : ConnOwner) :
    S.obtained o ≤ 1 ∧
    S.table.held o + S.table.tcpConns.copies o + (S.closed o + S.replaced o) = S.obtained o ∧
    ((ledgerMachine cfg).ReachableUnder (fun S e => S.table.LeavesDrawn e) S →
      S.replaced o = 0) := by
  have h := ConnLedger.accounted_of_reachable run
  exact ⟨h.once o, h.places o, fun run => ConnLedger.replaced_eq_zero run o⟩

instance decidableLedgerEnabled (cfg : Config) :
    ∀ S e, Decidable ((ledgerMachine cfg).enabled S e) :=
  fun S e => TcpTable.decidableEnabled S.table e

theorem tcp_conns_accounted_closed :
    ∃ S, (ledgerMachine webConfig).Reachable S ∧ S.table.held (.opened 0) = 0 ∧
      S.table.tcpConns.copies (.opened 0) = 1 ∧ S.closed (.accepted 0) = 1 ∧
      S.replaced (.accepted 0) = 0 := by
  have run : (ledgerMachine webConfig).ReachableUnder (fun S e => S.table.LeavesDrawn e)
      ((twoConnections ++ [TcpTableEvent.closeTCP 7]).foldl (ledgerMachine webConfig).apply
        ⟨{}, 0, 0, 0⟩) :=
    Machine.ReachableUnder.run (.start rfl) _ (by decide +kernel)
  exact ⟨_, run.reachable, by decide +kernel, by decide +kernel, by decide +kernel,
    (tcp_conns_accounted webConfig _ run.reachable (.accepted 0)).2.2 run⟩

end UnknownTunnel.App

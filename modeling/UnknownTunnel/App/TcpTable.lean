import UnknownTunnel.App.TcpNodes
import UnknownTunnel.ConfigFile.Validate
import UnknownTunnel.Foundation.Table
import UnknownTunnel.Protocol.Message

/-!
# The table of TCP connections of one node

Any number of goroutines of `handleOpenTCP` and `openLocalTCP` share the table
`tcpConns`. A goroutine tests the size of the table, dials or draws an ID, and
enters its connection later, under another lock.

## Implementation notes

What a goroutine does between two accesses to shared state is one step. A
connection is named by the goroutine that entered it. The outcome of a dial
or a send and the value of `randomID` are choices of the step. Every call of
`closeTCP`, from whatever goroutine, is a step of its own.
-/

namespace UnknownTunnel.App

open Foundation ConfigFile Protocol

/-- The most flows that a node keeps. -/
def maxTCPConnections : Nat := 65536

/-- Where a goroutine of `handleOpenTCP` stands. -/
inductive AcceptStage
  | started
  | counting
  | dialing (address : Bytes)
  | connected
  | registering
  | announcing
  | finished
  deriving DecidableEq

/-- Where a goroutine of `openLocalTCP` stands. -/
inductive OpenStage
  | started
  | counting
  | drawing (attempts : Nat)
  | registering (connID : Nat)
  | sending (connID : Nat)
  | waiting (connID : Nat)
  | finished
  deriving DecidableEq

/-- The goroutine whose connection an entry of the table is. -/
inductive ConnOwner
  | accepted (i : Nat)
  | opened (i : Nat)
  deriving DecidableEq

/-- The table and the goroutines. `dialed` records the dials made for the peer,
with the message that caused each, and `answers` the answers to the peer. -/
structure TcpTable where
  closed : Bool := false
  tcpConns : Table Nat ConnOwner := ∅
  accepts : List (Message × AcceptStage) := []
  opens : List OpenStage := []
  dialed : List (Message × Bytes) := []
  answers : List (Message × Option Refusal) := []

/-- The critical sections on the table, and what goes on between them. -/
inductive TcpTableEvent
  | message (m : Message)
  | accept (i : Nat) (ok : Bool)
  | connection
  | open (i : Nat) (draw : Option Nat) (ok : Bool)
  | closeTCP (connID : Nat)
  | close
  | clear

namespace TcpTable

variable (services : Services)

/-- The address of a service, if the service may be dialed by TCP. -/
def tcpAddress (name : Bytes) : Option Bytes :=
  match services.lookup name with
  | some svc => if svc.network = tcp then some svc.address else none
  | none => none

/-- Goroutine `i` of `handleOpenTCP` goes on to a stage. -/
def goAccept (T : TcpTable) (i : Nat) (m : Message) (stage : AcceptStage) : TcpTable :=
  { T with accepts := T.accepts.set i (m, stage) }

/-- It answers the peer and ends. -/
def refuse (T : TcpTable) (i : Nat) (m : Message) (reason : Refusal) : TcpTable :=
  { T.goAccept i m .finished with answers := T.answers ++ [(m, some reason)] }

def closeTCP (connID : Nat) (T : TcpTable) : TcpTable :=
  { T with tcpConns := T.tcpConns.erase connID }

/-- A step of `handleOpenTCP`. `ok` is the outcome of the dial or of the send
of the answer, at the stages that have one. -/
def handleOpenTCP (T : TcpTable) (i : Nat) (m : Message) (ok : Bool) : AcceptStage → TcpTable
  | .started => T.goAccept i m (if T.closed then .finished else .counting)
  | .counting =>
      if maxTCPConnections ≤ T.tcpConns.size then T.refuse i m .limit
      else
        match tcpAddress services m.name with
        | none => T.refuse i m .notAllowed
        | some address =>
            { T.goAccept i m (.dialing address) with dialed := T.dialed ++ [(m, address)] }
  | .dialing _ => if ok then T.goAccept i m .connected else T.refuse i m .dialFailed
  | .connected => T.goAccept i m (if T.closed then .finished else .registering)
  | .registering =>
      if m.connID.toNat ∈ T.tcpConns then T.goAccept i m .finished
      else
        { T.goAccept i m .announcing with
          tcpConns := T.tcpConns.insert m.connID.toNat (.accepted i) }
  | .announcing =>
      if ok then { T.goAccept i m .finished with answers := T.answers ++ [(m, none)] }
      else (T.goAccept i m .finished).closeTCP m.connID.toNat
  | .finished => T

def goOpen (T : TcpTable) (i : Nat) (stage : OpenStage) : TcpTable :=
  { T with opens := T.opens.set i stage }

/-- A step of `openLocalTCP`, up to the answer of the peer. `draw` is the value
of `randomID`, if it returns one; `uniqueTCPID` draws at most ten times. -/
def openLocalTCP (T : TcpTable) (i : Nat) (draw : Option Nat) (ok : Bool) : OpenStage → TcpTable
  | .started => T.goOpen i (if T.closed then .finished else .counting)
  | .counting =>
      T.goOpen i (if maxTCPConnections ≤ T.tcpConns.size then .finished else .drawing 0)
  | .drawing attempts =>
      match draw with
      | none => T.goOpen i .finished
      | some id =>
          if id ∈ T.tcpConns then
            T.goOpen i (if attempts + 1 < 10 then .drawing (attempts + 1) else .finished)
          else T.goOpen i (.registering id)
  | .registering id =>
      { T.goOpen i (.sending id) with tcpConns := T.tcpConns.insert id (.opened i) }
  | .sending id =>
      if ok then T.goOpen i (.waiting id) else (T.goOpen i .finished).closeTCP id
  | .waiting id => if ok then T.goOpen i .finished else (T.goOpen i .finished).closeTCP id
  | .finished => T

/-- The locked part of `Close` comes after `closed` is set. -/
def enabled (T : TcpTable) : TcpTableEvent → Prop
  | .clear => T.closed = true
  | _ => True

/-- The state after an event. -/
def apply (T : TcpTable) : TcpTableEvent → TcpTable
  | .message m =>
      if m.type = typeOpenTCP then { T with accepts := T.accepts ++ [(m, .started)] }
      else if m.type = typeTCPClose then T.closeTCP m.connID.toNat
      else T
  | .accept i ok =>
      match T.accepts[i]? with
      | some (m, stage) => T.handleOpenTCP services i m ok stage
      | none => T
  | .connection => { T with opens := T.opens ++ [.started] }
  | .open i draw ok =>
      match T.opens[i]? with
      | some stage => T.openLocalTCP i draw ok stage
      | none => T
  | .closeTCP connID => T.closeTCP connID
  | .close => { T with closed := true }
  | .clear => { T with tcpConns := ∅ }

end TcpTable

/-- The table of a node with the given configuration. -/
def tcpTableMachine (cfg : Config) : Machine TcpTable TcpTableEvent where
  init T := T = {}
  enabled := TcpTable.enabled
  apply := TcpTable.apply cfg.services

/-! ## Dials -/

namespace TcpTable

variable {services : Services} {T : TcpTable}

theorem tcpAddress_eq_some {name address : Bytes}
    (h : tcpAddress services name = some address) :
    ∃ svc, services.lookup name = some svc ∧ svc.network = tcp ∧ address = svc.address := by
  unfold tcpAddress at h
  split at h
  · rename_i svc hsvc
    split at h
    · rename_i hnetwork
      cases h
      exact ⟨svc, hsvc, hnetwork, rfl⟩
    · cases h
  · cases h

/-- A step of `handleOpenTCP` makes at most one dial, to the address of the TCP
service that its message names. -/
theorem dialed_handleOpenTCP (i : Nat) (m : Message) (ok : Bool) (stage : AcceptStage) :
    (T.handleOpenTCP services i m ok stage).dialed = T.dialed ∨
    ∃ address, tcpAddress services m.name = some address ∧
      (T.handleOpenTCP services i m ok stage).dialed = T.dialed ++ [(m, address)] := by
  cases stage with
  | counting =>
      simp only [handleOpenTCP]
      split
      · exact Or.inl rfl
      · split
        · exact Or.inl rfl
        · rename_i address haddress
          exact Or.inr ⟨address, haddress, rfl⟩
  | dialing address =>
      simp only [handleOpenTCP]
      split <;> exact Or.inl rfl
  | registering =>
      simp only [handleOpenTCP]
      split <;> exact Or.inl rfl
  | announcing =>
      simp only [handleOpenTCP]
      split <;> exact Or.inl rfl
  | started | connected | finished => exact Or.inl rfl

/-- The opening side dials no service and serves no request. -/
theorem openLocalTCP_frame (i : Nat) (draw : Option Nat) (ok : Bool) (stage : OpenStage) :
    (T.openLocalTCP i draw ok stage).dialed = T.dialed ∧
      (T.openLocalTCP i draw ok stage).accepts = T.accepts := by
  cases stage with
  | drawing attempts =>
      cases draw with
      | none => exact ⟨rfl, rfl⟩
      | some id =>
          simp only [openLocalTCP]
          split <;> exact ⟨rfl, rfl⟩
  | sending id | waiting id =>
      simp only [openLocalTCP]
      split <;> exact ⟨rfl, rfl⟩
  | started | counting | registering id | finished => exact ⟨rfl, rfl⟩

/-- A goroutine keeps the message it serves. -/
theorem accepts_handleOpenTCP (i : Nat) (m : Message) (ok : Bool) (stage : AcceptStage) :
    (T.handleOpenTCP services i m ok stage).accepts = T.accepts ∨
    ∃ stage', (T.handleOpenTCP services i m ok stage).accepts = T.accepts.set i (m, stage') := by
  cases stage with
  | started | connected => exact Or.inr ⟨_, rfl⟩
  | counting =>
      simp only [handleOpenTCP]
      split
      · exact Or.inr ⟨_, rfl⟩
      · split <;> exact Or.inr ⟨_, rfl⟩
  | dialing address =>
      simp only [handleOpenTCP]
      split <;> exact Or.inr ⟨_, rfl⟩
  | registering =>
      simp only [handleOpenTCP]
      split <;> exact Or.inr ⟨_, rfl⟩
  | announcing =>
      simp only [handleOpenTCP]
      split <;> exact Or.inr ⟨_, rfl⟩
  | finished => exact Or.inl rfl

/-- Goroutines serve requests to open, and dials go to the TCP service that
such a request names. -/
structure DialsAllowed (services : Services) (T : TcpTable) : Prop where
  accepts : ∀ a ∈ T.accepts, a.1.type = typeOpenTCP
  dialed : ∀ d ∈ T.dialed, d.1.type = typeOpenTCP ∧ tcpAddress services d.1.name = some d.2

theorem DialsAllowed.handleOpenTCP (h : T.DialsAllowed services) {i : Nat} {m : Message}
    {stage : AcceptStage} (hi : T.accepts[i]? = some (m, stage)) (ok : Bool) :
    (T.handleOpenTCP services i m ok stage).DialsAllowed services := by
  have htype : m.type = typeOpenTCP := h.accepts _ (List.mem_of_getElem? hi)
  constructor
  · intro a ha
    rcases accepts_handleOpenTCP i m ok stage with hsame | ⟨stage', hset⟩
    · rw [hsame] at ha
      exact h.accepts a ha
    · rw [hset] at ha
      rcases List.mem_or_eq_of_mem_set ha with ha | rfl
      · exact h.accepts a ha
      · exact htype
  · intro d hd
    rcases dialed_handleOpenTCP i m ok stage with hsame | ⟨address, haddress, hnew⟩
    · rw [hsame] at hd
      exact h.dialed d hd
    · rw [hnew] at hd
      rcases List.mem_append.mp hd with hd | hd
      · exact h.dialed d hd
      · rw [List.mem_singleton.mp hd]
        exact ⟨htype, haddress⟩

theorem DialsAllowed.apply (h : T.DialsAllowed services) (e : TcpTableEvent) :
    (T.apply services e).DialsAllowed services := by
  cases e with
  | message m =>
      simp only [TcpTable.apply]
      split
      · rename_i htype
        refine ⟨?_, h.dialed⟩
        intro a ha
        rcases List.mem_append.mp ha with ha | ha
        · exact h.accepts a ha
        · rw [List.mem_singleton.mp ha]
          exact htype
      · split
        · exact ⟨h.accepts, h.dialed⟩
        · exact h
  | accept i ok =>
      simp only [TcpTable.apply]
      split
      · rename_i m stage hi
        exact h.handleOpenTCP hi ok
      · exact h
  | «open» i draw ok =>
      simp only [TcpTable.apply]
      split
      · exact ⟨by rw [(openLocalTCP_frame _ _ _ _).2]; exact h.accepts,
          by rw [(openLocalTCP_frame _ _ _ _).1]; exact h.dialed⟩
      · exact h
  | connection | closeTCP connID | close | clear => exact ⟨h.accepts, h.dialed⟩

theorem dialsAllowed_of_reachable {cfg : Config} (run : (tcpTableMachine cfg).Reachable T) :
    T.DialsAllowed cfg.services := by
  refine Machine.Reachable.invariant (I := DialsAllowed cfg.services) run ?_
    fun s e h _ => h.apply e
  rintro s rfl
  exact ⟨nofun, nofun⟩

end TcpTable

end UnknownTunnel.App

import UnknownTunnel.ConfigFile.Validate
import UnknownTunnel.Foundation.Crew
import UnknownTunnel.Foundation.Progress

/-!
# The application from `Run` to the end of `Close`

`Run` starts the manager, opens the device, starts its loops and one loop for
each forward, and waits until its context is cancelled. It calls `Close` then, or
as soon as a forward does not start. `Close` cancels the context, closes what the
loops wait on, closes the connections in the table, closes the manager, and waits
for the loops.

The goroutines of the connections are not waited for. One that has found the
application open can enter its connection after `Close` has gone through the
table, and `incomingLoop` can then be writing to it. The loop that reads the
device is waited for, but closing the device does not end a read that has begun:
`tun.Open` calls `Fd`, which puts the file into blocking mode.

## Implementation notes

A loop is in the call or the select in which it waits, in work that ends by
itself, or writes to a connection. `send` is work that ends by itself: carriers
write with a deadline or wait for a session that the manager closes. The read of
the device has a stage of its own, since it fails at once if the device is closed
when it begins and otherwise lasts until a packet comes; the descriptor stays open
so long. A connection
is in the table until it is closed; that IDs are not drawn twice is a matter of
`App.TcpOwnership`. `Close` is called by `Run` only, as in the program.
-/

namespace UnknownTunnel.App

open Foundation ConfigFile

/-- The goroutines that the wait group counts. -/
inductive LoopKind
  | tunReadLoop
  | incomingLoop
  | maintenanceLoop
  /-- The loop of `startTCPForward` or `startUDPForward` with its socket. -/
  | forward (socket : Nat)
  deriving DecidableEq

/-- Where a goroutine of the wait group stands. -/
inductive LoopStage
  /-- In the read of a socket, the accept or the select, or before the read of the
  device. -/
  | waiting
  /-- In a read of the device that has begun. -/
  | reading
  /-- The call on the socket has failed. -/
  | failed
  | working
  /-- In `writeConnAll` for a connection. -/
  | writing (conn : Nat)
  | returned
  deriving DecidableEq

/-- A goroutine of the wait group. -/
structure Loop where
  kind : LoopKind
  stage : LoopStage
  deriving DecidableEq

/-- Where the goroutine of a connection stands. -/
inductive FlowStage
  /-- In the table, before the first `send`. -/
  | entered
  /-- `openLocalTCP` waits for the status. -/
  | awaiting
  | pumping
  | finished
  deriving DecidableEq

/-- A connection that `openLocalTCP` or `handleOpenTCP` has entered. -/
structure FlowConn where
  isLocal : Bool
  stage : FlowStage
  closed : Bool
  deriving DecidableEq

/-- What the application has made of the manager. -/
inductive ManagerState
  | idle
  | running
  | closed
  deriving DecidableEq

/-- The steps of `Close`, in their order. -/
inductive CloseStep
  | mark
  | cancel
  | closers
  | device
  | conns
  | flows
  | manager
  | wait
  deriving DecidableEq

/-- Where `Run` stands. -/
inductive RunStage
  | starting
  /-- Before `tun.Open`. -/
  | opening
  /-- `tun.Open` has failed. -/
  | abandoning
  /-- Before `incomingLoop` and `maintenanceLoop` are started. -/
  | launching
  /-- In the loop over the forwards; those with a socket have been started. -/
  | forwarding
  | serving
  | closing (step : CloseStep)
  | returned
  deriving DecidableEq

/-- An application from its start to its end. -/
structure Lifecycle where
  stage : RunStage
  /-- An error is returned. -/
  failed : Bool
  cancelled : Bool
  closed : Bool
  manager : ManagerState
  /-- Whether the device is open, once there is one. -/
  device : Option Bool
  /-- Which of the forwards' sockets are open. -/
  sockets : List Bool
  loops : List Loop
  wg : Nat
  /-- Goroutines with a connection that have found the application open. -/
  openers : Nat
  conns : List FlowConn
  /-- How many connections had been entered when the table was cleared. -/
  cleared : Nat

/-- The steps of `Run` and `Close`, of the loops, and of the goroutines of
connections. -/
inductive LifecycleEvent
  | startManager (ok : Bool)
  | openDevice (ok : Bool)
  | skipDevice
  | closeManager
  | launch
  | startForward (ok : Bool)
  | serve
  | cancelParent
  | notice
  | close
  /-- `tunReadLoop` begins a read. -/
  | read (loop : Nat)
  | input (loop : Nat)
  | inputError (loop : Nat)
  | retry (loop : Nat)
  | stop (loop : Nat)
  | finish (loop : Nat)
  /-- `handleTCPData` finds a connection. -/
  | write (loop conn : Nat)
  | wrote (loop : Nat) (ok : Bool)
  /-- A close message of the peer. -/
  | peerClose (loop conn : Nat)
  | check
  | enter (isLocal : Bool)
  | sent (conn : Nat) (ok : Bool)
  | ready (conn : Nat) (ok : Bool)
  | giveUp (conn : Nat)
  | pumpEnd (conn : Nat)
  deriving DecidableEq

/-- The loops and the goroutines of connections can run. -/
def RunStage.launched : RunStage → Bool
  | .forwarding | .serving | .closing _ => true
  | _ => false

/-- A loop that waits in a call and not in a select. -/
def LoopKind.calls : LoopKind → Bool
  | .tunReadLoop | .forward _ => true
  | .incomingLoop | .maintenanceLoop => false

/-- The stage in which a loop can be given something. -/
def LoopKind.receives : LoopKind → LoopStage
  | .tunReadLoop => .reading
  | .incomingLoop | .maintenanceLoop | .forward _ => .waiting

namespace Lifecycle

def start : Lifecycle where
  stage := .starting
  failed := false
  cancelled := false
  closed := false
  manager := .idle
  device := none
  sockets := []
  loops := []
  wg := 0
  openers := 0
  conns := []
  cleared := 0

def setLoop (L : Lifecycle) (i : Nat) (stage : LoopStage) : Lifecycle :=
  match L.loops[i]? with
  | some loop => { L with loops := L.loops.set i { loop with stage } }
  | none => L

/-- A loop returns and leaves the wait group. -/
def leave (L : Lifecycle) (i : Nat) : Lifecycle :=
  { L.setLoop i .returned with wg := L.wg - 1 }

/-- A goroutine is added to the wait group and started. -/
def go (L : Lifecycle) (kind : LoopKind) : Lifecycle :=
  { L with loops := L.loops ++ [⟨kind, .waiting⟩], wg := L.wg + 1 }

def setConn (L : Lifecycle) (conn : Nat) (stage : FlowStage) : Lifecycle :=
  match L.conns[conn]? with
  | some c => { L with conns := L.conns.set conn { c with stage } }
  | none => L

def closeTCP (L : Lifecycle) (conn : Nat) : Lifecycle :=
  match L.conns[conn]? with
  | some c => { L with conns := L.conns.set conn { c with closed := true } }
  | none => L

/-- The goroutine of a connection closes it and ends. -/
def endConn (L : Lifecycle) (conn : Nat) : Lifecycle := (L.closeTCP conn).setConn conn .finished

def isLocal (L : Lifecycle) (conn : Nat) : Bool :=
  match L.conns[conn]? with
  | some c => c.isLocal
  | none => false

/-- One step of `Close`. -/
def closeStep (L : Lifecycle) : CloseStep → Lifecycle
  | .mark => { L with closed := true, stage := .closing .cancel }
  | .cancel => { L with cancelled := true, stage := .closing .closers }
  | .closers => { L with sockets := L.sockets.map fun _ => false, stage := .closing .device }
  | .device => { L with device := L.device.map fun _ => false, stage := .closing .conns }
  | .conns =>
      { L with
        conns := L.conns.map fun c => { c with closed := true }
        cleared := L.conns.length
        stage := .closing .flows }
  | .flows => { L with stage := .closing .manager }
  | .manager => { L with manager := .closed, stage := .closing .wait }
  | .wait => { L with stage := .returned }

def apply (L : Lifecycle) : LifecycleEvent → Lifecycle
  -- a manager that does not start closes itself
  | .startManager ok =>
      if ok then { L with manager := .running, stage := .opening }
      else { L with manager := .closed, failed := true, stage := .returned }
  | .openDevice ok =>
      if ok then { L.go .tunReadLoop with device := some true, stage := .launching }
      else { L with failed := true, stage := .abandoning }
  | .skipDevice => { L with stage := .launching }
  | .closeManager => { L with manager := .closed, stage := .returned }
  | .launch => { (L.go .incomingLoop).go .maintenanceLoop with stage := .forwarding }
  | .startForward ok =>
      if ok then
        { L.go (.forward L.sockets.length) with sockets := L.sockets ++ [true] }
      else { L with failed := true, stage := .closing .mark }
  | .serve => { L with stage := .serving }
  | .cancelParent => { L with cancelled := true }
  | .notice => { L with stage := .closing .mark }
  | .close => match L.stage with
      | .closing step => L.closeStep step
      | _ => L
  | .read loop => L.setLoop loop .reading
  | .input loop => L.setLoop loop .working
  | .inputError loop => match L.loops[loop]? with
      | some ⟨.tunReadLoop, _⟩ => L.leave loop
      | _ => L.setLoop loop .failed
  | .retry loop => if L.cancelled then L.leave loop else L.setLoop loop .waiting
  | .stop loop => L.leave loop
  | .finish loop => L.setLoop loop .waiting
  | .write loop conn => L.setLoop loop (.writing conn)
  | .wrote loop ok =>
      if ok then L.setLoop loop .waiting
      else match L.loops[loop]? with
        | some ⟨_, .writing conn⟩ => (L.closeTCP conn).setLoop loop .working
        | _ => L
  | .peerClose loop conn => (L.closeTCP conn).setLoop loop .waiting
  | .check => { L with openers := L.openers + 1 }
  | .enter isLocal =>
      { L with openers := L.openers - 1, conns := L.conns ++ [⟨isLocal, .entered, false⟩] }
  | .sent conn ok =>
      if ok then L.setConn conn (if L.isLocal conn then .awaiting else .pumping)
      else L.endConn conn
  | .ready conn ok => if ok then L.setConn conn .pumping else L.endConn conn
  | .giveUp conn => L.endConn conn
  | .pumpEnd conn => L.endConn conn

/-- What a loop waits on is open. -/
def feeds (L : Lifecycle) : LoopKind → Prop
  | .tunReadLoop => L.device = some true
  | .forward socket => L.sockets[socket]? = some true
  | .incomingLoop | .maintenanceLoop => True

/-- When a step can be taken. A socket that is closed gives nothing, no read of a
device that is closed begins, and a manager that is closed sends nothing. -/
def enabled (cfg : Config) (L : Lifecycle) : LifecycleEvent → Prop
  | .startManager _ => L.stage = .starting
  | .openDevice _ => L.stage = .opening ∧ cfg.l3.enabled = true
  | .skipDevice => L.stage = .opening ∧ cfg.l3.enabled = false
  | .closeManager => L.stage = .abandoning
  | .launch => L.stage = .launching
  | .startForward _ => L.stage = .forwarding ∧ L.sockets.length < cfg.forwards.length
  | .serve => L.stage = .forwarding ∧ L.sockets.length = cfg.forwards.length
  | .cancelParent => True
  | .notice => L.stage = .serving ∧ L.cancelled = true
  | .close => ∃ step, L.stage = .closing step ∧ (step = .wait → L.wg = 0)
  | .read i => L.loops[i]? = some ⟨.tunReadLoop, .waiting⟩ ∧ L.feeds .tunReadLoop
  -- a read of the device that has begun gets its packet from the kernel in any case
  | .input i => ∃ kind, L.loops[i]? = some ⟨kind, kind.receives⟩ ∧
      (kind = .tunReadLoop ∨ L.feeds kind)
  | .inputError i => ∃ kind stage, L.loops[i]? = some ⟨kind, stage⟩ ∧ kind.calls = true ∧
      (stage = .waiting ∨ stage = .reading)
  | .retry i => ∃ kind, L.loops[i]? = some ⟨kind, .failed⟩
  | .stop i => ∃ kind, L.loops[i]? = some ⟨kind, .waiting⟩ ∧ kind.calls = false ∧ L.cancelled = true
  | .finish i => ∃ kind, L.loops[i]? = some ⟨kind, .working⟩
  | .write i conn => L.loops[i]? = some ⟨.incomingLoop, .waiting⟩ ∧
      ∃ c, L.conns[conn]? = some c ∧ c.closed = false
  | .wrote i ok => ∃ kind conn c, L.loops[i]? = some ⟨kind, .writing conn⟩ ∧
      L.conns[conn]? = some c ∧ (ok = true → c.closed = false)
  | .peerClose i _ => L.loops[i]? = some ⟨.incomingLoop, .waiting⟩
  | .check => L.closed = false ∧ L.stage.launched = true
  | .enter _ => 0 < L.openers
  | .sent conn ok => ∃ c, L.conns[conn]? = some c ∧ c.stage = .entered ∧
      (ok = true → L.manager = .running)
  | .ready conn _ | .giveUp conn => ∃ c, L.conns[conn]? = some c ∧ c.stage = .awaiting
  | .pumpEnd conn => ∃ c, L.conns[conn]? = some c ∧ c.stage = .pumping

end Lifecycle

/-- `Run`, its loops and the goroutines of connections in any interleaving. -/
def lifecycleMachine (cfg : Config) : Machine Lifecycle LifecycleEvent where
  init L := L = .start
  enabled := Lifecycle.enabled cfg
  apply := Lifecycle.apply

/-! ## What every run keeps -/

def Loop.running (l : Loop) : Nat := if l.stage = .returned then 0 else 1

/-- How far `Close` has come. -/
def CloseStep.index : CloseStep → Nat
  | .mark => 0
  | .cancel => 1
  | .closers => 2
  | .device => 3
  | .conns => 4
  | .flows => 5
  | .manager => 6
  | .wait => 7

namespace Lifecycle

/-- What holds at each stage of `Run`. -/
def StageOk (L : Lifecycle) : Prop :=
  match L.stage with
  | .starting | .opening => L.loops = [] ∧ L.sockets = [] ∧ L.device = none
  | .abandoning => L.loops = [] ∧ L.sockets = [] ∧ L.device = none ∧ L.failed = true
  | .launching => L.sockets = [] ∧ ∀ l ∈ L.loops, l.kind = .tunReadLoop
  | .forwarding | .serving => True
  | .closing step =>
      (0 < step.index → L.closed = true) ∧ (1 < step.index → L.cancelled = true) ∧
        (2 < step.index → ∀ s ∈ L.sockets, s = false) ∧
        (3 < step.index → L.device ≠ some true) ∧ (6 < step.index → L.manager = .closed)
  | .returned =>
      L.wg = 0 ∧ (∀ s ∈ L.sockets, s = false) ∧ L.device ≠ some true ∧ L.manager = .closed ∧
        (L.failed = false → L.cancelled = true)

/-- What holds in every reached state. -/
structure Sound (L : Lifecycle) : Prop where
  wg : L.wg = (L.loops.map Loop.running).sum
  stage : L.StageOk
  sockets : ∀ (i : Nat) k stage, L.loops[i]? = some ⟨.forward k, stage⟩ → k < L.sockets.length
  single : ∀ (i j : Nat) s t, L.loops[i]? = some ⟨.incomingLoop, s⟩ →
    L.loops[j]? = some ⟨.incomingLoop, t⟩ → i = j
  writing : ∀ (i : Nat) kind conn, L.loops[i]? = some ⟨kind, .writing conn⟩ →
    kind = .incomingLoop ∧ conn < L.conns.length
  conns : ∀ (conn : Nat) c, L.conns[conn]? = some c →
    c.stage = .finished ∨ conn < L.cleared → c.closed = true
  cleared : L.cleared ≤ L.conns.length

variable {L : Lifecycle} {i : Nat} {kind : LoopKind} {old new : LoopStage}

theorem setLoop_eq (hl : L.loops[i]? = some ⟨kind, old⟩) (new : LoopStage) :
    L.setLoop i new = { L with loops := L.loops.set i ⟨kind, new⟩ } := by
  simp only [setLoop, hl]

theorem closeTCP_eq {conn : Nat} {c : FlowConn} (hc : L.conns[conn]? = some c) :
    L.closeTCP conn = { L with conns := L.conns.set conn { c with closed := true } } := by
  simp only [closeTCP, hc]

@[simp] theorem closeTCP_loops (L : Lifecycle) (conn : Nat) :
    (L.closeTCP conn).loops = L.loops := by
  unfold closeTCP
  split <;> rfl

theorem receives_ne_returned (kind : LoopKind) : kind.receives ≠ .returned := by
  cases kind <;> exact fun heq => by cases heq

/-- A loop moves: what is said about single loops is kept. -/
theorem Sound.of_set (h : L.Sound) (hl : L.loops[i]? = some ⟨kind, old⟩)
    (hw : ∀ conn, new = .writing conn → kind = .incomingLoop ∧ conn < L.conns.length)
    {wg : Nat} (hwg : wg + Loop.running ⟨kind, old⟩ = L.wg + Loop.running ⟨kind, new⟩)
    (hend : L.wg = 0 → wg = 0) :
    Sound { L with loops := L.loops.set i ⟨kind, new⟩, wg := wg } where
  wg := by
    have hsum := Crew.sum_set Loop.running hl ⟨kind, new⟩
    have hold := h.wg
    show wg = ((L.loops.set i ⟨kind, new⟩).map Loop.running).sum
    omega
  stage := by
    have hstage := h.stage
    have hkind : (∀ l ∈ L.loops, l.kind = .tunReadLoop) →
        ∀ l ∈ L.loops.set i ⟨kind, new⟩, l.kind = .tunReadLoop := by
      intro hall l hmem
      rcases List.mem_or_eq_of_mem_set hmem with hmem | rfl
      · exact hall l hmem
      · have hkind := hall _ (List.mem_of_getElem? hl)
        exact hkind
    have hsome : L.loops ≠ [] := by
      rintro hnil
      rw [hnil] at hl
      cases hl
    unfold StageOk at hstage ⊢
    cases hcase : L.stage <;> simp only [hcase] at hstage ⊢
    case starting | opening | abandoning => exact absurd hstage.1 hsome
    case launching => exact ⟨hstage.1, hkind hstage.2⟩
    case closing step => exact hstage
    case returned => exact ⟨hend hstage.1, hstage.2⟩
  sockets := by
    intro j k stage hj
    rcases Crew.getElem?_set hj with ⟨rfl, heq⟩ | ⟨-, hj⟩
    · cases heq
      exact h.sockets _ _ _ hl
    · exact h.sockets _ _ _ hj
  single := by
    intro j j' s t hj hj'
    rcases Crew.getElem?_set hj with ⟨rfl, heq⟩ | ⟨-, hk⟩ <;>
      rcases Crew.getElem?_set hj' with ⟨rfl, heq'⟩ | ⟨-, hk'⟩
    · rfl
    · cases heq
      exact h.single _ _ _ _ hl hk'
    · cases heq'
      exact h.single _ _ _ _ hk hl
    · exact h.single _ _ _ _ hk hk'
  writing := by
    intro j kind' conn hj
    rcases Crew.getElem?_set hj with ⟨rfl, heq⟩ | ⟨-, hj⟩
    · cases heq
      exact hw conn rfl
    · exact h.writing _ _ _ hj
  conns := h.conns
  cleared := h.cleared

theorem Sound.setLoop (h : L.Sound) (hl : L.loops[i]? = some ⟨kind, old⟩) (hold : old ≠ .returned)
    (hnew : new ≠ .returned)
    (hw : ∀ conn, new = .writing conn → kind = .incomingLoop ∧ conn < L.conns.length) :
    (L.setLoop i new).Sound := by
  rw [setLoop_eq hl]
  exact h.of_set hl hw (by simp [Loop.running, hold, hnew]) id

theorem Sound.leave (h : L.Sound) (hl : L.loops[i]? = some ⟨kind, old⟩) (hold : old ≠ .returned) :
    (L.leave i).Sound := by
  have hpos : 1 ≤ L.wg := by
    have hsum := Crew.sum_set Loop.running hl ⟨kind, .returned⟩
    simp only [Loop.running, hold, if_false, if_true] at hsum
    have hold := h.wg
    omega
  rw [Lifecycle.leave, setLoop_eq hl]
  refine h.of_set hl (fun conn hconn => by cases hconn) ?_ (by omega)
  simp only [Loop.running, hold, if_false, if_true]
  omega

/-- A connection moves. -/
theorem Sound.of_conn (h : L.Sound) {conn : Nat} {c c' : FlowConn} (hc : L.conns[conn]? = some c)
    (hclosed : c.closed = true → c'.closed = true)
    (hfinished : c'.stage = .finished → c'.closed = true) :
    Sound { L with conns := L.conns.set conn c' } where
  wg := h.wg
  stage := h.stage
  sockets := h.sockets
  single := h.single
  writing := by
    intro i kind conn' hi
    obtain ⟨hkind, hlt⟩ := h.writing i kind conn' hi
    exact ⟨hkind, by simpa using hlt⟩
  conns := by
    intro j d hj hd
    rcases Crew.getElem?_set hj with ⟨rfl, rfl⟩ | ⟨-, hj⟩
    · rcases hd with hd | hd
      · exact hfinished hd
      · exact hclosed (h.conns _ _ hc (Or.inr hd))
    · exact h.conns _ _ hj hd
  cleared := by simpa using h.cleared

theorem Sound.closeTCP (h : L.Sound) (conn : Nat) : (L.closeTCP conn).Sound := by
  unfold Lifecycle.closeTCP
  split
  case h_1 c hc => exact h.of_conn hc (fun _ => rfl) fun _ => rfl
  case h_2 => exact h

theorem Sound.endConn (h : L.Sound) {conn : Nat} {c : FlowConn} (hc : L.conns[conn]? = some c) :
    (L.endConn conn).Sound := by
  have hlt : conn < L.conns.length := (List.getElem?_eq_some_iff.mp hc).1
  have hnext : (L.conns.set conn { c with closed := true })[conn]? =
      some { c with closed := true } := by simp [hlt]
  have hclose := h.closeTCP conn
  rw [closeTCP_eq hc] at hclose
  rw [Lifecycle.endConn, closeTCP_eq hc]
  simp only [setConn, hnext]
  exact hclose.of_conn hnext (fun _ => rfl) fun _ => rfl

theorem Sound.setConn (h : L.Sound) {conn : Nat} {c : FlowConn} (hc : L.conns[conn]? = some c)
    {stage : FlowStage} (hstage : stage ≠ .finished) : (L.setConn conn stage).Sound := by
  simp only [Lifecycle.setConn, hc]
  exact h.of_conn hc id fun heq => absurd heq hstage

/-- A loop is started, with or after what it waits on. -/
theorem Sound.go (h : L.Sound) {stage : RunStage} {device : Option Bool} {sockets : List Bool}
    (hstage : StageOk { L.go kind with stage, device, sockets })
    (hsockets : L.sockets.length ≤ sockets.length)
    (hsocket : ∀ k, kind = .forward k → k < sockets.length)
    (hsingle : kind = .incomingLoop → ∀ l ∈ L.loops, l.kind ≠ .incomingLoop) :
    Sound { L.go kind with stage, device, sockets } where
  wg := by
    have hold := h.wg
    show L.wg + 1 = ((L.loops ++ [(⟨kind, .waiting⟩ : Loop)]).map Loop.running).sum
    rw [Crew.sum_concat, ← hold]
    rfl
  stage := hstage
  sockets := by
    intro j k s hj
    rcases Crew.getElem?_concat hj with ⟨-, heq⟩ | ⟨-, hj⟩
    · cases heq
      exact hsocket k rfl
    · exact Nat.lt_of_lt_of_le (h.sockets _ _ _ hj) hsockets
  single := by
    intro j j' s t hj hj'
    rcases Crew.getElem?_concat hj with ⟨rfl, heq⟩ | ⟨-, hk⟩ <;>
      rcases Crew.getElem?_concat hj' with ⟨rfl, heq'⟩ | ⟨-, hk'⟩
    · rfl
    · cases heq
      exact (hsingle rfl _ (List.mem_of_getElem? hk') rfl).elim
    · cases heq'
      exact (hsingle rfl _ (List.mem_of_getElem? hk) rfl).elim
    · exact h.single _ _ _ _ hk hk'
  writing := by
    intro j kind' conn hj
    rcases Crew.getElem?_concat hj with ⟨-, heq⟩ | ⟨-, hj⟩
    · cases heq
    · exact h.writing _ _ _ hj
  conns := h.conns
  cleared := h.cleared

/-- `Run` goes on without a change to loops and connections. -/
theorem Sound.restage (h : L.Sound) {L' : Lifecycle} (hstage : L'.StageOk) (hwg : L'.wg = L.wg)
    (hloops : L'.loops = L.loops) (hsockets : L'.sockets.length = L.sockets.length)
    (hconns : L'.conns = L.conns) (hcleared : L'.cleared = L.cleared) : L'.Sound where
  wg := by rw [hwg, hloops, h.wg]
  stage := hstage
  sockets := by
    rw [hloops, hsockets]
    exact h.sockets
  single := by
    rw [hloops]
    exact h.single
  writing := by
    rw [hloops, hconns]
    exact h.writing
  conns := by
    rw [hconns, hcleared]
    exact h.conns
  cleared := by
    rw [hconns, hcleared]
    exact h.cleared

theorem StageOk.cancel (h : L.StageOk) : StageOk { L with cancelled := true } := by
  unfold StageOk at h ⊢
  cases hcase : L.stage <;> simp only [hcase] at h ⊢
  case closing step => exact ⟨h.1, fun _ => trivial, h.2.2⟩
  case returned => exact ⟨h.1, h.2.1, h.2.2.1, h.2.2.2.1, fun _ => trivial⟩
  all_goals exact h

/-- Clearing the table closes every connection in it. -/
theorem Sound.clear (h : L.Sound) (hstage : L.stage = .closing .conns) :
    (L.closeStep .conns).Sound := by
  have hold := h.stage
  simp only [StageOk, hstage] at hold
  have hlength : (L.closeStep .conns).conns.length = L.conns.length := by simp [closeStep]
  refine ⟨h.wg, ?_, h.sockets, h.single, ?_, ?_, ?_⟩
  · exact ⟨fun _ => hold.1 (by decide), fun _ => hold.2.1 (by decide),
      fun _ => hold.2.2.1 (by decide), fun _ => hold.2.2.2.1 (by decide),
      fun hindex => absurd hindex (by decide)⟩
  · intro i kind conn hi
    obtain ⟨hkind, hlt⟩ := h.writing i kind conn hi
    exact ⟨hkind, by rwa [hlength]⟩
  · intro conn c hc _
    obtain ⟨d, -, rfl⟩ := List.mem_map.mp (List.mem_of_getElem? hc)
    rfl
  · rw [hlength]
    exact Nat.le_refl _

theorem Sound.enter (h : L.Sound) (isLocal : Bool) :
    Sound { L with
      openers := L.openers - 1
      conns := L.conns ++ [⟨isLocal, .entered, false⟩] } where
  wg := h.wg
  stage := h.stage
  sockets := h.sockets
  single := h.single
  writing := by
    intro i kind conn hi
    obtain ⟨hkind, hlt⟩ := h.writing i kind conn hi
    refine ⟨hkind, ?_⟩
    rw [List.length_append]
    exact Nat.lt_add_right 1 hlt
  conns := by
    intro conn c hc hd
    rcases Crew.getElem?_concat hc with ⟨rfl, rfl⟩ | ⟨-, hc⟩
    · rcases hd with hd | hd
      · cases hd
      · exact absurd hd (Nat.not_lt.mpr h.cleared)
    · exact h.conns _ _ hc hd
  cleared := by
    rw [List.length_append]
    exact Nat.le_add_right_of_le h.cleared

theorem Sound.closeStep (h : L.Sound) {step : CloseStep} (hstage : L.stage = .closing step)
    (hwait : step = .wait → L.wg = 0) : (L.closeStep step).Sound := by
  have hold := h.stage
  simp only [StageOk, hstage] at hold
  obtain ⟨hclosed, hcancelled, hsockets, hdevice, hmanager⟩ := hold
  cases step with
  | conns => exact h.clear hstage
  | mark =>
      refine h.restage ⟨fun _ => rfl, ?_, ?_, ?_, ?_⟩ rfl rfl rfl rfl rfl <;>
        exact fun hindex => absurd hindex (by decide)
  | cancel =>
      refine h.restage ⟨fun _ => hclosed (by decide), fun _ => rfl, ?_, ?_, ?_⟩
          rfl rfl rfl rfl rfl <;>
        exact fun hindex => absurd hindex (by decide)
  | closers =>
      refine h.restage ⟨fun _ => hclosed (by decide), fun _ => hcancelled (by decide), ?_, ?_, ?_⟩
        rfl rfl (List.length_map _) rfl rfl
      · intro _ socket hsocket
        obtain ⟨_, -, rfl⟩ := List.mem_map.mp hsocket
        rfl
      · exact fun hindex => absurd hindex (by decide)
      · exact fun hindex => absurd hindex (by decide)
  | device =>
      refine h.restage ⟨fun _ => hclosed (by decide), fun _ => hcancelled (by decide),
        fun _ => hsockets (by decide), ?_, ?_⟩ rfl rfl rfl rfl rfl
      · intro _ hopen
        obtain ⟨_, -, hfalse⟩ := Option.map_eq_some_iff.mp hopen
        cases hfalse
      · exact fun hindex => absurd hindex (by decide)
  | flows =>
      exact h.restage ⟨fun _ => hclosed (by decide), fun _ => hcancelled (by decide),
        fun _ => hsockets (by decide), fun _ => hdevice (by decide),
        fun hindex => absurd hindex (by decide)⟩ rfl rfl rfl rfl rfl
  | manager =>
      exact h.restage ⟨fun _ => hclosed (by decide), fun _ => hcancelled (by decide),
        fun _ => hsockets (by decide), fun _ => hdevice (by decide), fun _ => rfl⟩
        rfl rfl rfl rfl rfl
  | wait =>
      exact h.restage ⟨hwait rfl, hsockets (by decide), hdevice (by decide), hmanager (by decide),
        fun _ => hcancelled (by decide)⟩ rfl rfl rfl rfl rfl

/-! ### One step -/

/-- `Run` returns an error before anything but the manager was started. -/
theorem Sound.returnIdle (h : L.Sound) (hloops : L.loops = []) (hsockets : L.sockets = [])
    (hdevice : L.device = none) {failed : Bool} (hfailed : failed = true) :
    Sound { L with manager := .closed, failed, stage := .returned } := by
  refine h.restage ⟨?_, ?_, ?_, rfl, ?_⟩ rfl rfl rfl rfl rfl
  · show L.wg = 0
    rw [h.wg, hloops]
    rfl
  · show ∀ s ∈ L.sockets, s = false
    simp [hsockets]
  · show L.device ≠ some true
    simp [hdevice]
  · intro hnot
    exact absurd (hfailed.symm.trans hnot) (by decide)

theorem Sound.startManager (h : L.Sound) (hstage : L.stage = .starting) (ok : Bool) :
    (L.apply (.startManager ok)).Sound := by
  have hold := h.stage
  simp only [StageOk, hstage] at hold
  obtain ⟨hloops, hsockets, hdevice⟩ := hold
  cases ok with
  | true => exact h.restage ⟨hloops, hsockets, hdevice⟩ rfl rfl rfl rfl rfl
  | false => exact h.returnIdle hloops hsockets hdevice rfl

theorem Sound.openDevice (h : L.Sound) (hstage : L.stage = .opening) (ok : Bool) :
    (L.apply (.openDevice ok)).Sound := by
  have hold := h.stage
  simp only [StageOk, hstage] at hold
  obtain ⟨hloops, hsockets, hdevice⟩ := hold
  cases ok with
  | false => exact h.restage ⟨hloops, hsockets, hdevice, rfl⟩ rfl rfl rfl rfl rfl
  | true =>
      have hone : (L.go .tunReadLoop).loops = [⟨.tunReadLoop, .waiting⟩] := by
        simp [Lifecycle.go, hloops]
      refine h.go ⟨hsockets, ?_⟩ le_rfl (fun k hk => by cases hk) fun hk => by cases hk
      intro l hl
      change l ∈ (L.go .tunReadLoop).loops at hl
      rw [hone] at hl
      rw [List.mem_singleton.mp hl]

theorem Sound.launch (h : L.Sound) (hstage : L.stage = .launching) : (L.apply .launch).Sound := by
  have hold := h.stage
  simp only [StageOk, hstage] at hold
  have hincoming : Sound { L.go .incomingLoop with stage := .forwarding } := by
    refine h.go trivial le_rfl (fun k hk => by cases hk) fun _ l hl hkind => ?_
    rw [hold.2 l hl] at hkind
    cases hkind
  exact hincoming.go trivial le_rfl (fun k hk => by cases hk) fun hk => by cases hk

theorem Sound.startForward (h : L.Sound) (hstage : L.stage = .forwarding) (ok : Bool) :
    (L.apply (.startForward ok)).Sound := by
  cases ok with
  | true =>
      have hlength : (L.sockets ++ [true]).length = L.sockets.length + 1 := List.length_append
      refine h.go ?_ (by omega) ?_ fun hk => by cases hk
      · simp only [StageOk, Lifecycle.go, hstage]
      · rintro k ⟨⟩
        omega
  | false =>
      refine h.restage ⟨?_, ?_, ?_, ?_, ?_⟩ rfl rfl rfl rfl rfl <;>
        exact fun hindex => absurd hindex (by decide)

theorem Sound.apply {cfg : Config} (h : L.Sound) {e : LifecycleEvent} (he : L.enabled cfg e) :
    (L.apply e).Sound := by
  have hold := h.stage
  cases e with
  | startManager ok => exact h.startManager he ok
  | openDevice ok => exact h.openDevice he.1 ok
  | skipDevice =>
      simp only [StageOk, show L.stage = .opening from he.1] at hold
      refine h.restage ⟨hold.2.1, ?_⟩ rfl rfl rfl rfl rfl
      show ∀ l ∈ L.loops, l.kind = .tunReadLoop
      simp [hold.1]
  | closeManager =>
      simp only [StageOk, show L.stage = .abandoning from he] at hold
      obtain ⟨hloops, hsockets, hdevice, hfailed⟩ := hold
      exact h.returnIdle hloops hsockets hdevice hfailed
  | launch => exact h.launch he
  | startForward ok => exact h.startForward he.1 ok
  | serve => exact h.restage trivial rfl rfl rfl rfl rfl
  | cancelParent => exact h.restage hold.cancel rfl rfl rfl rfl rfl
  | notice =>
      refine h.restage ⟨?_, ?_, ?_, ?_, ?_⟩ rfl rfl rfl rfl rfl <;>
        exact fun hindex => absurd hindex (by decide)
  | close =>
      obtain ⟨step, hstage, hwait⟩ := he
      simp only [Lifecycle.apply, hstage]
      exact h.closeStep hstage hwait
  | read i => exact h.setLoop he.1 (by decide) (by decide) fun conn hconn => by cases hconn
  | input i =>
      obtain ⟨kind, hl, -⟩ := he
      exact h.setLoop hl (receives_ne_returned kind) (by decide) fun conn hconn => by cases hconn
  | inputError i =>
      obtain ⟨kind, stage, hl, -, hcall⟩ := he
      have hrunning : stage ≠ .returned := by
        rcases hcall with rfl | rfl <;> decide
      simp only [Lifecycle.apply, hl]
      cases kind with
      | tunReadLoop => exact h.leave hl hrunning
      | incomingLoop | maintenanceLoop | forward socket =>
          exact h.setLoop hl hrunning (by decide) fun conn hconn => by cases hconn
  | retry i =>
      obtain ⟨kind, hl⟩ := he
      simp only [Lifecycle.apply]
      split
      · exact h.leave hl (by decide)
      · exact h.setLoop hl (by decide) (by decide) fun conn hconn => by cases hconn
  | stop i =>
      obtain ⟨kind, hl, -⟩ := he
      exact h.leave hl (by decide)
  | finish i =>
      obtain ⟨kind, hl⟩ := he
      exact h.setLoop hl (by decide) (by decide) fun conn hconn => by cases hconn
  | write i conn =>
      obtain ⟨hl, c, hc, -⟩ := he
      refine h.setLoop hl (by decide) (fun hnew => by cases hnew) ?_
      rintro _ ⟨⟩
      exact ⟨rfl, (List.getElem?_eq_some_iff.mp hc).1⟩
  | wrote i ok =>
      obtain ⟨kind, conn, c, hl, hc, -⟩ := he
      cases ok with
      | true =>
          exact h.setLoop hl (fun hold => by cases hold) (by decide) fun _ hconn => by cases hconn
      | false =>
          simp only [Lifecycle.apply, hl]
          have hl' : (L.closeTCP conn).loops[i]? = some ⟨kind, .writing conn⟩ := by
            rwa [closeTCP_loops]
          exact (h.closeTCP conn).setLoop hl' (fun hold => by cases hold) (by decide)
            fun _ hconn => by cases hconn
  | peerClose i conn =>
      have hl : (L.closeTCP conn).loops[i]? = some ⟨.incomingLoop, .waiting⟩ := by
        rw [closeTCP_loops]
        exact he
      exact (h.closeTCP conn).setLoop hl (by decide) (by decide) fun _ hconn => by cases hconn
  | check => exact h.restage hold rfl rfl rfl rfl rfl
  | enter isLocal => exact h.enter isLocal
  | sent conn ok =>
      obtain ⟨c, hc, -⟩ := he
      cases ok with
      | true =>
          simp only [Lifecycle.apply, if_true]
          refine h.setConn hc ?_
          split <;> decide
      | false => exact h.endConn hc
  | ready conn ok =>
      obtain ⟨c, hc, -⟩ := he
      cases ok with
      | true => exact h.setConn hc (by decide)
      | false => exact h.endConn hc
  | giveUp conn =>
      obtain ⟨c, hc, -⟩ := he
      exact h.endConn hc
  | pumpEnd conn =>
      obtain ⟨c, hc, -⟩ := he
      exact h.endConn hc

theorem sound_start : start.Sound := by
  refine ⟨rfl, ⟨rfl, rfl, rfl⟩, ?_, ?_, ?_, ?_, Nat.le_refl 0⟩
  · intro i k stage hl
    cases hl
  · intro i j s t hl
    cases hl
  · intro i kind conn hl
    cases hl
  · intro conn c hc
    cases hc

theorem sound_of_reachable {cfg : Config} (run : (lifecycleMachine cfg).Reachable L) : L.Sound := by
  refine run.invariant ?_ fun L e h he => h.apply he
  rintro _ rfl
  exact sound_start

/-! ### The wait group -/

@[simp] theorem setLoop_wg (L : Lifecycle) (i : Nat) (stage : LoopStage) :
    (L.setLoop i stage).wg = L.wg := by
  unfold setLoop
  split <;> rfl

@[simp] theorem closeTCP_wg (L : Lifecycle) (conn : Nat) : (L.closeTCP conn).wg = L.wg := by
  unfold closeTCP
  split <;> rfl

@[simp] theorem setConn_wg (L : Lifecycle) (conn : Nat) (stage : FlowStage) :
    (L.setConn conn stage).wg = L.wg := by
  unfold setConn
  split <;> rfl

@[simp] theorem endConn_wg (L : Lifecycle) (conn : Nat) : (L.endConn conn).wg = L.wg := by
  simp [endConn]

@[simp] theorem closeStep_wg (L : Lifecycle) (step : CloseStep) : (L.closeStep step).wg = L.wg := by
  cases step <;> rfl

theorem leave_wg (L : Lifecycle) (i : Nat) : (L.leave i).wg ≤ L.wg := Nat.sub_le _ _

/-- Goroutines are added to the wait group before `Close` only. -/
theorem not_closing_of_wg {cfg : Config} {e : LifecycleEvent} (he : L.enabled cfg e)
    (hwg : L.wg < (L.apply e).wg) (step : CloseStep) : L.stage ≠ .closing step := by
  intro hstage
  cases e with
  | openDevice ok =>
      rw [he.1] at hstage
      cases hstage
  | launch =>
      rw [show L.stage = .launching from he] at hstage
      cases hstage
  | startForward ok =>
      rw [he.1] at hstage
      cases hstage
  | startManager ok | sent conn ok | ready conn ok =>
      cases ok <;> simp [Lifecycle.apply] at hwg
  | skipDevice | closeManager | serve | cancelParent | notice | check | enter isLocal =>
      exact absurd hwg (Nat.lt_irrefl _)
  | close =>
      simp only [Lifecycle.apply, hstage, closeStep_wg] at hwg
      exact absurd hwg (Nat.lt_irrefl _)
  | read i | input i | finish i | write i conn | peerClose i conn | giveUp conn | pumpEnd conn =>
      simp [Lifecycle.apply] at hwg
  | stop i => exact absurd hwg (Nat.not_lt.mpr (L.leave_wg i))
  | inputError i =>
      simp only [Lifecycle.apply] at hwg
      split at hwg
      · exact absurd hwg (Nat.not_lt.mpr (L.leave_wg i))
      · simp at hwg
  | retry i =>
      simp only [Lifecycle.apply] at hwg
      split at hwg
      · exact absurd hwg (Nat.not_lt.mpr (L.leave_wg i))
      · simp at hwg
  | wrote i ok =>
      simp only [Lifecycle.apply] at hwg
      split at hwg
      · simp at hwg
      · split at hwg <;> simp at hwg

theorem Sound.returned_of_wg (h : L.Sound) (hwg : L.wg = 0) :
    ∀ l ∈ L.loops, l.stage = .returned := by
  intro l hl
  have hcount : L.loops.countP (fun l => decide (l.stage ≠ .returned)) ≤
      (L.loops.map Loop.running).sum := by
    refine Crew.countP_le_sum fun l hrunning => ?_
    simp [Loop.running, of_decide_eq_true hrunning]
  rw [← h.wg, hwg, Nat.le_zero, List.countP_eq_zero] at hcount
  simpa using hcount l hl

end Lifecycle

/-- In every run, the wait group counts exactly the loops that have not returned,
and no loop is added to it once `Close` has begun. When `Run` has returned, with
an error or not, all loops have returned, every socket and the device are closed,
and so is the manager; without an error the context was cancelled. -/
theorem app_run_cleans_up (cfg : Config) (L : Lifecycle)
    (run : (lifecycleMachine cfg).Reachable L) :
    L.wg = (L.loops.map Loop.running).sum ∧
    (∀ e, L.enabled cfg e → L.wg < (L.apply e).wg → ∀ step, L.stage ≠ .closing step) ∧
    (L.stage = .returned →
      (∀ l ∈ L.loops, l.stage = .returned) ∧ (∀ s ∈ L.sockets, s = false) ∧
      L.device ≠ some true ∧ L.manager = .closed ∧ (L.failed = false → L.cancelled = true)) := by
  have h := Lifecycle.sound_of_reachable run
  refine ⟨h.wg, fun e he hwg => Lifecycle.not_closing_of_wg he hwg, fun hstage => ?_⟩
  have hreturned := h.stage
  simp only [Lifecycle.StageOk, hstage] at hreturned
  exact ⟨h.returned_of_wg hreturned.1, hreturned.2⟩

/-- A run that ends because the socket of the only forward cannot be opened. -/
def failedForward : Lifecycle where
  stage := .returned
  failed := true
  cancelled := true
  closed := true
  manager := .closed
  device := none
  sockets := []
  loops := [⟨.incomingLoop, .returned⟩, ⟨.maintenanceLoop, .returned⟩]
  wg := 0
  openers := 0
  conns := []
  cleared := 0

theorem app_run_cleans_up_failed :
    (∀ l ∈ failedForward.loops, l.stage = .returned) ∧ failedForward.manager = .closed := by
  have start : (lifecycleMachine sampleConfig).Reachable Lifecycle.start := .start rfl
  have run : (lifecycleMachine sampleConfig).Reachable failedForward :=
    start.run [.startManager true, .skipDevice, .launch, .startForward false, .close, .close,
      .close, .close, .close, .close, .close, .stop 0, .stop 1, .close]
      ⟨rfl, trivial, ⟨rfl, rfl⟩, trivial, rfl, trivial, ⟨rfl, by decide⟩, trivial,
        ⟨.mark, rfl, by decide⟩, trivial, ⟨.cancel, rfl, by decide⟩, trivial,
        ⟨.closers, rfl, by decide⟩, trivial, ⟨.device, rfl, by decide⟩, trivial,
        ⟨.conns, rfl, by decide⟩, trivial, ⟨.flows, rfl, by decide⟩, trivial,
        ⟨.manager, rfl, by decide⟩, trivial, ⟨_, rfl, rfl, rfl⟩, trivial, ⟨_, rfl, rfl, rfl⟩,
        trivial, ⟨.wait, rfl, fun _ => rfl⟩, trivial, trivial⟩
  have h := (app_run_cleans_up sampleConfig failedForward run).2.2 rfl
  exact ⟨h.1, h.2.2.2.1⟩

/-! ## What `Close` waits for -/

/-- How many steps a loop has left once what it waits on is closed. -/
def LoopStage.left : LoopStage → Nat
  | .returned => 0
  | .failed => 1
  | .waiting | .reading => 2
  | .working => 3
  | .writing _ => 4

/-- Whether the goroutine of a connection will close it by itself. -/
def FlowConn.left (c : FlowConn) : Nat :=
  match c.stage with
  | .entered | .awaiting => 1
  | .pumping | .finished => 0

namespace Lifecycle

variable {L : Lifecycle} {i : Nat} {kind : LoopKind} {old new : LoopStage}

/-- The steps that need nothing from outside: a call on something closed returns,
other than a read of the device that has begun, timers run out, and what is not a
call goes on. -/
def ofProgram (L : Lifecycle) : LifecycleEvent → Prop
  | .inputError i => ∃ l, L.loops[i]? = some l ∧ l.stage = .waiting ∧ ¬ L.feeds l.kind
  | .wrote i _ => ∃ l conn c, L.loops[i]? = some l ∧ l.stage = .writing conn ∧
      L.conns[conn]? = some c ∧ c.closed = true
  | .pumpEnd conn => ∃ c, L.conns[conn]? = some c ∧ c.closed = true
  | .input _ | .write _ _ | .peerClose _ _ | .ready _ _ | .cancelParent => False
  | _ => True

/-- `incomingLoop` writes to an open connection that its own goroutine only reads. -/
def Blocked (L : Lifecycle) : Prop :=
  ∃ (i conn : Nat) (c : FlowConn), L.loops[i]? = some ⟨.incomingLoop, .writing conn⟩ ∧
    L.conns[conn]? = some c ∧ c.closed = false ∧ c.stage = .pumping

/-- `tunReadLoop` is in a read of the device that has begun. -/
def Reading (L : Lifecycle) : Prop := ∃ (i : Nat) (l : Loop), L.loops[i]? = some l ∧
  l.stage = .reading

def left (L : Lifecycle) : Nat :=
  (L.loops.map fun l => l.stage.left).sum + (L.conns.map FlowConn.left).sum

/-- `Close` waits and will not wait forever. -/
structure Ending (L : Lifecycle) : Prop where
  sound : L.Sound
  stage : L.stage = .closing .wait
  free : ¬ L.Blocked
  idle : ¬ L.Reading

theorem Ending.facts (h : L.Ending) : L.cancelled = true ∧ (∀ s ∈ L.sockets, s = false) ∧
    L.device ≠ some true ∧ L.manager = .closed := by
  have hstage := h.sound.stage
  simp only [StageOk, h.stage] at hstage
  exact ⟨hstage.2.1 (by decide), hstage.2.2.1 (by decide), hstage.2.2.2.1 (by decide),
    hstage.2.2.2.2 (by decide)⟩

theorem closeTCP_of_closed {conn : Nat} {c : FlowConn} (hc : L.conns[conn]? = some c)
    (hclosed : c.closed = true) : L.closeTCP conn = L := by
  have hsame : ({ c with closed := true } : FlowConn) = c := by
    obtain ⟨isLocal, stage, closed⟩ := c
    cases hclosed
    rfl
  rw [closeTCP_eq hc, hsame, Crew.set_self hc]

theorem endConn_eq {conn : Nat} {c : FlowConn} (hc : L.conns[conn]? = some c) :
    L.endConn conn =
      { L with conns := L.conns.set conn { c with stage := .finished, closed := true } } := by
  have hlt : conn < L.conns.length := (List.getElem?_eq_some_iff.mp hc).1
  have hnext : (L.conns.set conn { c with closed := true })[conn]? =
      some { c with closed := true } := by simp [hlt]
  rw [endConn, closeTCP_eq hc]
  simp only [setConn, hnext, List.set_set]

/-- A loop moves on, and not to a connection. -/
theorem Ending.move (h : L.Ending) (hl : L.loops[i]? = some ⟨kind, old⟩)
    (hnew : ∀ conn, new ≠ .writing conn) (hread : new ≠ .reading) (hless : new.left < old.left)
    {wg : Nat} (hsound : Sound { L with loops := L.loops.set i ⟨kind, new⟩, wg := wg }) :
    Ending { L with loops := L.loops.set i ⟨kind, new⟩, wg := wg } ∧
      left { L with loops := L.loops.set i ⟨kind, new⟩, wg := wg } < L.left := by
  refine ⟨⟨hsound, h.stage, ?_, ?_⟩, ?_⟩
  · rintro ⟨j, conn, c, hj, hc⟩
    rcases Crew.getElem?_set hj with ⟨-, heq⟩ | ⟨-, hk⟩
    · exact hnew conn (congrArg Loop.stage heq).symm
    · exact h.free ⟨j, conn, c, hk, hc⟩
  · rintro ⟨j, l, hj, hstage⟩
    rcases Crew.getElem?_set hj with ⟨-, rfl⟩ | ⟨-, hk⟩
    · exact hread hstage
    · exact h.idle ⟨j, l, hk, hstage⟩
  · have hsum := Crew.sum_set (fun l : Loop => l.stage.left) hl ⟨kind, new⟩
    simp only [left]
    simp only at hsum
    omega

theorem Ending.leave (h : L.Ending) (hl : L.loops[i]? = some ⟨kind, old⟩) (hold : old ≠ .returned) :
    (L.leave i).Ending ∧ (L.leave i).left < L.left := by
  have hsound := h.sound.leave hl hold
  have hless : LoopStage.returned.left < old.left := by
    cases old <;> simp_all [LoopStage.left]
  rw [Lifecycle.leave, setLoop_eq hl] at hsound ⊢
  exact h.move hl (fun conn hconn => by cases hconn) (by decide) hless hsound

theorem Ending.setLoop (h : L.Ending) (hl : L.loops[i]? = some ⟨kind, old⟩)
    (hold : old ≠ .returned) (hnew : new ≠ .returned) (hwrite : ∀ conn, new ≠ .writing conn)
    (hread : new ≠ .reading) (hless : new.left < old.left) :
    (L.setLoop i new).Ending ∧ (L.setLoop i new).left < L.left := by
  have hsound := h.sound.setLoop hl hold hnew fun conn hconn => absurd hconn (hwrite conn)
  rw [setLoop_eq hl] at hsound ⊢
  exact h.move hl hwrite hread hless hsound

/-- A goroutine closes its connection and ends. -/
theorem Ending.close (h : L.Ending) {conn : Nat} {c : FlowConn} (hc : L.conns[conn]? = some c)
    (hleft : c.left = 1) : (L.endConn conn).Ending ∧ (L.endConn conn).left < L.left := by
  have hsound := h.sound.endConn hc
  rw [endConn_eq hc] at hsound ⊢
  refine ⟨⟨hsound, h.stage, ?_, h.idle⟩, ?_⟩
  · rintro ⟨j, conn', d, hj, hd, hopen, hpumping⟩
    rcases Crew.getElem?_set hd with ⟨-, rfl⟩ | ⟨-, hd⟩
    · cases hopen
    · exact h.free ⟨j, conn', d, hj, hd, hopen, hpumping⟩
  · have hsum := Crew.sum_set FlowConn.left hc { c with stage := .finished, closed := true }
    have hzero : FlowConn.left { c with stage := .finished, closed := true } = 0 := rfl
    simp only [left]
    omega

/-- A loop that waits is told to return, or its call fails. -/
theorem Ending.round_waiting (cfg : Config) (h : L.Ending)
    (hl : L.loops[i]? = some ⟨kind, .waiting⟩) :
    (lifecycleMachine cfg).CanReach ofProgram L fun t => t.Ending ∧ t.left < L.left := by
  obtain ⟨hcancelled, hsockets, hdevice, -⟩ := h.facts
  cases kind with
  | incomingLoop | maintenanceLoop =>
      exact .step (.stop i) ⟨_, hl, rfl, hcancelled⟩ trivial (.here (h.leave hl (by decide)))
  | tunReadLoop =>
      refine .step (.inputError i) ⟨_, _, hl, rfl, Or.inl rfl⟩ ⟨_, hl, rfl, hdevice⟩ (.here ?_)
      show (L.apply (.inputError i)).Ending ∧ (L.apply (.inputError i)).left < L.left
      simp only [Lifecycle.apply, hl]
      exact h.leave hl (by decide)
  | forward socket =>
      have hclosed : ¬ L.feeds (.forward socket) := by
        intro hopen
        exact absurd (hsockets true (List.mem_of_getElem? hopen)) (by decide)
      refine .step (.inputError i) ⟨_, _, hl, rfl, Or.inl rfl⟩ ⟨_, hl, rfl, hclosed⟩ (.here ?_)
      show (L.apply (.inputError i)).Ending ∧ (L.apply (.inputError i)).left < L.left
      simp only [Lifecycle.apply, hl]
      exact h.setLoop hl (by decide) (by decide) (fun conn hconn => by cases hconn) (by decide)
        (Nat.lt_succ_self 1)

/-- A write returns if its connection is closed, which it is or will be. -/
theorem Ending.round_writing (cfg : Config) (h : L.Ending) {conn : Nat}
    (hl : L.loops[i]? = some ⟨kind, .writing conn⟩) :
    (lifecycleMachine cfg).CanReach ofProgram L fun t => t.Ending ∧ t.left < L.left := by
  obtain ⟨rfl, hlt⟩ := h.sound.writing i kind conn hl
  have hc : L.conns[conn]? = some (L.conns.get ⟨conn, hlt⟩) := List.getElem?_eq_getElem hlt
  generalize L.conns.get ⟨conn, hlt⟩ = c at hc
  cases hclosed : c.closed with
  | true =>
      refine .step (.wrote i false) ⟨_, conn, c, hl, hc, (fun hok => by cases hok)⟩
        ⟨_, conn, c, hl, rfl, hc, hclosed⟩ (.here ?_)
      show (L.apply (.wrote i false)).Ending ∧ (L.apply (.wrote i false)).left < L.left
      simp only [Lifecycle.apply, hl, closeTCP_of_closed hc hclosed, Bool.false_eq_true, if_false]
      exact h.setLoop hl (fun hold => by cases hold) (by decide) (fun _ hconn => by cases hconn)
        (by decide) (Nat.lt_succ_self 3)
  | false =>
      cases hstage : c.stage with
      | entered =>
          have hleft : c.left = 1 := by simp only [FlowConn.left, hstage]
          exact .step (.sent conn false) ⟨c, hc, hstage, (fun hok => by cases hok)⟩ trivial
            (.here (h.close hc hleft))
      | awaiting =>
          have hleft : c.left = 1 := by simp only [FlowConn.left, hstage]
          exact .step (.giveUp conn) ⟨c, hc, hstage⟩ trivial (.here (h.close hc hleft))
      | pumping => exact absurd ⟨i, conn, c, hl, hc, hclosed, hstage⟩ h.free
      | finished =>
          have hdone := h.sound.conns conn c hc (Or.inl hstage)
          exact absurd (hclosed.symm.trans hdone) (by decide)

/-- While a loop has not returned, some step brings `Close` closer to its end. -/
theorem Ending.round (cfg : Config) (h : L.Ending) (hwg : L.wg ≠ 0) :
    (lifecycleMachine cfg).CanReach ofProgram L fun t => t.Ending ∧ t.left < L.left := by
  obtain ⟨i, ⟨kind, stage⟩, hl, hrunning⟩ :=
    Crew.exists_of_sum Loop.running (h.sound.wg ▸ hwg)
  cases stage with
  | returned => exact absurd rfl hrunning
  | waiting => exact h.round_waiting cfg hl
  | reading => exact absurd ⟨i, _, hl, rfl⟩ h.idle
  | writing conn => exact h.round_writing cfg hl
  | failed =>
      refine .step (.retry i) ⟨kind, hl⟩ trivial (.here ?_)
      show (L.apply (.retry i)).Ending ∧ (L.apply (.retry i)).left < L.left
      simp only [Lifecycle.apply, h.facts.1, if_true]
      exact h.leave hl (by decide)
  | working =>
      exact .step (.finish i) ⟨kind, hl⟩ trivial (.here (h.setLoop hl (by decide) (by decide)
        (fun conn hconn => by cases hconn) (by decide) (Nat.lt_succ_self 2)))

/-- What keeps `Close` waiting: the loop and the connection stay as they are. -/
def BlockedAt (L : Lifecycle) (i conn : Nat) : Prop :=
  L.stage = .closing .wait ∧ L.loops[i]? = some ⟨.incomingLoop, .writing conn⟩ ∧
    ∃ c, L.conns[conn]? = some c ∧ c.closed = false ∧ c.stage = .pumping

@[simp] theorem setLoop_stage (L : Lifecycle) (i : Nat) (stage : LoopStage) :
    (L.setLoop i stage).stage = L.stage := by
  unfold setLoop
  split <;> rfl

@[simp] theorem leave_stage (L : Lifecycle) (i : Nat) : (L.leave i).stage = L.stage :=
  setLoop_stage L i .returned

@[simp] theorem closeTCP_stage (L : Lifecycle) (conn : Nat) :
    (L.closeTCP conn).stage = L.stage := by
  unfold closeTCP
  split <;> rfl

@[simp] theorem setConn_stage (L : Lifecycle) (conn : Nat) (stage : FlowStage) :
    (L.setConn conn stage).stage = L.stage := by
  unfold setConn
  split <;> rfl

@[simp] theorem endConn_stage (L : Lifecycle) (conn : Nat) :
    (L.endConn conn).stage = L.stage := by
  simp [endConn]

/-- `Close` goes on, but does not end its wait while a loop is counted. -/
theorem closing_apply {cfg : Config} {step : CloseStep} {l : Loop} {e : LifecycleEvent}
    (hstage : L.stage = .closing step) (h : L.Sound) (hl : L.loops[i]? = some l)
    (hcounted : l.stage ≠ .returned) (he : L.enabled cfg e) :
    ∃ next, (L.apply e).stage = .closing next ∧ (step = .wait → next = .wait) := by
  have hother : ∀ {stage}, L.stage = stage → (∀ step, stage ≠ .closing step) → False :=
    fun heq hne => hne step (heq.symm.trans hstage)
  cases e with
  | startManager ok | closeManager | launch =>
      exact (hother he fun step hstep => by cases hstep).elim
  | openDevice ok | skipDevice | startForward ok | serve | notice =>
      exact (hother he.1 fun step hstep => by cases hstep).elim
  | close =>
      obtain ⟨step', hstep, hwait⟩ := he
      obtain rfl : step' = step := by
        rw [hstage] at hstep
        cases hstep
        rfl
      simp only [Lifecycle.apply, hstage]
      cases step' with
      | wait => exact absurd (h.returned_of_wg (hwait rfl) l (List.mem_of_getElem? hl)) hcounted
      | mark | cancel | closers | device | conns | flows | manager =>
          exact ⟨_, rfl, fun hstep => by cases hstep⟩
  | read j | input j | stop j | finish j | write j conn | peerClose j conn | cancelParent | check
  | enter isLocal | giveUp conn | pumpEnd conn =>
      exact ⟨step, by simp [Lifecycle.apply, hstage], id⟩
  | inputError j | retry j | sent conn ok | ready conn ok =>
      refine ⟨step, ?_, id⟩
      simp only [Lifecycle.apply]
      split <;> simp [hstage]
  | wrote j ok =>
      refine ⟨step, ?_, id⟩
      simp only [Lifecycle.apply]
      split
      · simp [hstage]
      · split <;> simp [hstage]

theorem setLoop_loops_ne {j : Nat} (hne : j ≠ i) (stage : LoopStage) :
    (L.setLoop j stage).loops[i]? = L.loops[i]? := by
  unfold setLoop
  split
  · exact List.getElem?_set_ne hne
  · rfl

@[simp] theorem setConn_loops (L : Lifecycle) (conn : Nat) (stage : FlowStage) :
    (L.setConn conn stage).loops = L.loops := by
  unfold setConn
  split <;> rfl

@[simp] theorem endConn_loops (L : Lifecycle) (conn : Nat) : (L.endConn conn).loops = L.loops := by
  simp [endConn]

/-- No step of the program moves a loop that is in a read of the device, or in a
write to an open connection. -/
theorem loops_apply_of_held {cfg : Config} {step : CloseStep} {l : Loop} {e : LifecycleEvent}
    (hstage : L.stage = .closing step) (hl : L.loops[i]? = some l)
    (hheld : l.stage = .reading ∨ ∃ conn c, l.stage = .writing conn ∧
      L.conns[conn]? = some c ∧ c.closed = false)
    (he : L.enabled cfg e) (hok : L.ofProgram e) : (L.apply e).loops[i]? = some l := by
  have hother : ∀ {stage}, L.stage = stage → (∀ step, stage ≠ .closing step) → False :=
    fun heq hne => hne step (heq.symm.trans hstage)
  have hmove {j : Nat} (hne : j ≠ i) (stage : LoopStage) :
      (L.setLoop j stage).loops[i]? = some l := (setLoop_loops_ne hne stage).trans hl
  have hfree {j : Nat} {k : Loop} (hk : L.loops[j]? = some k) (hreading : k.stage ≠ .reading)
      (hwriting : ∀ conn, k.stage ≠ .writing conn) : j ≠ i := by
    rintro rfl
    obtain rfl := Option.some.inj (hk.symm.trans hl)
    rcases hheld with hstage | ⟨conn, -, hstage, -⟩
    · exact hreading hstage
    · exact hwriting conn hstage
  cases e with
  | startManager ok | closeManager | launch =>
      exact (hother he fun step hstep => by cases hstep).elim
  | openDevice ok | skipDevice | startForward ok | serve | notice =>
      exact (hother he.1 fun step hstep => by cases hstep).elim
  | input i | write i conn | peerClose i conn | ready conn ok | cancelParent => exact hok.elim
  | close =>
      simp only [Lifecycle.apply, hstage]
      cases step <;> exact hl
  | read j => exact hmove (hfree he.1 (by decide) fun conn hw => by cases hw) _
  | inputError j =>
      obtain ⟨k, hj, hwaiting, -⟩ := hok
      have hne := hfree hj (hwaiting ▸ by decide) (hwaiting ▸ fun conn hw => by cases hw)
      simp only [Lifecycle.apply]
      split <;> exact hmove hne _
  | retry j =>
      obtain ⟨kind, hj⟩ := he
      have hne := hfree hj (fun hr => by cases hr) fun conn hw => by cases hw
      simp only [Lifecycle.apply]
      split <;> exact hmove hne _
  | stop j =>
      obtain ⟨kind, hj, -⟩ := he
      exact hmove (hfree hj (fun hr => by cases hr) fun conn hw => by cases hw) _
  | finish j =>
      obtain ⟨kind, hj⟩ := he
      exact hmove (hfree hj (fun hr => by cases hr) fun conn hw => by cases hw) _
  | wrote j ok =>
      -- the connection of a write that ends is closed
      obtain ⟨k, conn, d, hj, hwriting, hd, hclosed⟩ := hok
      have hne : j ≠ i := by
        rintro rfl
        obtain rfl := Option.some.inj (hj.symm.trans hl)
        rcases hheld with hreading | ⟨conn', c, hstage, hc, hopen⟩
        · cases hreading.symm.trans hwriting
        · cases hstage.symm.trans hwriting
          obtain rfl := Option.some.inj (hc.symm.trans hd)
          exact absurd (hopen.symm.trans hclosed) (by decide)
      simp only [Lifecycle.apply]
      split_ifs
      · exact hmove hne _
      · split
        · rw [setLoop_loops_ne hne, closeTCP_loops]
          exact hl
        · exact hl
  | check | enter isLocal => exact hl
  | sent conn ok =>
      cases ok with
      | true => exact (congrArg (·[i]?) (setConn_loops L conn _)).trans hl
      | false => exact (congrArg (·[i]?) (endConn_loops L conn)).trans hl
  | giveUp conn | pumpEnd conn => exact (congrArg (·[i]?) (endConn_loops L conn)).trans hl

@[simp] theorem setLoop_conns (L : Lifecycle) (i : Nat) (stage : LoopStage) :
    (L.setLoop i stage).conns = L.conns := by
  unfold setLoop
  split <;> rfl

@[simp] theorem leave_conns (L : Lifecycle) (i : Nat) : (L.leave i).conns = L.conns :=
  setLoop_conns L i .returned

theorem endConn_conns_ne {j conn : Nat} {c : FlowConn} (hc : L.conns[j]? = some c)
    (hne : j ≠ conn) : (L.endConn j).conns[conn]? = L.conns[conn]? := by
  rw [endConn_eq hc]
  exact List.getElem?_set_ne hne

/-- While `Close` waits, no step of the program closes an open connection that is
pumped, or ends its goroutine. -/
theorem conns_apply_of_pumping {cfg : Config} {conn : Nat} {c : FlowConn} {e : LifecycleEvent}
    (hstage : L.stage = .closing .wait) (hc : L.conns[conn]? = some c) (hopen : c.closed = false)
    (hpumping : c.stage = .pumping) (he : L.enabled cfg e) (hok : L.ofProgram e) :
    (L.apply e).conns[conn]? = some c := by
  have hother : ∀ {stage}, L.stage = stage → stage ≠ .closing .wait → False :=
    fun heq hne => hne (heq.symm.trans hstage)
  have hne {j : Nat} {d : FlowConn} (hd : L.conns[j]? = some d)
      (hdiffers : d.stage ≠ .pumping ∨ d.closed = true) : j ≠ conn := by
    rintro rfl
    obtain rfl := Option.some.inj (hc.symm.trans hd)
    rcases hdiffers with hstage | hclosed
    · exact hstage hpumping
    · exact absurd (hopen.symm.trans hclosed) (by decide)
  cases e with
  | startManager ok | closeManager | launch => exact (hother he (by decide)).elim
  | openDevice ok | skipDevice | startForward ok | serve | notice =>
      exact (hother he.1 (by decide)).elim
  | input i | write i conn | peerClose i conn | ready conn ok | cancelParent => exact hok.elim
  | close =>
      simp only [Lifecycle.apply, hstage]
      exact hc
  | read j | stop j | finish j => simpa [Lifecycle.apply] using hc
  | inputError j | retry j =>
      simp only [Lifecycle.apply]
      split <;> simpa using hc
  | wrote j ok =>
      obtain ⟨⟨kind, stage⟩, conn', d, hj, rfl, hd, hclosed⟩ := hok
      cases ok with
      | true => simpa [Lifecycle.apply] using hc
      | false => simpa [Lifecycle.apply, hj, closeTCP_of_closed hd hclosed] using hc
  | check => exact hc
  | enter isLocal =>
      exact (List.getElem?_append_left (List.getElem?_eq_some_iff.mp hc).1).trans hc
  | sent j ok =>
      obtain ⟨d, hd, hentered, -⟩ := he
      have hj := hne hd (Or.inl (by rw [hentered]; decide))
      cases ok with
      | true =>
          simp only [Lifecycle.apply, if_true, Lifecycle.setConn, hd]
          exact (List.getElem?_set_ne hj).trans hc
      | false => exact (endConn_conns_ne hd hj).trans hc
  | giveUp j =>
      obtain ⟨d, hd, hawaiting⟩ := he
      exact (endConn_conns_ne hd (hne hd (Or.inl (by rw [hawaiting]; decide)))).trans hc
  | pumpEnd j =>
      obtain ⟨d, hd, hclosed⟩ := hok
      exact (endConn_conns_ne hd (hne hd (Or.inr hclosed))).trans hc

/-- No step of the program frees the loop. -/
theorem BlockedAt.apply {cfg : Config} {conn : Nat} (hb : L.BlockedAt i conn) (h : L.Sound)
    {e : LifecycleEvent} (he : L.enabled cfg e) (hok : L.ofProgram e) :
    (L.apply e).BlockedAt i conn := by
  obtain ⟨hstage, hl, c, hc, hopen, hpumping⟩ := hb
  obtain ⟨next, hnext, hwait⟩ := closing_apply hstage h hl (fun hstage => by cases hstage) he
  obtain rfl := hwait rfl
  have hloop := loops_apply_of_held hstage hl (Or.inr ⟨conn, c, rfl, hc, hopen⟩) he hok
  have hconn := conns_apply_of_pumping hstage hc hopen hpumping he hok
  exact ⟨hnext, hloop, c, hconn, hopen, hpumping⟩

/-- A loop is in a read of the device while `Close` is under way. -/
def ReadingAt (L : Lifecycle) (i : Nat) : Prop :=
  (∃ step, L.stage = .closing step) ∧ ∃ l, L.loops[i]? = some l ∧ l.stage = .reading

/-- No step of the program ends the read. -/
theorem ReadingAt.apply {cfg : Config} (hr : L.ReadingAt i) (h : L.Sound) {e : LifecycleEvent}
    (he : L.enabled cfg e) (hok : L.ofProgram e) : (L.apply e).ReadingAt i := by
  obtain ⟨⟨step, hstage⟩, l, hl, hreading⟩ := hr
  obtain ⟨next, hnext, -⟩ := closing_apply hstage h hl (by rw [hreading]; decide) he
  have hloop := loops_apply_of_held hstage hl (Or.inl hreading) he hok
  exact ⟨⟨next, hnext⟩, l, hloop, hreading⟩

/-- There is no device, and so no read of it. -/
def Deviceless (L : Lifecycle) : Prop := L.device = none ∧ ¬ L.Reading

theorem Deviceless.setLoop (h : L.Deviceless) (i : Nat) (hnew : new ≠ .reading) :
    (L.setLoop i new).Deviceless := by
  unfold Lifecycle.setLoop
  split
  · refine ⟨h.1, ?_⟩
    rintro ⟨j, l, hj, hreading⟩
    rcases Crew.getElem?_set hj with ⟨-, rfl⟩ | ⟨-, hk⟩
    · exact hnew hreading
    · exact h.2 ⟨j, l, hk, hreading⟩
  · exact h

theorem Deviceless.leave (h : L.Deviceless) (i : Nat) : (L.leave i).Deviceless :=
  h.setLoop i (by decide)

theorem Deviceless.go (h : L.Deviceless) (kind : LoopKind) : (L.go kind).Deviceless := by
  refine ⟨h.1, ?_⟩
  rintro ⟨j, l, hj, hreading⟩
  rcases Crew.getElem?_concat hj with ⟨-, rfl⟩ | ⟨-, hk⟩
  · cases hreading
  · exact h.2 ⟨j, l, hk, hreading⟩

theorem Deviceless.closeTCP (h : L.Deviceless) (conn : Nat) : (L.closeTCP conn).Deviceless := by
  unfold Lifecycle.closeTCP
  split <;> exact h

theorem Deviceless.setConn (h : L.Deviceless) (conn : Nat) (stage : FlowStage) :
    (L.setConn conn stage).Deviceless := by
  unfold Lifecycle.setConn
  split <;> exact h

theorem Deviceless.endConn (h : L.Deviceless) (conn : Nat) : (L.endConn conn).Deviceless :=
  (h.closeTCP conn).setConn conn .finished

theorem Deviceless.closeStep (h : L.Deviceless) (step : CloseStep) :
    (L.closeStep step).Deviceless := by
  cases step with
  | device => exact ⟨congrArg (Option.map fun _ => false) h.1, h.2⟩
  | mark | cancel | closers | conns | flows | manager | wait => exact h

theorem Deviceless.apply {cfg : Config} (hl3 : cfg.l3.enabled = false) (h : L.Deviceless)
    {e : LifecycleEvent} (he : L.enabled cfg e) : (L.apply e).Deviceless := by
  cases e with
  | startManager ok => cases ok <;> exact h
  | openDevice ok => exact absurd (hl3.symm.trans he.2) (by decide)
  | skipDevice | closeManager | serve | cancelParent | notice | check | enter isLocal => exact h
  | launch => exact (h.go .incomingLoop).go .maintenanceLoop
  | startForward ok =>
      cases ok with
      | true => exact h.go (.forward L.sockets.length)
      | false => exact h
  | close =>
      simp only [Lifecycle.apply]
      split
      · exact h.closeStep _
      · exact h
  | read i => exact absurd (h.1.symm.trans he.2) (by decide)
  | input i => exact h.setLoop i (by decide)
  | inputError i =>
      simp only [Lifecycle.apply]
      split
      · exact h.leave i
      · exact h.setLoop i (by decide)
  | retry i =>
      simp only [Lifecycle.apply]
      split
      · exact h.leave i
      · exact h.setLoop i (by decide)
  | stop i => exact h.leave i
  | finish i => exact h.setLoop i (by decide)
  | write i conn => exact h.setLoop i fun hnew => by cases hnew
  | wrote i ok =>
      simp only [Lifecycle.apply]
      split
      · exact h.setLoop i (by decide)
      · split
        · exact (h.closeTCP _).setLoop i (by decide)
        · exact h
  | peerClose i conn => exact (h.closeTCP conn).setLoop i (by decide)
  | sent conn ok | ready conn ok =>
      cases ok with
      | true => exact h.setConn conn _
      | false => exact h.endConn conn
  | giveUp conn | pumpEnd conn => exact h.endConn conn

end Lifecycle

end UnknownTunnel.App

import UnknownTunnel.Transport.UdpLink

/-!
# Opening and closing forwarded TCP flows on two nodes

`openLocalTCP` registers a flow under a new connection ID, asks the peer to
open it and waits for the answer. The peer dials the service in a goroutine
of its own, registers the flow if the dial succeeds and answers. Afterwards a
pump runs on either node until its connection ends. Closes are handled by the
loop that reads messages.

## Implementation notes

A node's state about one connection ID is its entry in `tcpConns` together
with the goroutines that serve the ID. What a goroutine does between two
accesses to `tcpConns` or to the transport is one step, and every interleaving
of steps is a run. `closeTCP` removes the entry first and sends the close
afterwards, so closes still to be sent are counted. A step of a sending
goroutine says whether the transport took the message. The outcome of the
capacity test, of the service lookup and of the dial is a choice of the step.
-/

namespace UnknownTunnel.App

open Foundation Transport

/-- The messages about one connection ID. -/
inductive ConnMessage
  | openTCP
  | tcpStatus (error : String)
  | tcpData
  | tcpClose
  deriving DecidableEq

/-- Why `handleOpenTCP` refuses a flow. -/
inductive Refusal
  | limit
  | notAllowed
  | dialFailed
  deriving DecidableEq

/-- The error text of the answer. -/
def Refusal.text : Refusal → String
  | .limit => "TCP connection limit reached"
  | .notAllowed => "service is not allowed or is not TCP"
  | .dialFailed => "remote service connection failed"

theorem Refusal.text_ne (r : Refusal) : r.text ≠ "" := by cases r <;> decide

/-- Where `openLocalTCP` stands. -/
inductive Opener
  | idle
  | sending
  | waiting
  | established
  | finished
  deriving DecidableEq

/-- Where `handleOpenTCP` stands: it counts as dialing until it registers the
flow or gives up. -/
inductive Acceptor
  | idle
  | dialing
  | announcing
  | announced
  | failed
  deriving DecidableEq

/-- A node's state about one connection ID. `ready` is the buffer of the
channel that `openLocalTCP` waits on, `notifying` counts the closes still to
be sent, and `closeHandled` records that a close was handled. -/
structure ConnSide where
  registered : Bool := false
  ready : Option (Option String) := none
  opener : Opener := .idle
  acceptor : Acceptor := .idle
  pumping : Bool := false
  notifying : Nat := 0
  closeHandled : Bool := false
  deriving DecidableEq

/-- The steps of a node about one connection ID. -/
inductive ConnStep
  | sendOpen (sent : Bool)
  | takeReady
  | timeout
  | refuse (reason : Refusal) (sent : Bool)
  | dialed
  | announce (sent : Bool)
  | pumpData
  | pumpEnd
  | notify (sent : Bool)
  | handle (message : ConnMessage) (written : Bool)
  deriving DecidableEq

namespace ConnSide

/-- The flow is closed once, and the peer is told if that is asked for. -/
def closeTCP (notify : Bool) (s : ConnSide) : ConnSide :=
  if s.registered then
    { s with
      registered := false
      notifying := if notify then s.notifying + 1 else s.notifying }
  else s

/-- The answer to an open goes to the goroutine that waits for it. -/
def handleTCPStatus (error : String) (s : ConnSide) : ConnSide :=
  -- Only an entry made by `openLocalTCP` has the channel, and a full channel
  -- drops the answer.
  if s.registered ∧ s.opener ≠ .idle ∧ s.ready = none then
    { s with ready := some (if error = "" then none else some error) }
  else s

/-- Data for no flow is answered with a close, and a failed write closes the flow. -/
def handleTCPData (written : Bool) (s : ConnSide) : ConnSide :=
  if s.registered then
    if written then s else s.closeTCP true
  else { s with notifying := s.notifying + 1 }

def handleMessage (written : Bool) (s : ConnSide) : ConnMessage → ConnSide
  | .openTCP => { s with acceptor := .dialing }
  | .tcpStatus error => s.handleTCPStatus error
  | .tcpData => s.handleTCPData written
  | .tcpClose => { s.closeTCP false with closeHandled := true }

/-- The state after a step. -/
def apply (s : ConnSide) : ConnStep → ConnSide
  | .sendOpen true => { s with opener := .waiting }
  | .sendOpen false => { s.closeTCP false with opener := .finished }
  | .takeReady =>
      match s.ready with
      | some none => { s with ready := none, opener := .established, pumping := true }
      | some (some _) => { s.closeTCP false with ready := none, opener := .finished }
      | none => s
  | .timeout => { s.closeTCP true with opener := .finished }
  | .refuse _ _ => { s with acceptor := .failed }
  | .dialed =>
      if s.registered then { s with acceptor := .failed }
      else { s with registered := true, acceptor := .announcing }
  | .announce true => { s with acceptor := .announced, pumping := true }
  | .announce false => { s.closeTCP false with acceptor := .failed }
  | .pumpData => s
  | .pumpEnd => { s.closeTCP true with pumping := false }
  | .notify _ => { s with notifying := s.notifying - 1 }
  | .handle message written => s.handleMessage written message

/-- The message a step hands to the transport. -/
def sends : ConnStep → Option ConnMessage
  | .sendOpen true => some .openTCP
  | .refuse reason true => some (.tcpStatus reason.text)
  | .announce true => some (.tcpStatus "")
  | .pumpData => some .tcpData
  | .notify true => some .tcpClose
  | _ => none

/-- A step is possible, given the next message about this ID if it is the
next one to be handled. -/
def enabled (s : ConnSide) (next : Option ConnMessage) : ConnStep → Prop
  | .sendOpen _ => s.opener = .sending
  | .takeReady => s.opener = .waiting ∧ s.ready ≠ none
  | .timeout => s.opener = .waiting
  | .refuse _ _ => s.acceptor = .dialing
  | .dialed => s.acceptor = .dialing
  | .announce _ => s.acceptor = .announcing
  | .pumpData => s.pumping
  | .pumpEnd => s.pumping
  | .notify _ => 0 < s.notifying
  | .handle message _ => next = some message

/-- The entry that `openLocalTCP` makes. -/
def opening : ConnSide := { registered := true, opener := .sending }

/-- Neither `openLocalTCP` nor `handleOpenTCP` is under way. -/
def Settled (s : ConnSide) : Prop :=
  s.opener ≠ .sending ∧ s.opener ≠ .waiting ∧ s.acceptor ≠ .dialing ∧ s.acceptor ≠ .announcing

/-- Every close handed to the transport is taken, and no close is handled
while `handleOpenTCP` has yet to register the flow or give up. -/
def ClosesAfterOpen (s : ConnSide) : ConnStep → Prop
  | .notify sent => sent = true
  | .handle .tcpClose _ => s.acceptor ≠ .dialing
  | _ => True

end ConnSide

/-- What is left of a queue after a step. -/
def ConnStep.consume {α : Type*} (queue : List α) : ConnStep → List α
  | .handle _ _ => queue.tail
  | _ => queue

/-- A queue after a message was put into it. -/
def post {α : Type*} (queue : List α) : Option α → List α
  | none => queue
  | some message => queue ++ [message]

namespace ConnSide

variable (s : ConnSide) (notify : Bool)

@[simp, grind =] theorem closeTCP_registered : (s.closeTCP notify).registered = false := by
  unfold closeTCP
  split
  · rfl
  · rename_i h
    exact Bool.eq_false_iff.mpr h

@[simp, grind =] theorem closeTCP_opener : (s.closeTCP notify).opener = s.opener := by
  unfold closeTCP
  split <;> rfl

@[simp, grind =] theorem closeTCP_acceptor : (s.closeTCP notify).acceptor = s.acceptor := by
  unfold closeTCP
  split <;> rfl

@[simp, grind =] theorem closeTCP_ready : (s.closeTCP notify).ready = s.ready := by
  unfold closeTCP
  split <;> rfl

@[simp, grind =] theorem closeTCP_pumping : (s.closeTCP notify).pumping = s.pumping := by
  unfold closeTCP
  split <;> rfl

@[simp, grind =] theorem closeTCP_closeHandled :
    (s.closeTCP notify).closeHandled = s.closeHandled := by
  unfold closeTCP
  split <;> rfl

@[simp, grind =] theorem closeTCP_false_notifying : (s.closeTCP false).notifying = s.notifying := by
  unfold closeTCP
  split <;> rfl

@[simp, grind =] theorem closeTCP_true_notifying :
    (s.closeTCP true).notifying = if s.registered then s.notifying + 1 else s.notifying := by
  unfold closeTCP
  split <;> rfl

/-- A node that did not open the flow has no channel for an answer. -/
theorem handleTCPStatus_of_idle (error : String) (h : s.opener = .idle) :
    s.handleTCPStatus error = s := by
  unfold handleTCPStatus
  rw [if_neg]
  rintro ⟨-, hopener, -⟩
  exact hopener h

variable {s}

theorem apply_takeReady_accepted (h : s.ready = some none) :
    s.apply .takeReady = { s with ready := none, opener := .established, pumping := true } := by
  simp only [apply, h]

theorem apply_takeReady_rejected {error : String} (h : s.ready = some (some error)) :
    s.apply .takeReady = { s.closeTCP false with ready := none, opener := .finished } := by
  simp only [apply, h]

theorem apply_dialed (h : s.registered = false) :
    s.apply .dialed = { s with registered := true, acceptor := .announcing } := by
  simp [apply, h]

end ConnSide

/-! ## Two nodes -/

/-- Both nodes and, for each of them, the messages on the way to it. -/
structure Nodes where
  conn : Side → Nat → ConnSide
  queue : Side → List (Nat × ConnMessage)

inductive NodesEvent
  | accept (X : Side) (connID : Nat)
  | step (X : Side) (connID : Nat) (e : ConnStep)

namespace Nodes

def start : Nodes where
  conn := fun _ _ => {}
  queue := fun _ => []

/-- The message to be handled next by a node, if it is about the given ID. -/
def next (queue : List (Nat × ConnMessage)) (connID : Nat) : Option ConnMessage :=
  match queue with
  | (id, message) :: _ => if id = connID then some message else none
  | [] => none

/-- A local connection gets an ID that neither node has given out before. -/
def enabled (N : Nodes) : NodesEvent → Prop
  | .accept _ connID => ∀ Y, (N.conn Y connID).opener = .idle
  | .step X connID e => (N.conn X connID).enabled (next (N.queue X) connID) e

def apply (N : Nodes) : NodesEvent → Nodes
  | .accept X connID =>
      { N with conn := fun Y id => if Y = X ∧ id = connID then .opening else N.conn Y id }
  | .step X connID e =>
      { conn := fun Y id =>
          if Y = X ∧ id = connID then (N.conn X connID).apply e else N.conn Y id
        queue := fun Y =>
          if Y = X then e.consume (N.queue X)
          else post (N.queue Y) ((ConnSide.sends e).map fun message => (connID, message)) }

/-- No message is in flight and no open is in progress. -/
structure Quiescent (N : Nodes) : Prop where
  delivered : ∀ X, N.queue X = []
  notified : ∀ X connID, (N.conn X connID).notifying = 0
  settled : ∀ X connID, (N.conn X connID).Settled

/-- The condition of the steps of a run. -/
def ClosesAfterOpen (N : Nodes) : NodesEvent → Prop
  | .accept _ _ => True
  | .step X connID e => (N.conn X connID).ClosesAfterOpen e

end Nodes

/-- The two nodes with messages delivered exactly once in sending order. -/
def nodesMachine : Machine Nodes NodesEvent where
  init N := N = Nodes.start
  enabled := Nodes.enabled
  apply := Nodes.apply

end UnknownTunnel.App

import UnknownTunnel.Foundation.Machine
import UnknownTunnel.Foundation.Table
import UnknownTunnel.Transport.Session

/-!
# The transport manager

The `Manager` keeps at most one session per carrier, replaces it when a newer
one is added, and runs for each session a goroutine that forwards what the
session receives. Critical sections of its mutex are single steps, and so is
every choice of a select.

## Implementation notes

A session is seen as the manager sees it: its receive queue, and whether its
done channel is ready. Messages are tagged with the session they came from,
and the messages that `Incoming` has handed out are kept as a history
variable, as are the messages put in a receive queue and how many of them
there were when the session finished.
-/

namespace UnknownTunnel.Transport

open Foundation

/-- The capacity of `recvCh` on either carrier. -/
def recvQueueLen : Nat := 256

/-- The capacity of `Manager.incoming`. -/
def incomingLen : Nat := 1024

/-! ## The choice of a carrier -/

/-- Which carriers are in use. -/
inductive Mode
  | tcp
  | udp
  | both
  deriving DecidableEq

/-- The part of the configuration that decides about carriers. -/
structure TransportConfig where
  mode : Mode
  prefer : Carrier
  deriving DecidableEq

/-- What a `Send` call finds on one carrier. -/
inductive SendOutcome
  | absent
  | failed
  | sent
  deriving DecidableEq

/-- The carriers `Send` tries. -/
def sendOrder (cfg : TransportConfig) : List Carrier :=
  match cfg.mode, cfg.prefer with
  | .both, .udp => [.udp, .tcp]
  | .both, .tcp => [.tcp, .udp]
  | _, prefer => [prefer]

/-- The carrier a message leaves on, if `Send` succeeds. -/
def sendPath (outcome : Carrier → SendOutcome) : List Carrier → Option Carrier
  | [] => none
  | kind :: rest =>
      match outcome kind with
      | .sent => some kind
      | .absent => sendPath outcome rest
      | .failed => sendPath outcome rest

/-- The carriers whose session `Send` removes on its way. -/
def sendRemoves (outcome : Carrier → SendOutcome) : List Carrier → List Carrier
  | [] => []
  | kind :: rest =>
      match outcome kind with
      | .sent => []
      | .absent => sendRemoves outcome rest
      | .failed => kind :: sendRemoves outcome rest

/-! ## Sessions and their forwarding goroutines -/

/-- The position of a forwarding goroutine. -/
inductive Forwarder
  /-- `addSession` is past its critical section, with the session it replaced. -/
  | starting (old : Option Nat)
  | selecting
  | holding (data : Bytes)
  /-- The done channel was chosen; about to call `removeSession`. -/
  | removing
  | exited
  /-- The manager's context was chosen; about to close the session. -/
  | closing
  /-- Ended, or never started, because the manager was closed. -/
  | stopped
  deriving DecidableEq

/-- A session that was added, with what its goroutine has taken from it. -/
structure ManagedSession where
  kind : Carrier
  queue : List Bytes
  finished : Bool
  forwarder : Forwarder
  put : List Bytes
  owed : Nat
  deriving DecidableEq

/-- The sessions, and the messages on their way to the application. -/
structure Manager where
  sessions : Table Carrier Nat
  objects : List ManagedSession
  incoming : List (Nat × Bytes)
  handedOut : List (Nat × Bytes)
  cancelled : Bool

/-- The steps of `addSession`, of the goroutines that forward messages, and of
`Close`. -/
inductive ManagerEvent
  /-- A session is added with what it has already received. -/
  | add (kind : Carrier) (queued : List Bytes) (finished : Bool)
  | start (i : Nat)
  | put (i : Nat) (data : Bytes)
  | finish (i : Nat)
  | takeData (i : Nat)
  | takeDone (i : Nat)
  | takeCancel (i : Nat)
  | forward (i : Nat)
  | abandon (i : Nat)
  | remove (i : Nat)
  | sendFailed (i : Nat)
  | closeSession (i : Nat)
  | consume
  | cancel
  | closeTable
  deriving DecidableEq

namespace ManagedSession

/-- The session finishes, once. -/
def finish (o : ManagedSession) : ManagedSession :=
  if o.finished then o else { o with finished := true, owed := o.put.length }

/-- The message the goroutine has taken and not yet forwarded. -/
def inHand (o : ManagedSession) : List Bytes :=
  match o.forwarder with
  | .holding data => [data]
  | _ => []

end ManagedSession

namespace Manager

def start : Manager := ⟨∅, [], [], [], false⟩

/-- The session `addSession` makes of a new one. -/
def newObject (M : Manager) (kind : Carrier) (queued : List Bytes) (finished : Bool) :
    ManagedSession where
  kind := kind
  queue := queued
  finished := finished || M.cancelled
  forwarder := if M.cancelled then .stopped else .starting (Finmap.lookup kind M.sessions)
  put := queued
  owed := if finished || M.cancelled then queued.length else 0

/-- The sessions a step closes. -/
def closes (M : Manager) (e : ManagerEvent) (j : Nat) (o : ManagedSession) : Bool :=
  match e with
  | .start i => match M.objects[i]? with
      | some p => decide (p.forwarder = .starting (some j)) && decide (i ≠ j)
      | none => false
  | .finish i | .remove i | .sendFailed i | .closeSession i => decide (i = j)
  | .closeTable => decide (Finmap.lookup o.kind M.sessions = some j)
  | _ => false

/-- What a step does to a session besides closing it. -/
def advance (e : ManagerEvent) (j : Nat) (o : ManagedSession) : ManagedSession :=
  match e with
  | .start i => if i = j then { o with forwarder := .selecting } else o
  | .put i data =>
      if i = j then { o with queue := o.queue ++ [data], put := o.put ++ [data] } else o
  | .takeData i =>
      if i = j then
        match o.queue with
        | data :: rest => { o with queue := rest, forwarder := .holding data }
        | [] => o
      else o
  | .takeDone i => if i = j then { o with forwarder := .removing } else o
  | .takeCancel i => if i = j then { o with forwarder := .closing } else o
  | .forward i => if i = j then { o with forwarder := .selecting } else o
  | .abandon i => if i = j then { o with forwarder := .stopped } else o
  | .remove i => if i = j then { o with forwarder := .exited } else o
  | .closeSession i => if i = j then { o with forwarder := .stopped } else o
  | _ => o

def objectAfter (M : Manager) (e : ManagerEvent) (j : Nat) (o : ManagedSession) :
    ManagedSession :=
  if M.closes e j o then (advance e j o).finish else advance e j o

/-- `removeSession`: the entry goes only if it is still this session's. -/
def removeEntry (M : Manager) (i : Nat) : Table Carrier Nat :=
  match M.objects[i]? with
  | some o =>
      if Finmap.lookup o.kind M.sessions = some i then M.sessions.erase o.kind else M.sessions
  | none => M.sessions

/-- The manager's own fields after a step. -/
def control (M : Manager) (e : ManagerEvent) : Manager :=
  match e with
  | .add kind queued finished =>
      { M with
        sessions := if M.cancelled then M.sessions
          else M.sessions.insert kind M.objects.length
        objects := M.objects ++ [M.newObject kind queued finished] }
  | .forward i => match M.objects[i]? with
      | some o => { M with incoming := M.incoming ++ o.inHand.map fun data => (i, data) }
      | none => M
  | .remove i | .sendFailed i => { M with sessions := M.removeEntry i }
  | .consume =>
      { M with incoming := M.incoming.tail, handedOut := M.handedOut ++ M.incoming.head?.toList }
  | .cancel => { M with cancelled := true }
  | .closeTable => { M with sessions := ∅ }
  | _ => M

def apply (M : Manager) (e : ManagerEvent) : Manager :=
  { M.control e with objects := (M.control e).objects.mapIdx (M.objectAfter e) }

/-- When a step can be taken. A select takes any of its ready branches. -/
def enabled (M : Manager) : ManagerEvent → Prop
  | .add _ queued _ => queued.length ≤ recvQueueLen
  | .start i => ∃ o old, M.objects[i]? = some o ∧ o.forwarder = .starting old
  | .put i _ => ∃ o, M.objects[i]? = some o ∧ o.queue.length < recvQueueLen
  | .finish i => i < M.objects.length
  | .takeData i => ∃ o, M.objects[i]? = some o ∧ o.forwarder = .selecting ∧ o.queue ≠ []
  | .takeDone i => ∃ o, M.objects[i]? = some o ∧ o.forwarder = .selecting ∧ o.finished = true
  | .takeCancel i => M.cancelled = true ∧ ∃ o, M.objects[i]? = some o ∧ o.forwarder = .selecting
  | .forward i => M.incoming.length < incomingLen ∧
      ∃ o data, M.objects[i]? = some o ∧ o.forwarder = .holding data
  | .abandon i =>
      M.cancelled = true ∧ ∃ o data, M.objects[i]? = some o ∧ o.forwarder = .holding data
  | .remove i => ∃ o, M.objects[i]? = some o ∧ o.forwarder = .removing
  | .sendFailed i => i < M.objects.length
  | .closeSession i => M.cancelled = true ∧ ∃ o, M.objects[i]? = some o ∧ o.forwarder = .closing
  | .consume => M.incoming ≠ []
  | .cancel => True
  | .closeTable => M.cancelled = true

/-- The messages of a session that have been put in `incoming`, in order. -/
def forwarded (M : Manager) (i : Nat) : List Bytes :=
  ((M.handedOut ++ M.incoming).filter fun m => m.1 = i).map Prod.snd

end Manager

/-- The goroutines of the manager in any interleaving. -/
def managerMachine : Machine Manager ManagerEvent where
  init := fun M => M = Manager.start
  enabled := Manager.enabled
  apply := Manager.apply

namespace Manager

variable {M : Manager} {e : ManagerEvent}

/-- Everything a step can do to a session besides closing it. -/
inductive Move (M : Manager) (e : ManagerEvent) (j : Nat) (o : ManagedSession) :
    ManagedSession → Prop
  | stay : Move M e j o o
  | started (old : Option Nat) (h : o.forwarder = .starting old) :
      Move M e j o { o with forwarder := .selecting }
  | put (data : Bytes) :
      Move M e j o { o with queue := o.queue ++ [data], put := o.put ++ [data] }
  | taken (data : Bytes) (rest : List Bytes) (h : o.forwarder = .selecting)
      (hq : o.queue = data :: rest) :
      Move M e j o { o with queue := rest, forwarder := .holding data }
  | done (he : e = .takeDone j) (h : o.forwarder = .selecting) (hf : o.finished = true) :
      Move M e j o { o with forwarder := .removing }
  | closing (h : M.cancelled = true) (hs : o.forwarder = .selecting) :
      Move M e j o { o with forwarder := .closing }
  | stopped (h : M.cancelled = true) : Move M e j o { o with forwarder := .stopped }
  | forwarded (data : Bytes) (he : e = .forward j) (h : o.forwarder = .holding data) :
      Move M e j o { o with forwarder := .selecting }
  | removed (h : o.forwarder = .removing) : Move M e j o { o with forwarder := .exited }

/-- A step about one session leaves the others as they are. -/
theorem Move.of_target {i j : Nat} {o p : ManagedSession} (h : i = j → Move M e j o p) :
    Move M e j o (if i = j then p else o) := by
  split
  · exact h ‹_›
  · exact .stay

theorem advance_move (he : M.enabled e) {j : Nat} {o : ManagedSession}
    (ho : M.objects[j]? = some o) : Move M e j o (advance e j o) := by
  have hsame : ∀ {p}, M.objects[j]? = some p → p = o := fun hp =>
    Option.some.inj (hp.symm.trans ho)
  cases e with
  | start i =>
      refine .of_target fun hij => ?_
      subst hij
      obtain ⟨p, old, hp, h⟩ := he
      cases hsame hp
      exact .started old h
  | put i data => exact .of_target fun _ => .put data
  | takeData i =>
      refine .of_target fun hij => ?_
      subst hij
      obtain ⟨p, hp, h, hq⟩ := he
      cases hsame hp
      obtain ⟨data, rest, hq⟩ := List.exists_cons_of_ne_nil hq
      simp only [hq]
      exact .taken data rest h hq
  | takeDone i =>
      refine .of_target fun hij => ?_
      subst hij
      obtain ⟨p, hp, h, hf⟩ := he
      cases hsame hp
      exact .done rfl h hf
  | takeCancel i =>
      refine .of_target fun hij => ?_
      subst hij
      obtain ⟨hc, p, hp, h⟩ := he
      cases hsame hp
      exact .closing hc h
  | forward i =>
      refine .of_target fun hij => ?_
      subst hij
      obtain ⟨-, p, data, hp, h⟩ := he
      cases hsame hp
      exact .forwarded data rfl h
  | abandon i => exact .of_target fun _ => .stopped he.1
  | remove i =>
      refine .of_target fun hij => ?_
      subst hij
      obtain ⟨p, hp, h⟩ := he
      cases hsame hp
      exact .removed h
  | closeSession i => exact .of_target fun _ => .stopped he.1
  | _ => exact .stay

/-- A property of single sessions that every move and `Close` preserve. -/
theorem objectAfter_induction (he : M.enabled e) {j : Nat} {o : ManagedSession}
    (ho : M.objects[j]? = some o) {motive : ManagedSession → Prop}
    (move : ∀ p, Move M e j o p → motive p) (finish : ∀ p, motive p → motive p.finish) :
    motive (M.objectAfter e j o) := by
  have hmove := move _ (advance_move he ho)
  rw [objectAfter]
  split
  · exact finish _ hmove
  · exact hmove

theorem objects_control (M : Manager) (e : ManagerEvent) :
    (M.control e).objects = M.objects ∨
    ∃ kind queued finished, e = .add kind queued finished ∧
      (M.control e).objects = M.objects ++ [M.newObject kind queued finished] := by
  cases e with
  | add kind queued finished => exact Or.inr ⟨kind, queued, finished, rfl, rfl⟩
  | forward i =>
      left
      simp only [control]
      split <;> rfl
  | _ => exact Or.inl rfl

/-- A session after a step is one that was there, moved on, or a new one. -/
theorem object_apply {j : Nat} {o' : ManagedSession} (h : (M.apply e).objects[j]? = some o') :
    (∃ o, M.objects[j]? = some o ∧ o' = M.objectAfter e j o) ∨
    (j = M.objects.length ∧ ∃ kind queued finished, e = .add kind queued finished ∧
      o' = M.newObject kind queued finished) := by
  simp only [apply, List.getElem?_mapIdx, Option.map_eq_some_iff] at h
  obtain ⟨o, ho, rfl⟩ := h
  rcases objects_control M e with hc | ⟨kind, queued, finished, rfl, hc⟩
  · rw [hc] at ho
    exact Or.inl ⟨o, ho, rfl⟩
  · rw [hc, List.getElem?_append] at ho
    split at ho
    · exact Or.inl ⟨o, ho, rfl⟩
    · obtain ⟨hlt, hval⟩ := List.getElem?_eq_some_iff.mp ho
      rw [List.length_singleton] at hlt
      refine Or.inr ⟨by omega, kind, queued, finished, rfl, ?_⟩
      rw [List.getElem_singleton] at hval
      rw [← hval]
      rfl

theorem cancelled_apply (M : Manager) (e : ManagerEvent) :
    (M.apply e).cancelled = true ↔ M.cancelled = true ∨ e = .cancel := by
  cases e with
  | forward i =>
      simp only [apply, control]
      split <;> simp
  | _ => simp [apply, control]

end Manager

end UnknownTunnel.Transport

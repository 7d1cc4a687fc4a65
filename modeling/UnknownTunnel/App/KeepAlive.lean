import UnknownTunnel.Transport.Manager
import UnknownTunnel.Transport.UdpLink

/-!
# Heartbeats and the read deadline of a TCP session

`maintenanceLoop` sends a ping every ten seconds, and `readLoop` of a TCP session
gives up if it reads no frame for `tcpReadIdle`. A ping leaves on the carrier that
`Send` of the manager chooses. An idle session whose carrier is chosen lives on; in
mode `both` the standby session gets nothing to read as long as the preferred
carrier works, and does not outlive the deadline.

## Implementation notes

The times of both nodes are one clock in nanoseconds. A tick, and a deadline that
has passed, are noticed within `delay`, and a frame is read within `latency` of its
sending; these bounds are part of what a run is. A run begins when both managers have
the session, at most `delay` after its two readers last set their deadlines. What else
the nodes send, pongs among it, are sends at any time. Of the ends a session can have,
a send that fails and a deadline that passes are steps; what a connection or a peer
that fails does to a reader is left out.
-/

namespace UnknownTunnel.App

open Foundation Transport

/-- The period of the heartbeat in `maintenanceLoop`. -/
def heartbeatPeriod : Nat := 10 * 1000000000

/-- 45 seconds, in nanoseconds. -/
def tcpReadIdle : Nat := 45 * 1000000000

/-- A TCP session with the heartbeats of its two nodes. -/
@[ext]
structure KeepAlive where
  now : Nat
  /-- When `readLoop` of a side had last set its deadline as the run began. -/
  since : Side → Nat
  closed : Bool
  lastTick : Side → Nat
  /-- The frames a side has sent that its peer has not read, oldest first, by the
  times at which they were sent. -/
  underway : Side → List Nat
  /-- When `readLoop` of a side last set its deadline. -/
  armed : Side → Nat

/-- What happens on the TCP connection of the two nodes. -/
inductive KeepAliveStep
  | heartbeat (side : Side) (outcome : Carrier → SendOutcome)
  | send (side : Side) (outcome : Carrier → SendOutcome)
  | read (side : Side)
  | expire (side : Side)

structure KeepAliveEvent where
  step : KeepAliveStep
  time : Nat

namespace KeepAlive

variable (cfg : Side → TransportConfig) (delay latency : Nat)

/-- `Send` of the manager: the message leaves on a carrier, and a carrier that
fails before that is removed and closed. -/
def send (S : KeepAlive) (side : Side) (outcome : Carrier → SendOutcome) (time : Nat) :
    KeepAlive where
  now := S.now
  since := S.since
  closed := S.closed || decide (Carrier.tcp ∈ sendRemoves outcome (sendOrder (cfg side)))
  lastTick := S.lastTick
  underway :=
    if sendPath outcome (sendOrder (cfg side)) = some .tcp then
      Function.update S.underway side (S.underway side ++ [time])
    else S.underway
  armed := S.armed

def after (S : KeepAlive) (time : Nat) : KeepAliveStep → KeepAlive
  | .heartbeat side outcome =>
      { S.send cfg side outcome time with lastTick := Function.update S.lastTick side time }
  | .send side outcome => S.send cfg side outcome time
  | .read side =>
      { S with
        underway := Function.update S.underway side.peer (S.underway side.peer).tail
        armed := Function.update S.armed side time }
  | .expire _ => { S with closed := true }

def apply (S : KeepAlive) (e : KeepAliveEvent) : KeepAlive :=
  { S.after cfg e.time e.step with now := e.time }

/-- Nothing that should have happened by a time is missing. -/
def Timely (S : KeepAlive) (time : Nat) : Prop :=
  ∀ side, time ≤ S.lastTick side + heartbeatPeriod + delay ∧
    (∀ sent ∈ S.underway side, time ≤ sent + latency) ∧
    time ≤ S.armed side + tcpReadIdle + delay

def ready (S : KeepAlive) (time : Nat) : KeepAliveStep → Prop
  | .heartbeat _ outcome | .send _ outcome => outcome .tcp = .sent → S.closed = false
  | .read side => S.closed = false ∧ S.underway side.peer ≠ []
  | .expire side => S.closed = false ∧ S.armed side + tcpReadIdle ≤ time

def enabled (S : KeepAlive) (e : KeepAliveEvent) : Prop :=
  S.now ≤ e.time ∧ (S.closed = false → S.Timely delay latency e.time) ∧ S.ready e.time e.step

end KeepAlive

/-- Both nodes under one clock, with bounds on the lateness of a tick and on the way
of a frame. -/
def keepAliveMachine (cfg : Side → TransportConfig) (delay latency : Nat) :
    Machine KeepAlive KeepAliveEvent where
  init S := S.closed = false ∧ ∀ side,
    S.armed side = S.since side ∧ S.since side ≤ S.now ∧ S.now ≤ S.since side + delay ∧
      S.underway side = [] ∧ S.lastTick side ≤ S.now
  enabled := KeepAlive.enabled delay latency
  apply := KeepAlive.apply cfg

/-! ## Which carrier takes a message -/

/-- The preferred carrier takes every message that it can take. -/
theorem sendPath_preferred {outcome : Carrier → SendOutcome} {cfg : TransportConfig}
    (h : outcome cfg.prefer = .sent) :
    sendPath outcome (sendOrder cfg) = some cfg.prefer ∧
      sendRemoves outcome (sendOrder cfg) = [] := by
  obtain ⟨mode, prefer⟩ := cfg
  cases mode <;> cases prefer <;> simp_all [sendOrder, sendPath, sendRemoves]

/-- The session of a carrier takes every message. -/
def KeepAliveStep.TakenBy (kind : Carrier) : KeepAliveStep → Prop
  | .heartbeat _ outcome | .send _ outcome => outcome kind = .sent
  | .read _ | .expire _ => True

/-! ## A session that carries the heartbeats -/

namespace KeepAlive

variable {cfg : Side → TransportConfig} {delay latency : Nat} {S : KeepAlive} {time : Nat}

/-- What is read next, or sent next, comes in time. -/
structure Fed (delay : Nat) (S : KeepAlive) : Prop where
  closed : S.closed = false
  tick : ∀ side, S.lastTick side ≤ S.now
  past : ∀ side, ∀ sent ∈ S.underway side, sent ≤ S.now
  /-- If nothing is under way, the last heartbeat has been read, or came before the
  session. -/
  idle : ∀ side, S.underway side = [] → S.lastTick side ≤ S.armed side.peer + delay
  next : ∀ side, ∀ sent ∈ (S.underway side).head?,
    sent ≤ S.armed side.peer + heartbeatPeriod + 2 * delay

/-- No deadline passes before something is read. -/
theorem Fed.time_lt (h : S.Fed delay)
    (hbudget : heartbeatPeriod + 2 * delay + latency < tcpReadIdle)
    (htimely : S.Timely delay latency time) (side : Side) : time < S.armed side + tcpReadIdle := by
  obtain ⟨htick, hframes, -⟩ := htimely side.peer
  cases hunderway : S.underway side.peer with
  | nil =>
      have hread := h.idle side.peer hunderway
      rw [Side.peer_peer] at hread
      omega
  | cons sent rest =>
      have hsent := h.next side.peer sent (by rw [hunderway]; rfl)
      have harrives := hframes sent (by rw [hunderway]; exact List.mem_cons_self)
      rw [Side.peer_peer] at hsent
      omega

theorem send_preferred {side : Side} {kind : Carrier} {outcome : Carrier → SendOutcome}
    (hprefer : (cfg side).prefer = kind) (h : outcome kind = .sent) :
    S.send cfg side outcome time =
      { S with underway :=
          if kind = .tcp then Function.update S.underway side (S.underway side ++ [time])
          else S.underway } := by
  subst hprefer
  obtain ⟨hpath, hremoves⟩ := sendPath_preferred h
  simp only [send, hpath, hremoves, Option.some.injEq, List.not_mem_nil, decide_false,
    Bool.or_false]

/-- A frame goes under way, with a heartbeat or not. -/
theorem Fed.send (h : S.Fed delay) (hnow : S.now ≤ time)
    (htimely : S.Timely delay latency time) (side : Side) {tick : Side → Nat}
    (htick : tick = S.lastTick ∨ tick = Function.update S.lastTick side time) :
    Fed delay { S with
      underway := Function.update S.underway side (S.underway side ++ [time])
      lastTick := tick
      now := time } where
  closed := h.closed
  tick := by
    intro other
    have hold := h.tick other
    rcases htick with rfl | rfl
    · exact hold.trans hnow
    · by_cases hside : other = side
      · subst hside
        simp
      · simp only [Function.update_of_ne hside]
        exact hold.trans hnow
  past := by
    intro other sent hsent
    by_cases hside : other = side
    · subst hside
      simp only [Function.update_self, List.mem_append, List.mem_singleton] at hsent
      rcases hsent with hsent | rfl
      · exact (h.past _ sent hsent).trans hnow
      · exact le_rfl
    · simp only [Function.update_of_ne hside] at hsent
      exact (h.past other sent hsent).trans hnow
  idle := by
    intro other hnil
    by_cases hside : other = side
    · subst hside
      simp at hnil
    · simp only [Function.update_of_ne hside] at hnil
      have hold := h.idle other hnil
      rcases htick with rfl | rfl
      · exact hold
      · simp only [Function.update_of_ne hside]
        exact hold
  next := by
    intro other sent hsent
    by_cases hside : other = side
    · subst hside
      simp only [Function.update_self] at hsent
      cases hunderway : S.underway other with
      | nil =>
          rw [hunderway] at hsent
          obtain rfl := Option.some.inj hsent
          have hread := h.idle other hunderway
          have hdue := (htimely other).1
          calc time ≤ S.lastTick other + heartbeatPeriod + delay := hdue
            _ ≤ S.armed other.peer + delay + heartbeatPeriod + delay := by gcongr
            _ = S.armed other.peer + heartbeatPeriod + 2 * delay := by ring
      | cons first rest =>
          rw [hunderway] at hsent
          exact h.next other sent (by rw [hunderway]; exact hsent)
    · simp only [Function.update_of_ne hside] at hsent
      exact h.next other sent hsent

theorem peer_ne_of_ne {side other : Side} (h : other ≠ side.peer) : other.peer ≠ side := by
  rintro rfl
  exact h (Side.peer_peer other).symm

/-- A frame is read: what is read next was sent before the new deadline was set. -/
theorem Fed.read (h : S.Fed delay) (hnow : S.now ≤ time) (side : Side) :
    Fed delay { S with
      underway := Function.update S.underway side.peer (S.underway side.peer).tail
      armed := Function.update S.armed side time
      now := time } where
  closed := h.closed
  tick := fun other => (h.tick other).trans hnow
  past := by
    intro other sent hsent
    by_cases hside : other = side.peer
    · subst hside
      simp only [Function.update_self] at hsent
      exact (h.past _ sent (List.mem_of_mem_tail hsent)).trans hnow
    · simp only [Function.update_of_ne hside] at hsent
      exact (h.past other sent hsent).trans hnow
  idle := by
    intro other hnil
    by_cases hside : other = side.peer
    · subst hside
      simp only [Side.peer_peer, Function.update_self]
      exact ((h.tick _).trans hnow).trans (Nat.le_add_right _ _)
    · have hother := peer_ne_of_ne hside
      simp only [Function.update_of_ne hside] at hnil
      simp only [Function.update_of_ne hother]
      exact h.idle other hnil
  next := by
    intro other sent hsent
    by_cases hside : other = side.peer
    · subst hside
      simp only [Function.update_self] at hsent
      have hpast := h.past _ sent (List.mem_of_mem_tail (List.mem_of_mem_head? hsent))
      simp only [Side.peer_peer, Function.update_self]
      omega
    · have hother := peer_ne_of_ne hside
      simp only [Function.update_of_ne hside] at hsent
      simp only [Function.update_of_ne hother]
      exact h.next other sent hsent

theorem Fed.apply (h : S.Fed delay)
    (hbudget : heartbeatPeriod + 2 * delay + latency < tcpReadIdle)
    (hprefer : ∀ side, (cfg side).prefer = .tcp) {e : KeepAliveEvent}
    (he : S.enabled delay latency e) (hok : e.step.TakenBy .tcp) :
    (S.apply cfg e).Fed delay := by
  obtain ⟨step, time⟩ := e
  obtain ⟨hnow, htimely, hready⟩ := he
  have htimely := htimely h.closed
  cases step with
  | heartbeat side outcome =>
      simp only [KeepAlive.apply, after, send_preferred (hprefer side) hok, if_true]
      exact h.send hnow htimely side (Or.inr rfl)
  | send side outcome =>
      simp only [KeepAlive.apply, after, send_preferred (hprefer side) hok, if_true]
      exact h.send hnow htimely side (Or.inl rfl)
  | read side => exact h.read hnow side
  | expire side =>
      have hlt := h.time_lt hbudget htimely side
      exact absurd hready.2 (Nat.not_le.mpr hlt)

end KeepAlive

/-- A session at whose ends nothing is left to read, after some rounds of heartbeats. -/
def KeepAlive.rested (rounds armed : Nat) : KeepAlive where
  now := rounds * heartbeatPeriod
  since _ := 0
  closed := false
  lastTick _ := rounds * heartbeatPeriod
  underway _ := []
  armed _ := armed

/-- Within a round the heartbeats are sent and read without delay. -/
theorem KeepAlive.timely_of_round {S : KeepAlive} {last time : Nat}
    (htime : time = last + heartbeatPeriod)
    (htick : ∀ side, S.lastTick side = last ∨ S.lastTick side = time)
    (hunderway : ∀ side, S.underway side = [] ∨ S.underway side = [time])
    (harmed : ∀ side, time ≤ S.armed side + tcpReadIdle) : S.Timely 0 0 time := by
  intro side
  refine ⟨?_, ?_, harmed side⟩
  · rcases htick side with h | h <;> omega
  · intro sent hsent
    rcases hunderway side with h | h
    · rw [h] at hsent
      cases hsent
    · rw [h, List.mem_singleton] at hsent
      omega

namespace KeepAlive

variable {cfg : Side → TransportConfig} {delay latency : Nat} {S : KeepAlive}

/-- Nothing has been sent on the session. -/
structure Starved (delay : Nat) (S : KeepAlive) : Prop where
  underway : ∀ side, S.underway side = []
  armed : ∀ side, S.armed side = S.since side
  bounded : S.closed = false → ∀ side, S.now ≤ S.since side + tcpReadIdle + delay

theorem Starved.apply (h : S.Starved delay) (hprefer : ∀ side, (cfg side).prefer = .udp)
    {e : KeepAliveEvent} (he : S.enabled delay latency e) (hok : e.step.TakenBy .udp) :
    (S.apply cfg e).Starved delay := by
  obtain ⟨step, time⟩ := e
  obtain ⟨hnow, htimely, hready⟩ := he
  have hbounded : S.closed = false → ∀ side, time ≤ S.since side + tcpReadIdle + delay := by
    intro hopen side
    have hdeadline := (htimely hopen side).2.2
    rw [h.armed side] at hdeadline
    exact hdeadline
  cases step with
  | heartbeat side outcome =>
      simp only [KeepAlive.apply, after, send_preferred (hprefer side) hok, reduceCtorEq, if_false]
      exact ⟨h.underway, h.armed, hbounded⟩
  | send side outcome =>
      simp only [KeepAlive.apply, after, send_preferred (hprefer side) hok, reduceCtorEq, if_false]
      exact ⟨h.underway, h.armed, hbounded⟩
  | read side => exact absurd (h.underway side.peer) hready.2
  | expire side => exact ⟨h.underway, h.armed, fun hopen => by cases hopen⟩

end KeepAlive

/-- If both nodes prefer UDP and no send on UDP fails, nothing is ever under way on the
TCP session that `both` keeps in reserve, and the session does not outlive either
first read deadline, although the heartbeats go on. -/
theorem tcp_standby_expires (cfg : Side → TransportConfig) (delay latency : Nat)
    (hprefer : ∀ side, (cfg side).prefer = .udp) (S : KeepAlive)
    (run : (keepAliveMachine cfg delay latency).ReachableUnder
      (fun _ e => e.step.TakenBy .udp) S) :
    (∀ side, S.underway side = [] ∧ S.armed side = S.since side) ∧
      (S.closed = false → ∀ side, S.now ≤ S.since side + tcpReadIdle + delay) := by
  have h : S.Starved delay := by
    refine run.invariant (J := fun _ => True) (fun _ _ => trivial) ?_ ?_
    · rintro S ⟨hopen, hstart⟩
      refine ⟨fun side => (hstart side).2.2.2.1, fun side => (hstart side).1, fun _ side => ?_⟩
      obtain ⟨-, -, hnow, -, -⟩ := hstart side
      omega
    · intro S e _ h he hok
      exact h.apply hprefer he hok
  exact ⟨fun side => ⟨h.underway side, h.armed side⟩, h.bounded⟩

/-- The heartbeats leave on UDP, and the readers of the TCP session wait. -/
theorem KeepAlive.rested_reachable_standby (rounds : Nat)
    (hrounds : rounds * heartbeatPeriod ≤ tcpReadIdle) :
    (keepAliveMachine (fun _ => ⟨.both, .udp⟩) 0 0).ReachableUnder
      (fun _ e => e.step.TakenBy .udp) (rested rounds 0) := by
  induction rounds with
  | zero =>
      have hzero := Nat.zero_mul heartbeatPeriod
      exact .start ⟨rfl, fun _ => ⟨rfl, Nat.zero_le _, hzero.le, rfl, le_rfl⟩⟩
  | succ rounds ih =>
      have hround := Nat.succ_mul rounds heartbeatPeriod
      have hpast := Nat.mul_le_mul_right heartbeatPeriod (Nat.le_succ rounds)
      have harmed : (rounds + 1) * heartbeatPeriod ≤ 0 + tcpReadIdle := by
        rw [Nat.zero_add]
        exact hrounds
      have hclient := (ih (hpast.trans hrounds)).to
        ⟨.heartbeat .client fun _ => .sent, (rounds + 1) * heartbeatPeriod⟩
        ⟨hpast, fun _ => timely_of_round hround (fun _ => .inl rfl) (fun _ => .inl rfl)
          (fun _ => harmed), fun _ => rfl⟩ rfl rfl
      refine hclient.to ⟨.heartbeat .server fun _ => .sent, (rounds + 1) * heartbeatPeriod⟩
        ⟨le_rfl, fun _ => timely_of_round hround
          (fun | .client => .inr rfl | .server => .inl rfl) (fun _ => .inl rfl)
          (fun _ => harmed), fun _ => rfl⟩ rfl ?_
      refine KeepAlive.ext rfl rfl rfl ?_ ?_ ?_ <;>
        · funext side
          cases side <;> rfl

theorem tcp_standby_expires_unread :
    (KeepAlive.rested 4 0).enabled 0 0 ⟨.expire .client, tcpReadIdle⟩ ∧
      ((KeepAlive.rested 4 0).closed = false →
        ∀ side, (KeepAlive.rested 4 0).now ≤
          (KeepAlive.rested 4 0).since side + tcpReadIdle + 0) := by
  have htimely : (KeepAlive.rested 4 0).Timely 0 0 tcpReadIdle := by
    have hdue : tcpReadIdle ≤ 4 * heartbeatPeriod + heartbeatPeriod + 0 := by decide
    have hdeadline : tcpReadIdle ≤ 0 + tcpReadIdle + 0 := by decide
    intro side
    refine ⟨hdue, ?_, hdeadline⟩
    intro sent hsent
    cases hsent
  have hnow : 4 * heartbeatPeriod ≤ tcpReadIdle := by decide
  have hpassed : 0 + tcpReadIdle ≤ tcpReadIdle := by decide
  refine ⟨⟨hnow, fun _ => htimely, rfl, hpassed⟩, ?_⟩
  exact (tcp_standby_expires (fun _ => ⟨.both, .udp⟩) 0 0 (fun _ => rfl) _
    (KeepAlive.rested_reachable_standby 4 (by decide))).2

end UnknownTunnel.App

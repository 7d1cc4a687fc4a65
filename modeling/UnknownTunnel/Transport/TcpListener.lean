import UnknownTunnel.Foundation.Crew
import UnknownTunnel.Foundation.Progress

/-!
# The listener of the TCP transport

The server's loop accepts connections and starts a goroutine for each one, as
long as one of `maxConcurrentTCPHandshakes` slots is free; a connection that
finds none is closed. The goroutine runs the handshake, passes the session on or
closes the connection, and gives its slot back. The loop and the goroutines are
counted in the wait group that `Close` waits for.

## Implementation notes

The deferred calls of a goroutine are steps of their own. What `acceptTCPSession`
does, and how it ends, is a choice of the step. The connections that the listener
closed and those whose session was passed to `addSession` are histories; that
`acceptTCPSession` closes the connection itself when the confirmation of the
session fails, before the listener does so again, is not in them.
-/

namespace UnknownTunnel.Transport

open Foundation

def maxConcurrentTCPHandshakes : Nat := 128

/-- Where the loop stands. -/
inductive ListenerStage
  | accepting
  /-- At the select on the slots, with the connection it has accepted. -/
  | choosing (conn : Nat)
  | returned
  deriving DecidableEq

/-- Where the goroutine of a connection stands. -/
inductive HandlerStage
  /-- The loop has not decided about the connection. -/
  | accepted
  /-- Closed by the loop; there is no goroutine. -/
  | turnedAway
  /-- In `acceptTCPSession`. -/
  | shaking
  | rejecting
  | adding
  /-- About to give the slot back. -/
  | releasing
  /-- About to leave the wait group. -/
  | leaving
  | finished
  deriving DecidableEq

/-- The loop, the goroutines of its connections, and what they share. -/
structure TcpListener where
  cancelled : Bool
  listening : Bool
  stage : ListenerStage
  conns : List HandlerStage
  handshakeSlots : Nat
  wg : Nat
  closed : List Nat
  passed : List Nat

/-- The steps of the loop, of the goroutines and of `Close`. -/
inductive ListenerEvent
  | accept
  | acceptError
  | choose
  | handshake (conn : Nat) (ok : Bool)
  | closeConn (conn : Nat)
  | addSession (conn : Nat)
  | release (conn : Nat)
  | done (conn : Nat)
  | cancel
  | closeListener
  deriving DecidableEq

/-- The steps of the loop and of the goroutines. -/
def ListenerEvent.ofListener : ListenerEvent → Bool
  | .cancel | .closeListener => false
  | _ => true

namespace TcpListener

/-- `startTCPListener` has counted the loop. -/
def start : TcpListener where
  cancelled := false
  listening := true
  stage := .accepting
  conns := []
  handshakeSlots := 0
  wg := 1
  closed := []
  passed := []

/-- The goroutine of a connection goes on to a stage. -/
def go (L : TcpListener) (conn : Nat) (stage : HandlerStage) : TcpListener :=
  { L with conns := L.conns.set conn stage }

/-- The select on the slots. -/
def choose (L : TcpListener) (conn : Nat) : TcpListener :=
  if L.handshakeSlots < maxConcurrentTCPHandshakes then
    { L.go conn .shaking with
      stage := .accepting
      handshakeSlots := L.handshakeSlots + 1
      wg := L.wg + 1 }
  else
    { L.go conn .turnedAway with stage := .accepting, closed := conn :: L.closed }

def apply (L : TcpListener) : ListenerEvent → TcpListener
  | .accept => { L with stage := .choosing L.conns.length, conns := L.conns ++ [.accepted] }
  | .acceptError => if L.cancelled then { L with stage := .returned, wg := L.wg - 1 } else L
  | .choose => match L.stage with
      | .choosing conn => L.choose conn
      | _ => L
  | .handshake conn ok => L.go conn (if ok then .adding else .rejecting)
  | .closeConn conn => { L.go conn .releasing with closed := conn :: L.closed }
  | .addSession conn => { L.go conn .releasing with passed := conn :: L.passed }
  | .release conn => { L.go conn .leaving with handshakeSlots := L.handshakeSlots - 1 }
  | .done conn => { L.go conn .finished with wg := L.wg - 1 }
  | .cancel => { L with cancelled := true }
  | .closeListener => { L with listening := false }

/-- When a step can be taken. `Close` cancels the context before it closes the
listener. -/
def enabled (L : TcpListener) : ListenerEvent → Prop
  | .accept => L.stage = .accepting ∧ L.listening = true
  | .acceptError => L.stage = .accepting
  | .choose => ∃ conn, L.stage = .choosing conn
  | .handshake conn _ => L.conns[conn]? = some .shaking
  | .closeConn conn => L.conns[conn]? = some .rejecting
  | .addSession conn => L.conns[conn]? = some .adding
  | .release conn => L.conns[conn]? = some .releasing
  | .done conn => L.conns[conn]? = some .leaving
  | .cancel => True
  | .closeListener => L.cancelled = true

end TcpListener

/-- The loop and its goroutines in any interleaving. -/
def listenerMachine : Machine TcpListener ListenerEvent where
  init := fun L => L = TcpListener.start
  enabled := TcpListener.enabled
  apply := TcpListener.apply

/-! ## What the goroutines hold -/

namespace HandlerStage

/-- The goroutine has a slot. -/
def slot : HandlerStage → Nat
  | .shaking | .rejecting | .adding | .releasing => 1
  | _ => 0

/-- The goroutine is counted in the wait group. -/
def running : HandlerStage → Nat
  | .shaking | .rejecting | .adding | .releasing | .leaving => 1
  | _ => 0

/-- The connection was closed or passed on. -/
def settled : HandlerStage → Bool
  | .accepted | .shaking | .rejecting | .adding => false
  | _ => true

/-- How many steps the goroutine still takes. -/
def left : HandlerStage → Nat
  | .shaking => 4
  | .rejecting | .adding => 3
  | .releasing => 2
  | .leaving => 1
  | _ => 0

theorem slot_le_running (stage : HandlerStage) : stage.slot ≤ stage.running := by
  cases stage <;> decide

theorem settled_of_running (stage : HandlerStage) (h : stage.running = 0)
    (hne : stage ≠ .accepted) : stage.settled = true := by
  cases stage <;> first | rfl | contradiction

end HandlerStage

/-- Whether the loop is counted in the wait group. -/
def ListenerStage.running : ListenerStage → Nat
  | .returned => 0
  | _ => 1

/-- How many steps the loop and the goroutine of a connection at the select can
still take when the listener is closed. -/
def ListenerStage.left : ListenerStage → Nat
  | .accepting => 1
  | .choosing _ => 6
  | .returned => 0

namespace TcpListener

variable {L : TcpListener} {e : ListenerEvent}

/-- Slots and wait group count what is held, the connection without a decision
is the one at the select, and a connection is settled once. -/
structure Balanced (L : TcpListener) : Prop where
  slots : L.handshakeSlots = (L.conns.map HandlerStage.slot).sum
  limit : L.handshakeSlots ≤ maxConcurrentTCPHandshakes
  wg : L.wg = L.stage.running + (L.conns.map HandlerStage.running).sum
  undecided : ∀ i, L.conns[i]? = some .accepted ↔ L.stage = .choosing i
  settled : ∀ i stage, L.conns[i]? = some stage →
    (i ∈ L.closed ++ L.passed ↔ stage.settled = true)
  once : (L.closed ++ L.passed).Nodup
  known : ∀ i ∈ L.closed ++ L.passed, i < L.conns.length

namespace Balanced

/-- One goroutine, or the loop for one connection, moves on. -/
theorem move (h : L.Balanced) {L' : TcpListener} {conn : Nat} {old new : HandlerStage}
    (hold : L.conns[conn]? = some old) (hconns : L'.conns = L.conns.set conn new)
    (hslots : L'.handshakeSlots + old.slot = L.handshakeSlots + new.slot)
    (hlimit : L'.handshakeSlots ≤ maxConcurrentTCPHandshakes)
    (hwg : L'.wg + (L.stage.running + old.running) =
      L.wg + (L'.stage.running + new.running))
    (hstage : ∀ i, L'.stage = .choosing i ↔ L.stage = .choosing i ∧ i ≠ conn)
    (hnew : new ≠ .accepted)
    (hsettled : L'.closed ++ L'.passed = L.closed ++ L.passed ∧ new.settled = old.settled ∨
      (L'.closed ++ L'.passed).Perm (conn :: (L.closed ++ L.passed)) ∧
        old.settled = false ∧ new.settled = true) : L'.Balanced := by
  have hheld := Crew.sum_set HandlerStage.slot hold new
  have hrunning := Crew.sum_set HandlerStage.running hold new
  have hlt : conn < L.conns.length := (List.getElem?_eq_some_iff.mp hold).1
  have hsum := h.slots
  have hcount := h.wg
  rw [← hconns] at hheld hrunning
  refine ⟨by omega, hlimit, by omega, ?_, ?_, ?_, ?_⟩
  · intro i
    rw [hconns, hstage i]
    by_cases hi : i = conn
    · subst hi
      simp [List.getElem?_set_self hlt, hnew]
    · rw [List.getElem?_set_ne (Ne.symm hi), h.undecided i]
      simp [hi]
  · intro i stage hi
    rw [hconns] at hi
    obtain ⟨rfl, rfl⟩ | ⟨hne, hi⟩ := Crew.getElem?_set hi
    · obtain ⟨hsame, hkeeps⟩ | ⟨hperm, -, hnow⟩ := hsettled
      · rw [hsame, hkeeps]
        exact h.settled _ _ hold
      · simp [hperm.mem_iff, hnow]
    · obtain ⟨hsame, -⟩ | ⟨hperm, -⟩ := hsettled
      · rw [hsame]
        exact h.settled i stage hi
      · rw [hperm.mem_iff, List.mem_cons, or_iff_right hne]
        exact h.settled i stage hi
  · obtain ⟨hsame, -⟩ | ⟨hperm, hbefore, -⟩ := hsettled
    · rw [hsame]
      exact h.once
    · refine hperm.nodup_iff.mpr (List.nodup_cons.mpr ⟨?_, h.once⟩)
      intro hmem
      have htrue := (h.settled conn old hold).mp hmem
      exact absurd (htrue.symm.trans hbefore) (by decide)
  · intro i hi
    rw [hconns, List.length_set]
    obtain ⟨hsame, -⟩ | ⟨hperm, -⟩ := hsettled
    · rw [hsame] at hi
      exact h.known i hi
    · obtain rfl | hi := List.mem_cons.mp (hperm.mem_iff.mp hi)
      · exact hlt
      · exact h.known i hi

/-- The loop is not at the select with a connection that has a goroutine. -/
theorem not_choosing (h : L.Balanced) {conn : Nat} {old : HandlerStage}
    (hold : L.conns[conn]? = some old) (hne : old ≠ .accepted) (i : Nat) :
    L.stage = .choosing i ↔ L.stage = .choosing i ∧ i ≠ conn := by
  refine ⟨fun hi => ⟨hi, ?_⟩, And.left⟩
  rintro rfl
  exact hne (Option.some.inj (hold.symm.trans ((h.undecided i).mpr hi)))

theorem choose (h : L.Balanced) {conn : Nat} (hstage : L.stage = .choosing conn) :
    (L.choose conn).Balanced := by
  have hold := (h.undecided conn).mpr hstage
  have hother : ∀ i, ListenerStage.accepting = .choosing i ↔
      L.stage = .choosing i ∧ i ≠ conn := by
    intro i
    rw [hstage]
    simp [eq_comm]
  have hlimit := h.limit
  unfold TcpListener.choose
  split
  · rename_i hroom
    refine h.move hold rfl rfl hroom ?_ hother (by decide) (Or.inl ⟨rfl, rfl⟩)
    rw [hstage]
    simp only [ListenerStage.running, HandlerStage.running]
  · exact h.move hold rfl rfl hlimit (by rw [hstage]; rfl) hother (by decide)
      (Or.inr ⟨List.Perm.refl _, rfl, rfl⟩)

theorem apply (h : L.Balanced) (he : L.enabled e) : (L.apply e).Balanced := by
  have hlimit := h.limit
  have hslots := h.slots
  have hwg := h.wg
  cases e with
  | accept =>
      obtain ⟨hstage, -⟩ := he
      refine ⟨?_, hlimit, ?_, ?_, ?_, h.once, ?_⟩
      · rw [TcpListener.apply, Crew.sum_concat]
        exact hslots
      · rw [TcpListener.apply, Crew.sum_concat]
        rw [hstage] at hwg
        exact hwg
      · intro i
        constructor
        · intro hi
          obtain ⟨rfl, -⟩ | ⟨-, hi⟩ := Crew.getElem?_concat hi
          · rfl
          · rw [h.undecided, hstage] at hi
            cases hi
        · intro hi
          cases hi
          exact List.getElem?_concat_length ..
      · intro i stage hi
        obtain ⟨rfl, rfl⟩ | ⟨-, hi⟩ := Crew.getElem?_concat hi
        · refine iff_of_false ?_ (by decide)
          intro hmem
          exact absurd (h.known _ hmem) (Nat.lt_irrefl _)
        · exact h.settled i stage hi
      · intro i hi
        exact Nat.lt_of_lt_of_le (h.known i hi) (by simp [TcpListener.apply])
  | acceptError =>
      simp only [TcpListener.enabled] at he
      simp only [TcpListener.apply]
      split
      · refine ⟨hslots, hlimit, ?_, ?_, h.settled, h.once, h.known⟩
        · rw [he] at hwg
          simp only [ListenerStage.running] at hwg ⊢
          omega
        · intro i
          rw [h.undecided, he]
          simp
      · exact h
  | choose =>
      obtain ⟨conn, hstage⟩ := he
      simp only [TcpListener.apply, hstage]
      exact h.choose hstage
  | handshake conn ok =>
      have hstage := h.not_choosing he (by decide)
      cases ok
      · exact h.move he rfl rfl hlimit rfl hstage (by decide) (Or.inl ⟨rfl, rfl⟩)
      · exact h.move he rfl rfl hlimit rfl hstage (by decide) (Or.inl ⟨rfl, rfl⟩)
  | closeConn conn =>
      exact h.move he rfl rfl hlimit rfl (h.not_choosing he (by decide)) (by decide)
        (Or.inr ⟨List.Perm.refl _, rfl, rfl⟩)
  | addSession conn =>
      exact h.move he rfl rfl hlimit rfl (h.not_choosing he (by decide)) (by decide)
        (Or.inr ⟨List.perm_middle, rfl, rfl⟩)
  | release conn =>
      have hheld := Crew.sum_set HandlerStage.slot he .leaving
      simp only [HandlerStage.slot] at hheld
      refine h.move he rfl ?_ ?_ rfl (h.not_choosing he (by decide)) (by decide)
        (Or.inl ⟨rfl, rfl⟩)
      · simp only [TcpListener.apply, HandlerStage.slot]
        omega
      · simp only [TcpListener.apply]
        omega
  | done conn =>
      have hheld := Crew.sum_set HandlerStage.running he .finished
      simp only [HandlerStage.running] at hheld
      refine h.move he rfl rfl hlimit ?_ (h.not_choosing he (by decide)) (by decide)
        (Or.inl ⟨rfl, rfl⟩)
      simp only [TcpListener.apply, TcpListener.go, HandlerStage.running]
      omega
  | cancel | closeListener =>
      exact ⟨hslots, hlimit, hwg, h.undecided, h.settled, h.once, h.known⟩

end Balanced

theorem balanced_of_reachable (run : listenerMachine.Reachable L) : L.Balanced := by
  refine run.invariant ?_ fun L e h he => h.apply he
  rintro L rfl
  refine ⟨rfl, by decide, rfl, ?_, ?_, List.nodup_nil, ?_⟩
  · intro i
    simp [start]
  · intro i stage hi
    cases hi
  · intro i hi
    cases hi

/-- The wait group is left last, so a goroutine is counted while the loop is. -/
theorem Balanced.wg_pos (h : L.Balanced) (he : L.enabled e) (hadd : L.wg < (L.apply e).wg) :
    0 < L.wg := by
  have hwg := h.wg
  cases e with
  | choose =>
      obtain ⟨conn, hstage⟩ := he
      rw [hstage] at hwg
      simp only [ListenerStage.running] at hwg
      omega
  | acceptError =>
      simp only [TcpListener.apply] at hadd
      split at hadd
      · exact absurd hadd (Nat.not_lt.mpr (Nat.sub_le _ _))
      · exact absurd hadd (Nat.lt_irrefl _)
  | done conn => exact absurd hadd (Nat.not_lt.mpr (Nat.sub_le _ _))
  | accept | handshake conn ok | closeConn conn | addSession conn | release conn | cancel
  | closeListener => exact absurd hadd (Nat.lt_irrefl _)

end TcpListener

/-- In every run, at most `maxConcurrentTCPHandshakes` handshakes are in progress,
the wait group counts exactly the goroutines that have not returned and is never
counted up from zero, and a connection is closed by the listener or passed on
once: from the moment at which the listener is through with it. -/
theorem tcp_listener_accounts (L : TcpListener) (run : listenerMachine.Reachable L) :
    L.conns.countP (fun stage => decide (stage = .shaking)) ≤ maxConcurrentTCPHandshakes ∧
    L.wg = L.stage.running + (L.conns.map HandlerStage.running).sum ∧
    (∀ e, L.enabled e → L.wg < (L.apply e).wg → 0 < L.wg) ∧
    (L.closed ++ L.passed).Nodup ∧
    ∀ (i : Nat) stage, L.conns[i]? = some stage →
      (i ∈ L.closed ++ L.passed ↔ stage.settled = true) := by
  have h := TcpListener.balanced_of_reachable run
  refine ⟨?_, h.wg, fun e he => h.wg_pos he, h.once, h.settled⟩
  refine Nat.le_trans (Crew.countP_le_sum ?_) (h.slots ▸ h.limit)
  intro stage hstage
  simp only [decide_eq_true_eq] at hstage
  rw [hstage]
  exact Nat.le_refl 1

/-- A listener with one connection in its handshake and one at the select. -/
def busyListener : TcpListener :=
  { TcpListener.start with
    stage := .choosing 1
    conns := [.shaking, .accepted]
    handshakeSlots := 1
    wg := 2 }

theorem busyListener_reachable : listenerMachine.Reachable busyListener := by
  have start : listenerMachine.Reachable TcpListener.start := .start rfl
  exact start.run [.accept, .choose, .accept]
    ⟨⟨rfl, rfl⟩, trivial, ⟨0, rfl⟩, trivial, ⟨rfl, rfl⟩, trivial, trivial⟩

theorem tcp_listener_accounts_busy :
    busyListener.conns.countP (fun stage => decide (stage = .shaking)) ≤ 128 ∧
      0 ∉ busyListener.closed ++ busyListener.passed := by
  have h := tcp_listener_accounts busyListener busyListener_reachable
  refine ⟨h.1, fun hmem => ?_⟩
  exact absurd ((h.2.2.2.2 0 .shaking rfl).mp hmem) (by decide)

/-! ## The end of the listener -/

namespace TcpListener

variable {L : TcpListener} {e : ListenerEvent}

/-- How many steps are left when the listener is closed. -/
def left (L : TcpListener) : Nat := L.stage.left + (L.conns.map HandlerStage.left).sum

/-- The context is cancelled and the listener is closed, as `Close` leaves them. -/
def Closed (L : TcpListener) : Prop := L.cancelled = true ∧ L.listening = false

/-- A goroutine that moves on has fewer steps left. -/
theorem left_of_set {L' : TcpListener} {conn : Nat} {old new : HandlerStage}
    (hold : L.conns[conn]? = some old) (hless : new.left < old.left)
    (hconns : L'.conns = L.conns.set conn new) (hstage : L'.stage = L.stage) :
    1 + L'.left ≤ L.left := by
  have hsum := Crew.sum_set HandlerStage.left hold new
  rw [← hconns] at hsum
  simp only [left, hstage]
  omega

/-- A step of a closed listener leaves fewer of them. -/
theorem step_left (h : L.Balanced) (hc : L.Closed) (he : L.enabled e) :
    (L.apply e).Closed ∧ (if e.ofListener then 1 else 0) + (L.apply e).left ≤ L.left := by
  obtain ⟨hcancelled, hlistening⟩ := hc
  cases e with
  | accept => exact absurd (he.2.symm.trans hlistening) (by decide)
  | acceptError =>
      simp only [enabled] at he
      simp only [apply, hcancelled, if_true]
      refine ⟨⟨rfl, hlistening⟩, ?_⟩
      simp only [left, he, ListenerEvent.ofListener, ListenerStage.left, if_true]
      omega
  | choose =>
      obtain ⟨conn, hstage⟩ := he
      have hold := (h.undecided conn).mpr hstage
      simp only [apply, hstage, choose]
      split
      · have hsum := Crew.sum_set HandlerStage.left hold .shaking
        refine ⟨⟨hcancelled, hlistening⟩, ?_⟩
        simp only [HandlerStage.left] at hsum
        simp only [left, go, hstage, ListenerEvent.ofListener, ListenerStage.left, if_true]
        omega
      · have hsum := Crew.sum_set HandlerStage.left hold .turnedAway
        refine ⟨⟨hcancelled, hlistening⟩, ?_⟩
        simp only [HandlerStage.left] at hsum
        simp only [left, go, hstage, ListenerEvent.ofListener, ListenerStage.left, if_true]
        omega
  | handshake conn ok =>
      refine ⟨⟨hcancelled, hlistening⟩, left_of_set he ?_ rfl rfl⟩
      cases ok <;> decide
  | closeConn conn | addSession conn | release conn | done conn =>
      exact ⟨⟨hcancelled, hlistening⟩, left_of_set he (by decide) rfl rfl⟩
  | cancel =>
      exact ⟨⟨rfl, hlistening⟩, Nat.le_of_eq (Nat.zero_add _)⟩
  | closeListener =>
      exact ⟨⟨hcancelled, rfl⟩, Nat.le_of_eq (Nat.zero_add _)⟩

/-- Until the wait group is empty somebody has a step. -/
theorem exists_step (h : L.Balanced) (hwg : L.wg ≠ 0) :
    ∃ e, L.enabled e ∧ e.ofListener = true := by
  cases hstage : L.stage with
  | accepting => exact ⟨.acceptError, hstage, rfl⟩
  | choosing conn => exact ⟨.choose, ⟨conn, hstage⟩, rfl⟩
  | returned =>
      have hcount := h.wg
      rw [hstage, ListenerStage.running, Nat.zero_add] at hcount
      obtain ⟨i, stage, hi, hruns⟩ := Crew.exists_of_sum HandlerStage.running (hcount ▸ hwg)
      cases stage with
      | shaking => exact ⟨.handshake i false, hi, rfl⟩
      | rejecting => exact ⟨.closeConn i, hi, rfl⟩
      | adding => exact ⟨.addSession i, hi, rfl⟩
      | releasing => exact ⟨.release i, hi, rfl⟩
      | leaving => exact ⟨.done i, hi, rfl⟩
      | accepted | turnedAway | finished => exact absurd rfl hruns

/-- When the wait group is empty nothing is held. -/
theorem Balanced.settled_of_wg (h : L.Balanced) (hwg : L.wg = 0) :
    L.handshakeSlots = 0 ∧ ∀ i < L.conns.length, i ∈ L.closed ++ L.passed := by
  have hcount := h.wg
  have hsum : (L.conns.map HandlerStage.running).sum = 0 := by omega
  have hrunning : ∀ (i : Nat) stage, L.conns[i]? = some stage → stage.running = 0 := by
    intro i stage hi
    have hset := Crew.sum_set HandlerStage.running hi .finished
    simp only [HandlerStage.running] at hset hsum ⊢
    omega
  constructor
  · refine Decidable.byContradiction fun hheld => ?_
    obtain ⟨i, stage, hi, hslot⟩ := Crew.exists_of_sum HandlerStage.slot (h.slots ▸ hheld)
    have hle := stage.slot_le_running
    have hzero := hrunning i stage hi
    omega
  · intro i hi
    have hget := List.getElem?_eq_getElem hi
    refine (h.settled i _ hget).mpr (HandlerStage.settled_of_running _ (hrunning i _ hget) ?_)
    intro haccepted
    rw [haccepted] at hget
    rw [(h.undecided i).mp hget] at hcount
    simp only [ListenerStage.running] at hcount
    omega

end TcpListener

/-- After `Close` has cancelled the context and closed the listener, the loop and
its goroutines take only so many more steps, one of them has a step until the
wait group is empty, and then every slot is free and every connection that was
accepted is closed or was passed on. -/
theorem tcp_listener_stops (L : TcpListener) (run : listenerMachine.Reachable L)
    (hc : L.Closed) (es : List ListenerEvent)
    (hes : listenerMachine.Permitted (fun _ _ => True) L es) :
    es.countP ListenerEvent.ofListener ≤ L.left ∧
    ((es.foldl TcpListener.apply L).wg ≠ 0 →
      ∃ e, (es.foldl TcpListener.apply L).enabled e ∧ e.ofListener = true) ∧
    ((es.foldl TcpListener.apply L).wg = 0 →
      (es.foldl TcpListener.apply L).handshakeSlots = 0 ∧
      ∀ i < (es.foldl TcpListener.apply L).conns.length,
        i ∈ (es.foldl TcpListener.apply L).closed ++ (es.foldl TcpListener.apply L).passed) := by
  obtain ⟨⟨hend, -⟩, hsteps⟩ := hes.countP_add_le
    (fun L => L.Balanced ∧ L.Closed) TcpListener.left ListenerEvent.ofListener
    (fun L e h he _ => by
      obtain ⟨hclosed, hless⟩ := TcpListener.step_left h.1 h.2 he
      exact ⟨⟨h.1.apply he, hclosed⟩, hless⟩)
    ⟨TcpListener.balanced_of_reachable run, hc⟩
  exact ⟨Nat.le_trans (Nat.le_add_right _ _) hsteps, TcpListener.exists_step hend,
    hend.settled_of_wg⟩

theorem tcp_listener_stops_busy :
    ({ busyListener with cancelled := true, listening := false } : TcpListener).left = 10 ∧
      ∃ L, listenerMachine.Reachable L ∧ L.wg = 0 ∧ ∀ i < 2, i ∈ L.closed ++ L.passed := by
  have cancelled : listenerMachine.Reachable { busyListener with cancelled := true } :=
    busyListener_reachable.to .cancel trivial trivial rfl
  have run : listenerMachine.Reachable
      { busyListener with cancelled := true, listening := false } :=
    cancelled.to .closeListener rfl trivial rfl
  let es : List ListenerEvent := [.choose, .acceptError, .handshake 0 false, .closeConn 0,
    .release 0, .done 0, .handshake 1 true, .addSession 1, .release 1, .done 1]
  have hes : listenerMachine.Permitted (fun _ _ => True)
      { busyListener with cancelled := true, listening := false } es :=
    ⟨⟨1, rfl⟩, trivial, rfl, trivial, rfl, trivial, rfl, trivial, rfl, trivial, rfl, trivial,
      rfl, trivial, rfl, trivial, rfl, trivial, rfl, trivial, trivial⟩
  exact ⟨rfl, _, run.run es hes, rfl,
    ((tcp_listener_stops _ run ⟨rfl, rfl⟩ es hes).2.2 rfl).2⟩

end UnknownTunnel.Transport

import UnknownTunnel.Transport.Manager

/-!
# Forwarding of received messages

Between a session's receive queue and the manager's queue no message is
reordered or duplicated. Whether one is lost depends on the select of the
forwarding goroutine: it may choose the done channel of a finished session
while messages are still queued.

## Implementation notes

The accounting invariant splits what was ever put in a receive queue into
what has been forwarded, what the goroutine holds and what is still queued.
-/

namespace UnknownTunnel.Transport

open Foundation

namespace Manager

variable {M : Manager} {e : ManagerEvent}

/-- Only a forwarding step adds to the forwarded messages. -/
theorem forwarded_apply (he : M.enabled e) {j : Nat} {o : ManagedSession}
    (ho : M.objects[j]? = some o) :
    (M.apply e).forwarded j =
      M.forwarded j ++ if e = .forward j then o.inHand else [] := by
  cases e with
  | forward i =>
      obtain ⟨-, p, data, hp, h⟩ := he
      have hfilter : ((p.inHand.map fun data => (i, data)).filter fun m => m.1 = j).map Prod.snd =
          if i = j then p.inHand else [] := by
        by_cases hij : i = j
        · simp [ManagedSession.inHand, h, hij]
        · simp [ManagedSession.inHand, h, hij]
      have hlog : (M.apply (.forward i)).handedOut ++ (M.apply (.forward i)).incoming =
          (M.handedOut ++ M.incoming) ++ p.inHand.map fun data => (i, data) := by
        simp only [apply, control, hp, List.append_assoc]
      rw [forwarded, hlog, List.filter_append, List.map_append, hfilter, ← forwarded]
      by_cases hij : i = j
      · subst hij
        rw [ho] at hp
        cases hp
        rw [if_pos rfl, if_pos rfl]
      · simp [hij]
  | consume =>
      obtain ⟨m, rest, hm⟩ := List.exists_cons_of_ne_nil he
      simp [forwarded, apply, control, hm]
  | _ => simp [forwarded, apply, control]

/-- Messages are tagged with sessions that exist. -/
def Tagged (M : Manager) : Prop := ∀ m ∈ M.handedOut ++ M.incoming, m.1 < M.objects.length

theorem Tagged.apply (h : M.Tagged) (he : M.enabled e) : (M.apply e).Tagged := by
  have hlen : M.objects.length ≤ (M.apply e).objects.length := by
    rw [Manager.apply, List.length_mapIdx]
    rcases objects_control M e with hc | ⟨_, _, _, -, hc⟩ <;> rw [hc]
    simp
  intro m hm
  cases e with
  | forward i =>
      obtain ⟨-, p, data, hp, -⟩ := he
      simp only [Manager.apply, control, hp, List.mem_append, List.mem_map] at hm
      rcases hm with hm | hm | ⟨_, -, rfl⟩
      · exact (h m (List.mem_append_left _ hm)).trans_le hlen
      · exact (h m (List.mem_append_right _ hm)).trans_le hlen
      · exact (List.getElem?_eq_some_iff.mp hp).1.trans_le hlen
  | consume =>
      obtain ⟨first, rest, hq⟩ := List.exists_cons_of_ne_nil he
      refine (h m ?_).trans_le hlen
      simpa [Manager.apply, control, hq] using hm
  | _ => exact (h m hm).trans_le hlen

theorem Tagged.forwarded_length (h : M.Tagged) : M.forwarded M.objects.length = [] := by
  rw [forwarded, List.map_eq_nil_iff, List.filter_eq_nil_iff]
  intro m hm
  simpa using (h m hm).ne

/-- Every message put in a receive queue is accounted for. -/
structure Accounted (M : Manager) (i : Nat) (o : ManagedSession) : Prop where
  split : o.forwarder ≠ .stopped → o.put = M.forwarded i ++ o.inHand ++ o.queue
  stopped : o.forwarder = .closing ∨ o.forwarder = .stopped → M.cancelled = true
  owed : o.owed ≤ o.put.length
  finished : o.forwarder = .removing ∨ o.forwarder = .exited → o.finished = true

theorem newObject_accounted (h : M.Tagged) (kind : Carrier) (queued : List Bytes)
    (finished : Bool) :
    (M.apply (.add kind queued finished)).Accounted M.objects.length
      (M.newObject kind queued finished) := by
  have hnone : (M.apply (.add kind queued finished)).forwarded M.objects.length = [] :=
    h.forwarded_length
  have hcancel : M.cancelled = true → (M.apply (.add kind queued finished)).cancelled = true :=
    fun hc => hc
  constructor
  · intro _
    rw [hnone]
    cases hc : M.cancelled <;> simp [newObject, ManagedSession.inHand, hc]
  · intro hstopped
    cases hc : M.cancelled with
    | true => exact hcancel hc
    | false => simp [newObject, hc] at hstopped
  · simp only [newObject]
    split
    · exact le_rfl
    · exact Nat.zero_le _
  · intro hdone
    cases hc : M.cancelled <;> simp [newObject, hc] at hdone

theorem Accounted.finish {i : Nat} {o : ManagedSession} (h : M.Accounted i o) :
    M.Accounted i o.finish := by
  rw [ManagedSession.finish]
  split
  · exact h
  · exact ⟨h.split, h.stopped, le_rfl, fun _ => rfl⟩

theorem Accounted.forward {j : Nat} {o : ManagedSession} (h : M.Accounted j o)
    (he : M.enabled (.forward j)) (ho : M.objects[j]? = some o) :
    (M.apply (.forward j)).Accounted j (M.objectAfter (.forward j) j o) := by
  obtain ⟨-, p, data, hp, hold⟩ := id he
  rw [ho] at hp
  cases hp
  have hafter : M.objectAfter (.forward j) j o = { o with forwarder := .selecting } := by
    simp [Manager.objectAfter, closes, advance]
  have hfwd := forwarded_apply he ho
  rw [if_pos rfl] at hfwd
  have hsplit := h.split (by rw [hold]; exact Forwarder.noConfusion)
  rw [hafter]
  refine ⟨fun _ => ?_, fun hs => ?_, h.owed, fun hf => ?_⟩
  rotate_left
  · rcases hs with hs | hs <;> cases hs
  · rcases hf with hf | hf <;> cases hf
  rw [hfwd]
  change o.put = M.forwarded j ++ o.inHand ++ [] ++ o.queue
  rw [List.append_nil]
  exact hsplit

theorem Accounted.objectAfter {j : Nat} {o : ManagedSession} (h : M.Accounted j o)
    (he : M.enabled e) (ho : M.objects[j]? = some o) :
    (M.apply e).Accounted j (M.objectAfter e j o) := by
  by_cases hforward : e = .forward j
  · subst hforward
    exact h.forward he ho
  have hcancel : M.cancelled = true → (M.apply e).cancelled = true := fun hc =>
    (cancelled_apply M e).mpr (Or.inl hc)
  have hfwd : (M.apply e).forwarded j = M.forwarded j := by
    rw [forwarded_apply he ho, if_neg hforward, List.append_nil]
  have hkept : (M.apply e).Accounted j o :=
    ⟨fun hs => hfwd.symm ▸ h.split hs, fun hs => hcancel (h.stopped hs), h.owed, h.finished⟩
  refine objectAfter_induction (motive := (M.apply e).Accounted j) he ho ?_ fun p hp => hp.finish
  intro p hp
  cases hp with
  | stay => exact hkept
  | started old hold =>
      have hsplit := hkept.split (by rw [hold]; exact nofun)
      rw [ManagedSession.inHand, hold] at hsplit
      exact ⟨fun _ => hsplit, nofun, h.owed, nofun⟩
  | put data =>
      refine ⟨fun hs => ?_, hkept.stopped, ?_, h.finished⟩
      · change o.put ++ [data] = (M.apply e).forwarded j ++ o.inHand ++ (o.queue ++ [data])
        rw [hkept.split hs, List.append_assoc]
      · change o.owed ≤ (o.put ++ [data]).length
        rw [List.length_append]
        exact h.owed.trans (Nat.le_add_right _ _)
  | taken data rest hsel hq =>
      have hsplit := hkept.split (by rw [hsel]; exact nofun)
      rw [ManagedSession.inHand, hsel, hq] at hsplit
      refine ⟨fun _ => ?_, nofun, h.owed, nofun⟩
      rw [ManagedSession.inHand]
      simpa using hsplit
  | done _ hsel hf =>
      have hsplit := hkept.split (by rw [hsel]; exact nofun)
      rw [ManagedSession.inHand, hsel] at hsplit
      exact ⟨fun _ => hsplit, nofun, h.owed, fun _ => hf⟩
  | closing hc hsel =>
      have hsplit := hkept.split (by rw [hsel]; exact nofun)
      rw [ManagedSession.inHand, hsel] at hsplit
      exact ⟨fun _ => hsplit, fun _ => hcancel hc, h.owed, nofun⟩
  | stopped hc => exact ⟨fun hs => absurd rfl hs, fun _ => hcancel hc, h.owed, nofun⟩
  | forwarded data hev _ => exact absurd hev hforward
  | removed hrem =>
      have hsplit := hkept.split (by rw [hrem]; exact nofun)
      rw [ManagedSession.inHand, hrem] at hsplit
      exact ⟨fun _ => hsplit, nofun, h.owed, fun _ => h.finished (Or.inl hrem)⟩

/-- The accounts of all sessions. -/
structure Accounts (M : Manager) : Prop where
  tagged : M.Tagged
  sessions : ∀ (i : Nat) (o : ManagedSession), M.objects[i]? = some o → M.Accounted i o

theorem accounts_of_reachable (run : managerMachine.Reachable M) : M.Accounts := by
  apply run.invariant
  · rintro M rfl
    exact ⟨nofun, by simp [Manager.start]⟩
  · intro M e h he
    refine ⟨h.tagged.apply he, ?_⟩
    intro i o' ho'
    rcases object_apply ho' with ⟨o, ho, rfl⟩ | ⟨rfl, kind, queued, finished, rfl, rfl⟩
    · exact (h.sessions i o ho).objectAfter he ho
    · exact newObject_accounted h.tagged kind queued finished

/-- The payload that a step puts in the receive queue of a session. -/
def putBy (j : Nat) : ManagerEvent → List Bytes
  | .put i data => if i = j then [data] else []
  | _ => []

/-- A step only adds to what was put in a receive queue. -/
theorem put_objectAfter (M : Manager) (e : ManagerEvent) (j : Nat) (o : ManagedSession) :
    (M.objectAfter e j o).put = o.put ++ putBy j e := by
  have hfinish : ∀ p : ManagedSession, p.finish.put = p.put := by
    intro p
    rw [ManagedSession.finish]
    split <;> rfl
  have hadvance : (advance e j o).put = o.put ++ putBy j e := by
    cases e with
    | put i data =>
        simp only [advance, putBy]
        split
        · rfl
        · rw [List.append_nil]
    | takeData i =>
        simp only [advance, putBy, List.append_nil]
        split
        · split <;> rfl
        · rfl
    | start i | takeDone i | takeCancel i | forward i | abandon i | remove i | closeSession i =>
        simp only [advance, putBy, List.append_nil]
        split <;> rfl
    | _ => simp only [advance, putBy, List.append_nil]
  rw [objectAfter]
  split
  · rw [hfinish, hadvance]
  · exact hadvance

/-- Messages are handed out only by a step that consumes. -/
theorem handedOut_apply (M : Manager) (e : ManagerEvent) :
    (M.apply e).handedOut =
      M.handedOut ++ if e = .consume then M.incoming.head?.toList else [] := by
  cases e with
  | forward i =>
      simp only [apply, control]
      split <;> simp
  | _ => simp [apply, control]

/-- What has been forwarded of a session is a beginning of what it was given. -/
def Begins (M : Manager) : Prop :=
  ∀ (i : Nat) (o : ManagedSession), M.objects[i]? = some o → M.forwarded i <+: o.put

theorem Begins.apply (h : M.Begins) (ha : M.Accounts) (he : M.enabled e) : (M.apply e).Begins := by
  intro i o' ho'
  obtain ⟨o, ho, rfl⟩ | ⟨rfl, kind, queued, finished, rfl, rfl⟩ := object_apply ho'
  · have hgrow : o.put <+: (M.objectAfter e i o).put := by
      rw [put_objectAfter]
      exact List.prefix_append _ _
    rw [forwarded_apply he ho]
    split
    · rename_i hev
      subst hev
      obtain ⟨-, p, data, hp, hold⟩ := he
      obtain rfl := Option.some.inj (hp.symm.trans ho)
      have hsplit := (ha.sessions i p ho).split (by rw [hold]; exact Forwarder.noConfusion)
      refine List.IsPrefix.trans ?_ hgrow
      rw [hsplit]
      exact List.prefix_append _ _
    · rw [List.append_nil]
      exact (h i o ho).trans hgrow
  · have hnone : (M.apply (.add kind queued finished)).forwarded M.objects.length = [] :=
      ha.tagged.forwarded_length
    rw [hnone]
    exact List.nil_prefix

/-- This holds whether or not the manager was closed meanwhile. -/
theorem begins_of_reachable (run : managerMachine.Reachable M) : M.Begins := by
  refine Machine.ReachableUnder.invariant (J := Accounts) run
    (fun _ run => accounts_of_reachable run) ?_ ?_
  · rintro M rfl
    simp [Begins, Manager.start]
  · intro M e ha h he _
    exact h.apply ha he

/-- The done channel is chosen only once no message that was queued when the
session finished is still queued. -/
def DoneWhenDrained (M : Manager) (e : ManagerEvent) : Prop :=
  ∀ (i : Nat) (o : ManagedSession), e = .takeDone i → M.objects[i]? = some o →
    o.owed ≤ o.put.length - o.queue.length

/-- A goroutine that has left its loop owes nothing. -/
def Settled (M : Manager) : Prop :=
  ∀ (i : Nat) (o : ManagedSession), M.objects[i]? = some o →
    o.forwarder = .removing ∨ o.forwarder = .exited → o.owed ≤ (M.forwarded i).length

/-- Closing a session that has finished changes nothing. -/
theorem finish_of_finished {o : ManagedSession} (h : o.finished = true) : o.finish = o := by
  rw [ManagedSession.finish, if_pos h]

/-- How a goroutine comes to be past its loop. -/
theorem left_objectAfter (he : M.enabled e) {i : Nat} {o : ManagedSession}
    (ho : M.objects[i]? = some o) (ha : M.Accounted i o) :
    ((M.objectAfter e i o).forwarder = .removing ∨ (M.objectAfter e i o).forwarder = .exited) →
    (M.objectAfter e i o).finished = true ∧ (M.objectAfter e i o).owed = o.owed ∧
      ((o.forwarder = .removing ∨ o.forwarder = .exited) ∨
        (e = .takeDone i ∧ o.forwarder = .selecting)) := by
  refine objectAfter_induction (motive := fun p => p.forwarder = .removing ∨
    p.forwarder = .exited → p.finished = true ∧ p.owed = o.owed ∧
      ((o.forwarder = .removing ∨ o.forwarder = .exited) ∨
        (e = .takeDone i ∧ o.forwarder = .selecting))) he ho ?_ ?_
  · intro p hp hleft
    cases hp with
    | stay => exact ⟨ha.finished hleft, rfl, Or.inl hleft⟩
    | put data => exact ⟨ha.finished hleft, rfl, Or.inl hleft⟩
    | done hev hsel hf => exact ⟨hf, rfl, Or.inr ⟨hev, hsel⟩⟩
    | removed hrem => exact ⟨ha.finished (Or.inl hrem), rfl, Or.inl (Or.inl hrem)⟩
    | started | taken | closing | stopped | forwarded => rcases hleft with h | h <;> cases h
  · intro p hp hleft
    have hsame : p.finish.forwarder = p.forwarder := by
      rw [ManagedSession.finish]
      split <;> rfl
    rw [hsame] at hleft
    rw [finish_of_finished (hp hleft).1]
    exact hp hleft

theorem Settled.apply (h : M.Settled) (ha : M.Accounts) (he : M.enabled e)
    (hok : M.DoneWhenDrained e) : (M.apply e).Settled := by
  intro i o' ho' hleft
  rcases object_apply ho' with ⟨o, ho, rfl⟩ | ⟨rfl, kind, queued, finished, rfl, rfl⟩
  · have hacc := ha.sessions i o ho
    have hgrow : (M.forwarded i).length ≤ ((M.apply e).forwarded i).length := by
      rw [forwarded_apply he ho, List.length_append]
      exact Nat.le_add_right _ _
    obtain ⟨-, howed, hbefore | ⟨hev, hsel⟩⟩ := left_objectAfter he ho hacc hleft
    · rw [howed]
      exact (h i o ho hbefore).trans hgrow
    · have hdrained := hok i o hev ho
      have hsplit := hacc.split (by rw [hsel]; exact nofun)
      rw [ManagedSession.inHand, hsel, List.append_nil] at hsplit
      have hlen : o.put.length = (M.forwarded i).length + o.queue.length := by
        rw [hsplit, List.length_append]
      omega
  · cases hc : M.cancelled <;> simp [newObject, hc] at hleft

theorem settled_of_reachable (run : managerMachine.ReachableUnder DoneWhenDrained M) :
    M.Settled := by
  refine run.invariant (J := Accounts) (fun _ run => accounts_of_reachable run.reachable) ?_ ?_
  · rintro M rfl
    simp [Settled, Manager.start]
  · intro M e ha h he hok
    exact h.apply ha he hok

/-- What has been forwarded is a beginning of what was received, and as long as
the manager is not closed nothing else has left the receive queue for good. -/
theorem forwarded_begins_put (run : managerMachine.Reachable M) (hc : M.cancelled = false) {i : Nat}
    {o : ManagedSession} (ho : M.objects[i]? = some o) : M.forwarded i <+: o.put := by
  have h := (accounts_of_reachable run).sessions i o ho
  have hrunning : o.forwarder ≠ .stopped := by
    intro hs
    rw [h.stopped (Or.inr hs)] at hc
    cases hc
  rw [h.split hrunning, List.append_assoc]
  exact List.prefix_append _ _

end Manager

/-- A session that was added with one message and has finished. -/
def oneQueued (data : Bytes) : Manager :=
  ((Manager.start.apply (.add .udp [data] false)).apply (.start 0)).apply (.finish 0)

theorem reachable_oneQueued {ok : Manager → ManagerEvent → Prop}
    (hok : ∀ M e, (∀ i, e ≠ .takeDone i) → ok M e) (data : Bytes) :
    managerMachine.ReachableUnder ok (oneQueued data) := by
  have run₀ : managerMachine.ReachableUnder ok Manager.start := .start rfl
  have hadd : managerMachine.enabled Manager.start (.add .udp [data] false) := by
    change [data].length ≤ recvQueueLen
    simp [recvQueueLen]
  have run₁ := run₀.to (.add .udp [data] false) hadd (hok _ _ nofun) rfl
  have run₂ := run₁.to (.start 0) ⟨_, _, rfl, rfl⟩ (hok _ _ nofun) rfl
  exact run₂.to (.finish 0) Nat.zero_lt_one (hok _ _ nofun) rfl

/-- As long as the manager is not closed and the goroutines choose the done
channel only once they have taken what was queued, a goroutine that has exited
has forwarded every message that was in the receive queue when its session
finished, in order. -/
theorem manager_forwards_received (M : Manager)
    (run : managerMachine.ReachableUnder Manager.DoneWhenDrained M) (hc : M.cancelled = false)
    (i : Nat) (o : ManagedSession) (ho : M.objects[i]? = some o) (hx : o.forwarder = .exited) :
    o.put.take o.owed <+: M.forwarded i ∧ M.forwarded i <+: o.put := by
  have howed := Manager.settled_of_reachable run i o ho (Or.inr hx)
  have hprefix := Manager.forwarded_begins_put run.reachable hc ho
  refine ⟨?_, hprefix⟩
  exact List.prefix_of_prefix_length_le (List.take_prefix _ _) hprefix
    ((List.length_take_le _ _).trans howed)

theorem manager_forwards_received_drained :
    ∃ M o, managerMachine.ReachableUnder Manager.DoneWhenDrained M ∧ M.cancelled = false ∧
      M.objects[0]? = some o ∧ o.forwarder = .exited ∧ o.put.take o.owed = [[7]] ∧
      o.put.take o.owed <+: M.forwarded 0 := by
  have run₃ : managerMachine.ReachableUnder Manager.DoneWhenDrained (oneQueued [7]) :=
    reachable_oneQueued (fun _ _ hne i _ he => absurd he (hne i)) [7]
  have run₄ := run₃.to (.takeData 0) ⟨_, rfl, rfl, nofun⟩ nofun rfl
  have run₅ := run₄.to (.forward 0) ⟨Nat.zero_lt_succ _, _, _, rfl, rfl⟩ nofun rfl
  have run₆ := run₅.to (.takeDone 0) ⟨_, rfl, rfl, rfl⟩
    (by rintro i o hi ho; cases hi; cases ho; decide) rfl
  have run₇ := run₆.to (.remove 0) ⟨_, rfl, rfl⟩ nofun rfl
  exact ⟨_, _, run₇, rfl, rfl, rfl, rfl,
    (manager_forwards_received _ run₇ rfl 0 _ rfl rfl).1⟩

/-- The select may choose the done channel first: the message that was queued
when the session finished is never forwarded. -/
theorem manager_drops_queued_message :
    ∃ M o, managerMachine.Reachable M ∧ M.cancelled = false ∧ M.objects[0]? = some o ∧
      o.forwarder = .exited ∧ o.put.take o.owed = [[7]] ∧ M.forwarded 0 = [] ∧
      ¬ o.put.take o.owed <+: M.forwarded 0 := by
  have run₃ : managerMachine.Reachable (oneQueued [7]) :=
    reachable_oneQueued (fun _ _ _ => trivial) [7]
  have run₄ := run₃.to (.takeDone 0) ⟨_, rfl, rfl, rfl⟩ trivial rfl
  have run₅ := run₄.to (.remove 0) ⟨_, rfl, rfl⟩ trivial rfl
  refine ⟨_, _, run₅, rfl, rfl, rfl, rfl, rfl, fun h => ?_⟩
  have hlen : 1 ≤ 0 := h.length_le
  omega

end UnknownTunnel.Transport

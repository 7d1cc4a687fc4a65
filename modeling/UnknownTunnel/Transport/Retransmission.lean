import UnknownTunnel.Foundation.Machine
import UnknownTunnel.Foundation.Spacing
import UnknownTunnel.Transport.UdpRetention

/-!
# The times of retransmissions

`retransmitLoop` resends a pending datagram when `udpRetransmitAfter` has
passed since its `last` time, and gives the peer up at a datagram that was
resent `udpMaxRetries` times. While a session is open its pending datagrams
are young, and it gives up no earlier than the retries take.

The time counts from the moment at which `Send` enters a datagram into the
pending table, which is before `Send` writes it. A resend can be written first,
and the write of `Send` can follow it at once.

## Implementation notes

The steps are those of the session, each at a time. The clock does not go back,
and while the session is open a tick comes at most `delay` after the one
before it. What is due at a tick is now read from the times: `last` is the
newest of the times that an entry has had, which are kept as a history. The
histories of a number begin anew when it is entered. A tick writes in the step in
which it scans the table. Times are in nanoseconds.
-/

namespace UnknownTunnel.Transport

open Foundation

/-- 350 milliseconds, in nanoseconds. -/
def udpRetransmitAfter : Nat := 350 * 10 ^ 6

namespace UdpSession

/-- The test of the loop on an entry. -/
def IsDue (times : Nat → List Nat) (time seq : Nat) : Prop :=
  udpRetransmitAfter ≤ time - (times seq).headD 0

/-- A tick goes over the entries that are due, and over no others. -/
def TakesDue (s : UdpSession) (times : Nat → List Nat) (time : Nat) : UdpEvent → Prop
  | .retransmit due _ =>
      due.Nodup ∧ ∀ seq, seq ∈ due ↔ seq ∈ s.pending ∧ IsDue times time seq
  | _ => True

/-- The times after a step: `Send` and a resend set `last` to the present. -/
def timesAfter (s : UdpSession) (times : Nat → List Nat) (time : Nat) (e : UdpEvent)
    (seq : Nat) : List Nat :=
  match e with
  | .sendInsert k _ => if seq = k then [time] else times seq
  | .retransmit due _ =>
      if Finmap.lookup seq (retransmitScan due s.pending).1 = Finmap.lookup seq s.pending then
        times seq
      else time :: times seq
  | _ => times seq

/-- The numbers of the datagrams that a tick writes: none if it finds an entry
without retries left, and otherwise those before the first write that fails. -/
def resentNumbers (due : List Nat) (failAt : Option Nat) (s : UdpSession) : List Nat :=
  if (retransmitScan due s.pending).2.2 then []
  else match failAt with
    | none => due
    | some k => due.take k

/-- The packet of a pending entry. -/
def pendingPacket (s : UdpSession) (seq : Nat) : Bytes :=
  ((Finmap.lookup seq s.pending).map PendingDatagram.packet).getD []

end UdpSession

/-- A session under a clock, with the times of its datagrams. -/
structure ClockedSession where
  session : UdpSession
  now : Nat
  lastTick : Nat
  /-- The values that the field `last` of an entry has had, newest first. -/
  times : Nat → List Nat
  /-- When `Send` wrote a datagram. -/
  sentAt : Nat → Option Nat
  /-- When ticks wrote it again, newest first. -/
  resentAt : Nat → List Nat

/-- A step and the time at which it is taken. -/
structure ClockedEvent where
  step : UdpEvent
  time : Nat

namespace ClockedSession

variable (C : Crypto)

def enabled (delay : Nat) (S : ClockedSession) (e : ClockedEvent) : Prop :=
  S.session.enabled e.step ∧ S.now ≤ e.time ∧
    (S.session.closed = false → e.time ≤ S.lastTick + delay) ∧
    S.session.TakesDue S.times e.time e.step

/-- When the last tick was. -/
def tickAfter (S : ClockedSession) (e : ClockedEvent) : Nat :=
  match e.step with
  | .retransmit _ _ => e.time
  | _ => S.lastTick

/-- When `Send` has written a datagram, if it has. -/
def sentAfter (S : ClockedSession) (e : ClockedEvent) (seq : Nat) : Option Nat :=
  match e.step with
  | .sendInsert k _ => if seq = k then none else S.sentAt seq
  | .sendWrite k _ true => if seq = k then some e.time else S.sentAt seq
  | _ => S.sentAt seq

/-- When ticks have written a datagram, newest first. -/
def resentAfter (S : ClockedSession) (e : ClockedEvent) (seq : Nat) : List Nat :=
  match e.step with
  | .sendInsert k _ => if seq = k then [] else S.resentAt seq
  | .retransmit due failAt =>
      if seq ∈ S.session.resentNumbers due failAt then e.time :: S.resentAt seq
      else S.resentAt seq
  | _ => S.resentAt seq

def apply (S : ClockedSession) (e : ClockedEvent) : ClockedSession where
  session := S.session.apply C e.step
  now := e.time
  lastTick := S.tickAfter e
  times := S.session.timesAfter S.times e.time e.step
  sentAt := S.sentAfter e
  resentAt := S.resentAfter e

/-- A new session under a clock that shows `now`. -/
def start (session : UdpSession) (now : Nat) : ClockedSession where
  session := session
  now := now
  lastTick := now
  times := fun _ => []
  sentAt := fun _ => none
  resentAt := fun _ => []

end ClockedSession

/-- The runs of a session under a clock. -/
def clockedMachine (C : Crypto) (delay : Nat) : Machine ClockedSession ClockedEvent where
  init := fun S => ∃ sessionID sendKey recvKey sendACK recvACK now,
    S = .start (newUDPSession sessionID sendKey recvKey sendACK recvACK) now
  enabled := ClockedSession.enabled delay
  apply := ClockedSession.apply C

/-! ## One scan -/

namespace UdpSession

/-- A scan leaves entries that are not due alone. -/
theorem lookup_retransmitScan_of_notMem {due : List Nat} {pending : Table Nat PendingDatagram}
    {seq : Nat} (h : seq ∉ due) :
    Finmap.lookup seq (retransmitScan due pending).1 = Finmap.lookup seq pending := by
  induction due generalizing pending with
  | nil => rfl
  | cons k due ih =>
      rw [List.mem_cons, not_or] at h
      obtain ⟨hne, hrest⟩ := h
      simp only [retransmitScan]
      cases Finmap.lookup k pending with
      | none => exact ih hrest
      | some item =>
          simp only
          split
          · rfl
          · rw [ih hrest, Table.lookup_insert_eq, if_neg hne]

/-- A scan leaves a due entry alone or counts one more retry of it. If it
leaves one alone, it has found an entry without retries left. -/
theorem lookup_retransmitScan {due : List Nat} {pending : Table Nat PendingDatagram} {seq : Nat}
    {item : PendingDatagram} (hnodup : due.Nodup) (hmem : seq ∈ due)
    (h : Finmap.lookup seq pending = some item) :
    (Finmap.lookup seq (retransmitScan due pending).1 = some item ∧
      (retransmitScan due pending).2.2 = true) ∨
    (Finmap.lookup seq (retransmitScan due pending).1 =
        some { item with retries := item.retries + 1 } ∧ item.retries < udpMaxRetries) := by
  induction due generalizing pending with
  | nil => cases hmem
  | cons k due ih =>
      obtain ⟨hk, hdue⟩ := List.nodup_cons.mp hnodup
      simp only [retransmitScan]
      by_cases hseq : seq = k
      · subst hseq
        simp only [h]
        split
        · exact Or.inl ⟨h, rfl⟩
        · rename_i hretries
          rw [lookup_retransmitScan_of_notMem hk, Table.lookup_insert_eq, if_pos rfl]
          exact Or.inr ⟨rfl, not_le.mp hretries⟩
      · have hrest := (List.mem_cons.mp hmem).resolve_left hseq
        cases hl : Finmap.lookup k pending with
        | none => exact ih hdue hrest h
        | some other =>
            simp only
            split
            · exact Or.inl ⟨h, rfl⟩
            · exact ih hdue hrest (by rw [Table.lookup_insert_eq, if_neg hseq, h])

/-- A counted entry is a changed one. -/
theorem lookup_ne_of_counted {pending pending' : Table Nat PendingDatagram} {seq : Nat}
    {item : PendingDatagram}
    (hnext : Finmap.lookup seq pending' = some { item with retries := item.retries + 1 })
    (hold : Finmap.lookup seq pending = some item) :
    Finmap.lookup seq pending' ≠ Finmap.lookup seq pending := by
  rw [hnext, hold]
  intro heq
  have hcount := congrArg PendingDatagram.retries (Option.some.inj heq)
  simp at hcount

/-- A scan gives up at a due entry without retries left. -/
theorem exhausted_of_retransmitScan {due : List Nat} {pending : Table Nat PendingDatagram}
    (hnodup : due.Nodup) (h : (retransmitScan due pending).2.2 = true) :
    ∃ seq item, seq ∈ due ∧ Finmap.lookup seq pending = some item ∧
      udpMaxRetries ≤ item.retries := by
  induction due generalizing pending with
  | nil => cases h
  | cons k due ih =>
      obtain ⟨hk, hdue⟩ := List.nodup_cons.mp hnodup
      simp only [retransmitScan] at h
      cases hl : Finmap.lookup k pending with
      | none =>
          rw [hl] at h
          obtain ⟨seq, item, hseq, hitem, hretries⟩ := ih hdue h
          exact ⟨seq, item, List.mem_cons_of_mem k hseq, hitem, hretries⟩
      | some item =>
          simp only [hl] at h
          split at h
          · rename_i hretries
            exact ⟨k, item, List.mem_cons_self, hl, hretries⟩
          · obtain ⟨seq, other, hseq, hother, hretries⟩ := ih hdue h
            have hne : seq ≠ k := fun heq => hk (heq ▸ hseq)
            rw [Table.lookup_insert_eq, if_neg hne] at hother
            exact ⟨seq, other, List.mem_cons_of_mem k hseq, hother, hretries⟩

/-- The packets that a scan collects, if no entry is exhausted. -/
theorem packets_retransmitScan {due : List Nat} {pending : Table Nat PendingDatagram}
    (hnodup : due.Nodup) (hmem : ∀ seq ∈ due, seq ∈ pending)
    (h : (retransmitScan due pending).2.2 = false) :
    (retransmitScan due pending).2.1 = due.map fun seq =>
      ((Finmap.lookup seq pending).map PendingDatagram.packet).getD [] := by
  induction due generalizing pending with
  | nil => rfl
  | cons k due ih =>
      obtain ⟨hk, hdue⟩ := List.nodup_cons.mp hnodup
      obtain ⟨item, hl⟩ := Finmap.mem_iff.mp (hmem k List.mem_cons_self)
      simp only [retransmitScan, hl] at h ⊢
      split at h
      · cases h
      · rename_i hretries
        rw [if_neg hretries, List.map_cons, hl]
        refine congrArg (item.packet :: ·) ?_
        rw [ih hdue (fun seq hseq => ?_) h]
        · -- the entry that was counted is not met again
          refine List.map_congr_left fun seq hseq => ?_
          have hne : seq ≠ k := fun heq => hk (heq ▸ hseq)
          rw [Table.lookup_insert_eq, if_neg hne]
        · exact Finmap.mem_insert.mpr (Or.inr (hmem seq (List.mem_cons_of_mem k hseq)))

/-- What a tick writes are the packets of the numbers that it resends. -/
theorem resent_eq {s : UdpSession} {due : List Nat} (failAt : Option Nat) (hnodup : due.Nodup)
    (hmem : ∀ seq ∈ due, seq ∈ s.pending) :
    s.resent due failAt = (s.resentNumbers due failAt).map s.pendingPacket := by
  unfold resent resentNumbers
  cases hexhausted : (retransmitScan due s.pending).2.2 with
  | true => simp [hexhausted]
  | false =>
      have hpackets : (retransmitScan due s.pending).2.1 = due.map s.pendingPacket :=
        packets_retransmitScan hnodup hmem hexhausted
      cases failAt with
      | none => simpa [hexhausted] using hpackets
      | some k => simpa [hexhausted, List.map_take] using congrArg (List.take k) hpackets

/-- A tick that does not fail writes everything that is due. -/
theorem resentNumbers_of_succeeds {s : UdpSession} {due : List Nat} {failAt : Option Nat}
    (hnodup : due.Nodup) (hmem : ∀ seq ∈ due, seq ∈ s.pending)
    (h : s.tickFails due failAt = false) : s.resentNumbers due failAt = due := by
  obtain ⟨hexhausted, hwrites⟩ := Bool.or_eq_false_iff.mp h
  unfold resentNumbers
  rw [if_neg (by rw [hexhausted]; decide)]
  cases failAt with
  | none => rfl
  | some k =>
      have hlength := congrArg List.length (packets_retransmitScan hnodup hmem hexhausted)
      rw [List.length_map] at hlength
      have hall : due.length ≤ k := by
        rw [← hlength]
        exact not_lt.mp (of_decide_eq_false hwrites)
      exact List.take_of_length_le hall

theorem resentNumbers_subset {s : UdpSession} {due : List Nat} {failAt : Option Nat} {seq : Nat}
    (h : seq ∈ s.resentNumbers due failAt) :
    seq ∈ due ∧ (retransmitScan due s.pending).2.2 = false := by
  unfold resentNumbers at h
  split at h
  · cases h
  · rename_i hexhausted
    refine ⟨?_, Bool.not_eq_true _ ▸ hexhausted⟩
    cases failAt with
    | none => exact h
    | some k => exact List.mem_of_mem_take h

/-- Other steps than the insertion and the resend of a datagram only forget. -/
theorem lookup_pending_apply {C : Crypto} {s : UdpSession} {e : UdpEvent} (he : s.enabled e)
    (hinsert : ∀ seq packet, e ≠ .sendInsert seq packet)
    (hresend : ∀ due failAt, e ≠ .retransmit due failAt) {seq : Nat} {item : PendingDatagram}
    (h : Finmap.lookup seq (s.apply C e).pending = some item) :
    Finmap.lookup seq s.pending = some item := by
  have herase : ∀ k, Finmap.lookup seq (s.pending.erase k) = some item →
      Finmap.lookup seq s.pending = some item := by
    intro k hk
    rw [Table.lookup_erase_eq] at hk
    split at hk
    · cases hk
    · exact hk
  cases e with
  | sendInsert k packet => exact absurd rfl (hinsert k packet)
  | retransmit due failAt => exact absurd rfl (hresend due failAt)
  | packetLoop io =>
      obtain ⟨packet, rest, -, hout⟩ := packetLoop_outcome C he
      generalize s.apply C (.packetLoop io) = t at hout h
      generalize s.acked C (.packetLoop io) = acked at hout
      cases hout with
      | released hv hm => exact herase _ h
      | _ => exact h
  | deliver packet =>
      obtain hd | ⟨-, hd⟩ | hd := deliverPacket_cases s packet <;>
        simpa only [apply, hd] using h
  | sendWrite k packet ok =>
      cases ok with
      | true => exact h
      | false => exact herase k h
  | _ => exact h

end UdpSession

/-! ## The times of an entry -/

/-- What a pending entry and its times keep. -/
structure Paced (S : ClockedSession) (item : PendingDatagram) (last : Nat) (earlier : List Nat) :
    Prop where
  count : earlier.length = item.retries
  recent : S.session.closed = false → S.lastTick < last + udpRetransmitAfter

/-- What the histories of a number keep, also when its entry is gone. A tick that
fails can have counted a resend that it does not write. -/
structure Recorded (delay : Nat) (S : ClockedSession) (seq : Nat) : Prop where
  spaced : Spaced udpRetransmitAfter (udpRetransmitAfter + delay) (S.times seq)
  limit : (S.times seq).length ≤ udpMaxRetries + 1
  past : ∀ t ∈ S.times seq, t ≤ S.now
  sent : ∀ t inserted, S.sentAt seq = some t → (S.times seq).getLast? = some inserted →
    inserted ≤ t
  resent : S.resentAt seq = (S.times seq).dropLast ∨
    S.session.closed = true ∧ S.resentAt seq = (S.times seq).dropLast.tail

/-- Everything a run under a clock keeps. -/
structure ClockOk (delay : Nat) (S : ClockedSession) : Prop where
  tick : S.lastTick ≤ S.now
  soon : S.session.closed = false → S.now ≤ S.lastTick + delay
  paced : ∀ seq item, Finmap.lookup seq S.session.pending = some item →
    ∃ last earlier, S.times seq = last :: earlier ∧ Paced S item last earlier
  recorded : ∀ seq, Recorded delay S seq

theorem pos_udpRetransmitAfter : 0 < udpRetransmitAfter := by decide

namespace Recorded

variable {delay : Nat} {S S' : ClockedSession} {seq : Nat}

/-- A step that leaves the times alone and at most writes for `Send`. -/
theorem of_times (h : Recorded delay S seq) (htimes : S'.times seq = S.times seq)
    (hresent : S'.resentAt seq = S.resentAt seq)
    (hsent : ∀ t, S'.sentAt seq = some t → S.sentAt seq = some t ∨ S.now ≤ t)
    (hnow : S.now ≤ S'.now)
    (hclosed : S'.session.closed = false → S.session.closed = false) :
    Recorded delay S' seq := by
  refine ⟨htimes ▸ h.spaced, htimes ▸ h.limit, ?_, ?_, ?_⟩
  · intro t ht
    rw [htimes] at ht
    exact (h.past t ht).trans hnow
  · intro t inserted ht hfirst
    rw [htimes] at hfirst
    obtain hold | hlate := hsent t ht
    · exact h.sent t inserted hold hfirst
    · exact (h.past inserted (List.mem_of_getLast? hfirst)).trans hlate
  · rw [htimes, hresent]
    refine h.resent.imp_right fun hfailed => ⟨?_, hfailed.2⟩
    by_contra hopen
    exact absurd (hfailed.1.symm.trans (hclosed (Bool.not_eq_true _ ▸ hopen))) (by decide)

theorem length_resent (h : Recorded delay S seq) : (S.resentAt seq).length ≤ udpMaxRetries := by
  have hlimit := h.limit
  obtain hsame | ⟨-, hless⟩ := h.resent
  · rw [hsame, List.length_dropLast]
    omega
  · rw [hless, List.length_tail, List.length_dropLast]
    omega

theorem spaced_resent (h : Recorded delay S seq) :
    Spaced udpRetransmitAfter (udpRetransmitAfter + delay) (S.resentAt seq) := by
  obtain hsame | ⟨-, hless⟩ := h.resent
  · rw [hsame]
    exact h.spaced.dropLast
  · rw [hless]
    exact h.spaced.dropLast.tail

theorem resent_late (h : Recorded delay S seq) {inserted t : Nat}
    (hfirst : (S.times seq).getLast? = some inserted) (ht : t ∈ S.resentAt seq) :
    inserted + udpRetransmitAfter ≤ t := by
  refine h.spaced.first_add_le hfirst ?_
  obtain hsame | ⟨-, hless⟩ := h.resent
  · rwa [hsame] at ht
  · rw [hless] at ht
    exact List.mem_of_mem_tail ht

end Recorded

namespace ClockOk

variable {C : Crypto} {delay : Nat} {S : ClockedSession} {time : Nat}

/-- A datagram is inserted. -/
theorem insert_apply (h : ClockOk delay S) {seq : Nat} {packet : Bytes}
    (he : S.enabled delay ⟨.sendInsert seq packet, time⟩) :
    ClockOk delay (S.apply C ⟨.sendInsert seq packet, time⟩) := by
  obtain ⟨-, htime, hsoon, -⟩ := he
  have htick := h.tick
  refine ⟨htick.trans htime, hsoon, ?_, ?_⟩
  · intro k item hl
    simp only [ClockedSession.apply, UdpSession.apply, UdpSession.timesAfter,
      Table.lookup_insert_eq] at hl ⊢
    by_cases hk : k = seq
    · rw [if_pos hk] at hl ⊢
      obtain rfl := Option.some.inj hl
      have hpos := pos_udpRetransmitAfter
      refine ⟨time, [], rfl, rfl, fun _ => ?_⟩
      simp only [ClockedSession.tickAfter] at htime ⊢
      omega
    · rw [if_neg hk] at hl ⊢
      obtain ⟨last, earlier, ht, hp⟩ := h.paced k item hl
      exact ⟨last, earlier, ht, hp.count, hp.recent⟩
  · intro k
    by_cases hk : k = seq
    · subst hk
      have htimes : (S.apply C ⟨.sendInsert k packet, time⟩).times k = [time] := if_pos rfl
      have hsent : (S.apply C ⟨.sendInsert k packet, time⟩).sentAt k = none := if_pos rfl
      have hresent : (S.apply C ⟨.sendInsert k packet, time⟩).resentAt k = [] := if_pos rfl
      refine ⟨?_, ?_, ?_, ?_, Or.inl ?_⟩
      · rw [htimes]
        exact Spaced.single _ _ _
      · rw [htimes]
        exact Nat.le_add_left _ _
      · intro t ht
        rw [htimes] at ht
        exact (List.mem_singleton.mp ht).le
      · intro t inserted ht
        rw [hsent] at ht
        cases ht
      · rw [htimes, hresent]
        rfl
    · refine (h.recorded k).of_times (if_neg hk) (if_neg hk) (fun t ht => Or.inl ?_) htime id
      simpa only [ClockedSession.apply, ClockedSession.sentAfter, if_neg hk] using ht

/-- The histories at a tick of the numbers that it does not count. -/
theorem uncounted (h : ClockOk delay S) {due : List Nat} {failAt : Option Nat} {k : Nat}
    (htime : S.now ≤ time) (hopen : S.session.closed = false)
    (hsame : Finmap.lookup k (UdpSession.retransmitScan due S.session.pending).1 =
      Finmap.lookup k S.session.pending)
    (hunwritten : k ∉ S.session.resentNumbers due failAt) :
    Recorded delay (S.apply C ⟨.retransmit due failAt, time⟩) k :=
  (h.recorded k).of_times (if_pos hsame) (if_neg hunwritten) (fun _ ht => Or.inl ht) htime
    fun _ => hopen

/-- The histories at a tick of a number that it counts. -/
theorem counted (h : ClockOk delay S) {due : List Nat} {failAt : Option Nat} {k : Nat}
    {last : Nat} {earlier : List Nat} (htime : S.now ≤ time) (hopen : S.session.closed = false)
    (hdue : due.Nodup ∧ ∀ seq ∈ due, seq ∈ S.session.pending) (hk : k ∈ due)
    (hchanged : Finmap.lookup k (UdpSession.retransmitScan due S.session.pending).1 ≠
      Finmap.lookup k S.session.pending)
    (ht : S.times k = last :: earlier) (hfew : earlier.length < udpMaxRetries)
    (hlate : last + udpRetransmitAfter ≤ time)
    (hsoon : time < last + (udpRetransmitAfter + delay)) :
    Recorded delay (S.apply C ⟨.retransmit due failAt, time⟩) k := by
  have hold := h.recorded k
  have htimes : (S.apply C ⟨.retransmit due failAt, time⟩).times k = time :: last :: earlier :=
    (if_neg hchanged).trans (congrArg (time :: ·) ht)
  -- the session was open, so all resends counted so far were written
  have hresent : S.resentAt k = (last :: earlier).dropLast := by
    obtain hsame | ⟨hclosed, -⟩ := hold.resent
    · rwa [ht] at hsame
    · exact absurd (hopen.symm.trans hclosed) (by decide)
  refine ⟨?_, ?_, ?_, ?_, ?_⟩
  · rw [htimes]
    exact Spaced.cons (ht ▸ hold.spaced) hlate hsoon
  · rw [htimes, List.length_cons, List.length_cons]
    omega
  · intro t hmem
    rw [htimes] at hmem
    obtain rfl | hmem := List.mem_cons.mp hmem
    · exact le_rfl
    · exact (hold.past t (ht ▸ hmem)).trans htime
  · intro t inserted hsent hfirst
    rw [htimes, List.getLast?_cons_cons, ← ht] at hfirst
    exact hold.sent t inserted hsent hfirst
  · rw [htimes, List.dropLast_cons_cons, ← hresent]
    by_cases hwritten : k ∈ S.session.resentNumbers due failAt
    · exact Or.inl (if_pos hwritten)
    · refine Or.inr ⟨?_, if_neg hwritten⟩
      have hfails : S.session.tickFails due failAt = true := by
        by_contra hsucceeds
        have hall := UdpSession.resentNumbers_of_succeeds hdue.1 hdue.2
          (Bool.not_eq_true _ ▸ hsucceeds)
        rw [hall] at hwritten
        exact hwritten hk
      show (S.session.closed || S.session.tickFails due failAt) = true
      rw [hfails, Bool.or_true]

/-- A tick resends what is due. -/
theorem resend_apply (h : ClockOk delay S) {due : List Nat} {failAt : Option Nat}
    (he : S.enabled delay ⟨.retransmit due failAt, time⟩) :
    ClockOk delay (S.apply C ⟨.retransmit due failAt, time⟩) := by
  obtain ⟨hopen, htime, hsoon, hnodup, hdue⟩ := he
  simp only at htime hdue hnodup
  have hsoon' : time ≤ S.lastTick + delay := hsoon hopen
  have hpending : ∀ seq ∈ due, seq ∈ S.session.pending := fun seq hseq => ((hdue seq).mp hseq).1
  have hpos := pos_udpRetransmitAfter
  refine ⟨le_rfl, fun _ => Nat.le_add_right _ _, ?_, ?_⟩
  · intro k item hl
    -- The entry was pending before, under the same number.
    obtain ⟨old, hold⟩ : ∃ old, Finmap.lookup k S.session.pending = some old := by
      have hmem : k ∈ (UdpSession.retransmitScan due S.session.pending).1 :=
        Finmap.mem_of_lookup_eq_some hl
      exact Finmap.mem_iff.mp ((UdpSession.mem_retransmitScan due _ k).mp hmem)
    obtain ⟨last, earlier, ht, hp⟩ := h.paced k old hold
    simp only [ClockedSession.apply, UdpSession.apply, UdpSession.timesAfter,
      ClockedSession.tickAfter] at hl ⊢
    by_cases hk : k ∈ due
    · obtain ⟨hsame, hexhausted⟩ | ⟨hnext, -⟩ := UdpSession.lookup_retransmitScan hnodup hk hold
      · -- The session gives up.
        obtain rfl := Option.some.inj (hsame.symm.trans hl)
        rw [if_pos (hsame.trans hold.symm)]
        refine ⟨last, earlier, ht, hp.count, ?_⟩
        intro hstill
        simp [UdpSession.tickFails, hexhausted] at hstill
      · obtain rfl := Option.some.inj (hnext.symm.trans hl)
        rw [if_neg (UdpSession.lookup_ne_of_counted hnext hold), ht]
        exact ⟨time, last :: earlier, rfl, congrArg (· + 1) hp.count,
          fun _ => Nat.lt_add_of_pos_right hpos⟩
    · have hsame := @UdpSession.lookup_retransmitScan_of_notMem _ S.session.pending _ hk
      rw [if_pos hsame]
      obtain rfl := Option.some.inj ((hsame.symm.trans hl).symm.trans hold)
      refine ⟨last, earlier, ht, hp.count, fun _ => ?_⟩
      have hnot : ¬ UdpSession.IsDue S.times time k := by
        intro hd
        exact hk ((hdue k).mpr ⟨Finmap.mem_of_lookup_eq_some hold, hd⟩)
      rw [UdpSession.IsDue, ht, List.headD_cons] at hnot
      simp only
      omega
  · intro k
    by_cases hk : k ∈ due
    · obtain ⟨old, hold⟩ := Finmap.mem_iff.mp (hpending k hk)
      obtain ⟨last, earlier, ht, hp⟩ := h.paced k old hold
      obtain ⟨hsame, hexhausted⟩ | ⟨hnext, hretries⟩ :=
        UdpSession.lookup_retransmitScan hnodup hk hold
      · refine h.uncounted htime hopen (hsame.trans hold.symm) fun hwritten => ?_
        have hnone := (UdpSession.resentNumbers_subset hwritten).2
        exact absurd (hnone.symm.trans hexhausted) (by decide)
      · have htest := ((hdue k).mp hk).2
        rw [UdpSession.IsDue, ht, List.headD_cons] at htest
        have hrecent := hp.recent hopen
        exact h.counted htime hopen ⟨hnodup, hpending⟩ hk
          (UdpSession.lookup_ne_of_counted hnext hold) ht (hp.count.trans_lt hretries) (by omega)
          (by omega)
    · exact h.uncounted htime hopen (UdpSession.lookup_retransmitScan_of_notMem hk)
        fun hwritten => hk (UdpSession.resentNumbers_subset hwritten).1

/-- The other steps leave the times alone. -/
theorem other_apply (h : ClockOk delay S) {e : UdpEvent} (he : S.enabled delay ⟨e, time⟩)
    (hinsert : ∀ seq packet, e ≠ .sendInsert seq packet)
    (hresend : ∀ due failAt, e ≠ .retransmit due failAt) :
    ClockOk delay (S.apply C ⟨e, time⟩) := by
  obtain ⟨hen, htime, hsoon, -⟩ := he
  have htick := h.tick
  have hlast : S.tickAfter ⟨e, time⟩ = S.lastTick := by
    cases e with
    | retransmit due failAt => exact absurd rfl (hresend due failAt)
    | _ => rfl
  have htimes : S.session.timesAfter S.times time e = S.times := by
    funext seq
    cases e with
    | retransmit due failAt => exact absurd rfl (hresend due failAt)
    | sendInsert k packet => exact absurd rfl (hinsert k packet)
    | _ => rfl
  have hresent : S.resentAfter ⟨e, time⟩ = S.resentAt := by
    funext seq
    cases e with
    | retransmit due failAt => exact absurd rfl (hresend due failAt)
    | sendInsert k packet => exact absurd rfl (hinsert k packet)
    | _ => rfl
  have hsent : ∀ seq t, S.sentAfter ⟨e, time⟩ seq = some t →
      S.sentAt seq = some t ∨ S.now ≤ t := by
    intro seq t ht
    cases e with
    | sendInsert k packet => exact absurd rfl (hinsert k packet)
    | sendWrite k packet ok =>
        cases ok with
        | false => exact Or.inl ht
        | true =>
            simp only [ClockedSession.sentAfter] at ht
            split at ht
            · obtain rfl := Option.some.inj ht
              exact Or.inr htime
            · exact Or.inl ht
    | _ => exact Or.inl ht
  refine ⟨?_, ?_, ?_, ?_⟩
  · simp only [ClockedSession.apply, hlast]
    exact htick.trans htime
  · intro hopen
    simp only [ClockedSession.apply, hlast]
    exact hsoon (UdpSession.closed_of_apply hen hopen)
  · intro seq item hl
    obtain ⟨last, earlier, ht, hp⟩ :=
      h.paced seq item (UdpSession.lookup_pending_apply hen hinsert hresend hl)
    refine ⟨last, earlier, ?_, hp.count, ?_⟩
    · simp only [ClockedSession.apply, htimes, ht]
    · intro hopen
      simp only [ClockedSession.apply, hlast]
      exact hp.recent (UdpSession.closed_of_apply hen hopen)
  · intro seq
    exact (h.recorded seq).of_times (congrFun htimes seq) (congrFun hresent seq) (hsent seq) htime
      fun hopen => UdpSession.closed_of_apply hen hopen

theorem apply (h : ClockOk delay S) {e : ClockedEvent} (he : S.enabled delay e) :
    ClockOk delay (S.apply C e) := by
  obtain ⟨e, time⟩ := e
  cases e with
  | sendInsert seq packet => exact h.insert_apply he
  | retransmit due failAt => exact h.resend_apply he
  | _ => exact h.other_apply he (fun _ _ hc => by cases hc) (fun _ _ hc => by cases hc)

end ClockOk

theorem clockOk_of_reachable {C : Crypto} {delay : Nat} {S : ClockedSession}
    (run : (clockedMachine C delay).Reachable S) : ClockOk delay S := by
  apply run.invariant
  · rintro S ⟨sessionID, sendKey, recvKey, sendACK, recvACK, now, rfl⟩
    refine ⟨le_rfl, fun _ => Nat.le_add_right _ _, ?_, fun seq => ?_⟩
    · intro seq item hl
      simp [ClockedSession.start, newUDPSession] at hl
    · refine ⟨List.isChain_nil, Nat.zero_le _, ?_, ?_, Or.inl rfl⟩
      · intro t ht
        cases ht
      · intro t inserted ht
        cases ht
  · intro S e h he
    exact h.apply he

/-- Whatever the peer and the network do, the ticks that resend a datagram are at
least `udpRetransmitAfter` apart, at most `udpMaxRetries` of them, and the first is
as long after the datagram was entered; `Send` writes it after it was entered, at no
fixed distance from the resends. A tick writes the packets of the entries that are
due, in an open session each time one is counted. While the session is open every
unacknowledged datagram is younger than the retries can last, and a tick gives the
peer up only at a datagram that is as old as the retries take. -/
theorem retransmission_paced (C : Crypto) (delay : Nat) (S : ClockedSession)
    (run : (clockedMachine C delay).Reachable S) :
    (∀ seq, (S.resentAt seq).length ≤ udpMaxRetries ∧
      Spaced udpRetransmitAfter (udpRetransmitAfter + delay) (S.resentAt seq) ∧
      ∀ inserted, (S.times seq).getLast? = some inserted →
        (∀ t, S.sentAt seq = some t → inserted ≤ t) ∧
        ∀ t ∈ S.resentAt seq, inserted + udpRetransmitAfter ≤ t) ∧
    (∀ seq item, Finmap.lookup seq S.session.pending = some item →
      ∃ inserted, (S.times seq).getLast? = some inserted ∧
        (S.times seq).length = item.retries + 1 ∧ item.retries ≤ udpMaxRetries ∧
        Spaced udpRetransmitAfter (udpRetransmitAfter + delay) (S.times seq) ∧
        (S.session.closed = false → S.resentAt seq = (S.times seq).dropLast ∧
          S.now < inserted + (udpMaxRetries + 1) * (udpRetransmitAfter + delay))) ∧
    (∀ due failAt time, S.enabled delay ⟨.retransmit due failAt, time⟩ →
      S.session.written C (.retransmit due failAt) =
        (S.session.resentNumbers due failAt).map S.session.pendingPacket ∧
      ((UdpSession.retransmitScan due S.session.pending).2.2 = true →
        ∃ seq inserted, seq ∈ S.session.pending ∧ (S.times seq).getLast? = some inserted ∧
          inserted + (udpMaxRetries + 1) * udpRetransmitAfter ≤ time)) := by
  have h := clockOk_of_reachable run
  refine ⟨fun seq => ?_, fun seq item hl => ?_, fun due failAt time he => ?_⟩
  · have hseq := h.recorded seq
    exact ⟨hseq.length_resent, hseq.spaced_resent, fun inserted hfirst =>
      ⟨fun t ht => hseq.sent t inserted ht hfirst, fun t ht => hseq.resent_late hfirst ht⟩⟩
  · obtain ⟨last, earlier, ht, hp⟩ := h.paced seq item hl
    have hseq := h.recorded seq
    have hcount : (S.times seq).length = item.retries + 1 := by
      rw [ht, List.length_cons, hp.count]
    have hlimit : item.retries ≤ udpMaxRetries := by
      have htotal := hseq.limit
      omega
    obtain ⟨inserted, hfirst⟩ : ∃ inserted, (last :: earlier).getLast? = some inserted :=
      ⟨_, List.getLast?_eq_some_getLast (List.cons_ne_nil _ _)⟩
    refine ⟨inserted, ht ▸ hfirst, hcount, hlimit, hseq.spaced, fun hopen => ⟨?_, ?_⟩⟩
    · obtain hsame | ⟨hclosed, -⟩ := hseq.resent
      · exact hsame
      · exact absurd (hopen.symm.trans hclosed) (by decide)
    · have hage := (Spaced.first_newest (ht ▸ hseq.spaced) hfirst).2
      have hlong : earlier.length * (udpRetransmitAfter + delay) ≤
          udpMaxRetries * (udpRetransmitAfter + delay) :=
        Nat.mul_le_mul_right _ (hp.count.trans_le hlimit)
      have hrecent := hp.recent hopen
      have hsoon := h.soon hopen
      rw [Nat.succ_mul]
      omega
  · obtain ⟨-, -, -, hnodup, hdue⟩ := he
    refine ⟨UdpSession.resent_eq failAt hnodup fun seq hseq => ((hdue seq).mp hseq).1,
      fun hexhausted => ?_⟩
    obtain ⟨seq, item, hmem, hl, hretries⟩ :=
      UdpSession.exhausted_of_retransmitScan hnodup hexhausted
    obtain ⟨last, earlier, ht, hp⟩ := h.paced seq item hl
    obtain ⟨inserted, hfirst⟩ : ∃ inserted, (last :: earlier).getLast? = some inserted :=
      ⟨_, List.getLast?_eq_some_getLast (List.cons_ne_nil _ _)⟩
    refine ⟨seq, inserted, Finmap.mem_of_lookup_eq_some hl, by rw [ht]; exact hfirst, ?_⟩
    have hlate : udpRetransmitAfter ≤ time - last := by
      have htest := ((hdue seq).mp hmem).2
      rwa [UdpSession.IsDue, ht, List.headD_cons] at htest
    have hage := (Spaced.first_newest (ht ▸ (h.recorded seq).spaced) hfirst).1
    have hlong : udpMaxRetries * udpRetransmitAfter ≤ earlier.length * udpRetransmitAfter :=
      Nat.mul_le_mul_right _ (hretries.trans_eq hp.count.symm)
    have hpos := pos_udpRetransmitAfter
    rw [Nat.succ_mul]
    omega

/-- The first datagram of a session is entered, resent by a tick, and only then
written by `Send`. -/
def resentFirst : List ClockedEvent :=
  let packet := (newUDPSession 7 [1] [2] [3] [4]).dataPacket Crypto.sum 1 [0]
  [⟨.sendCheck [0], 0⟩, ⟨.sendAcquire [0], 0⟩, ⟨.sendSeal [0], 0⟩, ⟨.sendInsert 1 packet, 0⟩,
    ⟨.retransmit [1] none, 400 * 10 ^ 6⟩, ⟨.sendWrite 1 packet true, 400 * 10 ^ 6⟩]

theorem retransmission_paced_first :
    ∃ S, (clockedMachine Crypto.sum (400 * 10 ^ 6)).Reachable S ∧ S.session.closed = false ∧
      S.sentAt 1 = some (400 * 10 ^ 6) ∧ S.resentAt 1 = [400 * 10 ^ 6] ∧
      S.now < (udpMaxRetries + 1) * (udpRetransmitAfter + 400 * 10 ^ 6) := by
  have start : (clockedMachine Crypto.sum (400 * 10 ^ 6)).Reachable
      (.start (newUDPSession 7 [1] [2] [3] [4]) 0) :=
    .start ⟨7, [1], [2], [3], [4], 0, rfl⟩
  have run := start.run resentFirst (by
    refine ⟨⟨⟨rfl, by decide⟩, le_rfl, fun _ => by decide, trivial⟩, trivial,
      ⟨⟨?_, by decide⟩, le_rfl, fun _ => by decide, trivial⟩, trivial,
      ⟨⟨?_, by decide⟩, le_rfl, fun _ => by decide, trivial⟩, trivial,
      ⟨?_, le_rfl, fun _ => by decide, trivial⟩, trivial,
      ⟨rfl, by decide, fun _ => by decide, by decide, ?_⟩, trivial,
      ⟨?_, le_rfl, fun _ => by decide, trivial⟩, trivial, trivial⟩
    · exact List.mem_singleton_self _
    · exact List.mem_singleton_self _
    · exact List.mem_singleton_self _
    · intro seq
      have hpending : ∀ packet : Bytes,
          seq ∈ (∅ : Table Nat PendingDatagram).insert 1 ⟨packet, 0⟩ ↔ seq = 1 := by
        intro packet
        rw [Finmap.mem_insert]
        exact or_iff_left Finmap.notMem_empty
      constructor
      · intro hseq
        obtain rfl := List.mem_singleton.mp hseq
        exact ⟨(hpending _).mpr rfl, by show 350 * 10 ^ 6 ≤ 400 * 10 ^ 6 - 0; decide⟩
      · rintro ⟨hmem, -⟩
        exact List.mem_singleton.mpr ((hpending _).mp hmem)
    · exact List.mem_singleton_self _)
  let S := resentFirst.foldl (clockedMachine Crypto.sum (400 * 10 ^ 6)).apply
    (.start (newUDPSession 7 [1] [2] [3] [4]) 0)
  have hopen : S.session.closed = false := by decide +kernel
  have hsent : S.sentAt 1 = some (400 * 10 ^ 6) := by decide +kernel
  have htimes : S.times 1 = [400 * 10 ^ 6, 0] := by decide +kernel
  have hpending : ∃ item, Finmap.lookup 1 S.session.pending = some item :=
    ⟨_, rfl⟩
  obtain ⟨item, hl⟩ := hpending
  obtain ⟨inserted, hfirst, -, -, -, hyoung⟩ :=
    (retransmission_paced Crypto.sum (400 * 10 ^ 6) S run).2.1 1 item hl
  obtain ⟨hresent, hnow⟩ := hyoung hopen
  rw [htimes] at hfirst hresent
  obtain rfl : 0 = inserted := Option.some.inj hfirst
  rw [Nat.zero_add] at hnow
  exact ⟨S, run, hopen, hsent, hresent, hnow⟩

end UnknownTunnel.Transport

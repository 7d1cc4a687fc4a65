import UnknownTunnel.Transport.UdpServerSteps

/-!
# The session tables of the UDP server

The three tables are kept consistent by every step, and a session that has
passed its confirmation is closed or dropped from the index only when it has
finished, when the server shuts down, or when another session from the same
remote address has received the client's confirmation under its own keys.

## Implementation notes

A step changes a session object and the tables independently, so the
invariant is split into a part about single objects, which follows them
through the confirmation, and a part about the tables.
-/

namespace UnknownTunnel.Transport

open Foundation

namespace ServerSession

variable (C : Crypto)

/-- A delivered datagram carries a number and opens to a payload. -/
def Opened (o : ServerSession) (seq : Nat) (plaintext : Bytes) : Prop :=
  ∃ packet ∈ o.delivered, udpSeq packet = seq ∧ o.session.OpensData C packet plaintext

/-- A delivered datagram opens to the client's confirmation under the
session's own key. -/
def ReceivedConfirm (o : ServerSession) : Prop :=
  ∃ packet ∈ o.delivered, o.session.OpensData C packet clientConfirm

/-- Everything a session object holds came from datagrams delivered to it. -/
structure Authentic (o : ServerSession) : Prop where
  queued : ∀ packet ∈ o.session.packetCh, packet ∈ o.delivered
  sourced : o.session.recv.Sourced (o.Opened C)
  received : o.confirm.received = true → o.ReceivedConfirm C

variable {C} {o o' : ServerSession}

/-- An object that only gains datagrams stays authentic. -/
theorem Authentic.evolve (hid : o'.session.identity = o.session.identity)
    (hdel : ∀ packet ∈ o.delivered, packet ∈ o'.delivered)
    (hq : ∀ packet ∈ o'.session.packetCh, packet ∈ o'.delivered)
    (hr : o'.session.recv.Sourced (o.Opened C))
    (hc : o'.confirm.received = true → o.ReceivedConfirm C) : o'.Authentic C := by
  simp only [UdpSession.identity, Prod.mk.injEq] at hid
  obtain ⟨-, -, hkey, -, -⟩ := hid
  have hopen : ∀ packet plaintext, o.session.OpensData C packet plaintext →
      o'.session.OpensData C packet plaintext := by
    intro packet plaintext ho
    rw [UdpSession.OpensData, hkey]
    exact ho
  refine ⟨hq, hr.mono ?_, ?_⟩
  · rintro seq plaintext ⟨packet, hmem, hseq, ho⟩
    exact ⟨packet, hdel packet hmem, hseq, hopen packet plaintext ho⟩
  · intro hrec
    obtain ⟨packet, hmem, ho⟩ := hc hrec
    exact ⟨packet, hdel packet hmem, hopen packet clientConfirm ho⟩

/-- A step that leaves the session and its datagrams alone. -/
theorem Authentic.move (h : o.Authentic C) {reaper : ReaperState} {confirm : ConfirmState}
    (hc : confirm.received = true → o.confirm.received = true) :
    ({ o with reaper := reaper, confirm := confirm } : ServerSession).Authentic C :=
  ⟨h.queued, h.sourced, fun hrec => h.received (hc hrec)⟩

theorem Authentic.close (h : o.Authentic C) : o.close.Authentic C :=
  ⟨h.queued, h.sourced, h.received⟩

theorem Authentic.deliver (h : o.Authentic C) (packet : Bytes) :
    (o.deliver packet).Authentic C := by
  have hmore : ∀ p ∈ o.delivered, p ∈ (o.deliver packet).delivered :=
    fun p hp => List.mem_append_left _ hp
  have hlast : packet ∈ (o.deliver packet).delivered :=
    List.mem_append_right _ (List.mem_singleton_self _)
  rcases UdpSession.deliverPacket_cases o.session packet with hd | ⟨-, hd⟩ | hd
  · refine Authentic.evolve (o := o) ?_ hmore ?_ ?_ h.received
    · simp only [ServerSession.deliver, hd]
    · simp only [ServerSession.deliver, hd]
      exact fun p hp => hmore p (h.queued p hp)
    · simp only [ServerSession.deliver, hd]
      exact h.sourced
  · refine Authentic.evolve (o := o) ?_ hmore ?_ ?_ h.received
    · simp only [ServerSession.deliver, hd]
      rfl
    · intro p hp
      simp only [ServerSession.deliver, hd, List.mem_append, List.mem_singleton] at hp
      rcases hp with hp | rfl
      · exact hmore p (h.queued p hp)
      · exact hlast
    · simp only [ServerSession.deliver, hd]
      exact h.sourced
  · refine Authentic.evolve (o := o) ?_ hmore ?_ ?_ h.received
    · simp only [ServerSession.deliver, hd]
      rfl
    · simp only [ServerSession.deliver, hd]
      exact fun p hp => hmore p (h.queued p hp)
    · simp only [ServerSession.deliver, hd]
      exact h.sourced

/-- A payload that was received first has the number one. -/
theorem Authentic.head (h : o.Authentic C)
    (hd : o.session.recv.output.head? = some clientConfirm) : o.ReceivedConfirm C := by
  rw [List.head?_eq_getElem?] at hd
  obtain ⟨packet, hmem, -, ho⟩ := h.sourced.output 0 _ hd
  exact ⟨packet, hmem, ho⟩

theorem Authentic.receiveConfirm (h : o.Authentic C) : (o.receiveConfirm C).Authentic C := by
  rw [ServerSession.receiveConfirm]
  split
  · rename_i hd
    split
    · exact h.move (by simp [ConfirmState.received])
    · exact ⟨h.queued, h.sourced, fun _ => h.head hd⟩
  · exact h.move (by simp [ConfirmState.received])

theorem Authentic.step (h : o.Authentic C) {e : UdpEvent} (he : o.session.enabled e)
    (hm : o.MayStep e) : (o.step C e).Authentic C := by
  refine Authentic.evolve (o := o) (UdpSession.apply_identity he) (fun _ hp => hp) ?_ ?_ ?_
  · intro packet hp
    rcases UdpSession.mem_packetCh_apply he hp with hp | rfl
    · exact h.queued packet hp
    · exact hm.elim
  · rcases UdpSession.apply_recv (C := C) he with hr | ⟨io, packet, plaintext, -, hmem, ho, hr⟩
    · simp only [ServerSession.step, hr]
      exact h.sourced
    · simp only [ServerSession.step, hr]
      exact h.sourced.accept ⟨packet, h.queued packet hmem, rfl, ho⟩
  · exact fun hrec => h.received (UdpServer.received_confirmAfter hrec)

end ServerSession

namespace UdpServer

variable {C : Crypto} {cfg : NodeConfig} {S : UdpServer} {e : ServerEvent}

theorem authentic_objectAfter (he : S.enabled e) {j : Nat} {o : ServerSession}
    (ho : S.objects[j]? = some o) (h : o.Authentic C) : (S.objectAfter C e j o).Authentic C := by
  refine objectAfter_induction (motive := ServerSession.Authentic C) he ho ?_ ?_
  · intro p hp
    cases hp with
    | stay => exact h
    | delivered packet => exact h.deliver packet
    | started => exact h.move nofun
    | reaped => exact h.move id
    | received => exact h.receiveConfirm
    | timedOut => exact h.move nofun
    | committed _ hc => exact h.move fun _ => by rw [hc]; rfl
    | failed => exact h.move nofun
    | exposing old hc => exact h.move fun _ => by rw [hc]; rfl
    | exposed hc => exact h.move fun _ => by rw [hc]; rfl
    | stepped ev _ hen hm => exact h.step hen hm
  · intro p hp
    exact hp.close

/-- The consistency of the tables. -/
structure TablesOk (S : UdpServer) : Prop where
  keys : ∀ id, id ∈ S.sessions ↔ id ∈ S.sessionRemote
  entry : ∀ id i, Finmap.lookup id S.sessions = some i →
    ∃ o, S.objects[i]? = some o ∧ o.sessionID = id ∧
      Finmap.lookup id S.sessionRemote = some o.remote
  index : ∀ r id, Finmap.lookup r S.byRemote = some id →
    id ∈ S.sessions ∧ Finmap.lookup id S.sessionRemote = some r
  bound : S.sessions.size ≤ maxUDPSessions
  room : ∀ remote hello, S.reader = .hello remote hello → S.sessions.size < maxUDPSessions

theorem TablesOk.start : TablesOk UdpServer.start where
  keys := by
    intro id
    rfl
  entry := by
    intro id i h
    simp [UdpServer.start] at h
  index := by
    intro r id h
    simp [UdpServer.start] at h
  bound := by simp [UdpServer.start]
  room := by
    intro remote hello h
    cases h

/-- An entry keeps pointing to its object. -/
theorem entry_apply (C : Crypto) (cfg : NodeConfig) (he : S.enabled e) {id i : Nat} {r : Bytes}
    (h : ∃ o, S.objects[i]? = some o ∧ o.sessionID = id ∧ r = o.remote) :
    ∃ o, (S.apply C cfg e).objects[i]? = some o ∧ o.sessionID = id ∧ r = o.remote := by
  obtain ⟨o, ho, hid, hr⟩ := h
  have horigin := origin_objectAfter C he ho
  simp only [origin, Prod.mk.injEq] at horigin
  obtain ⟨hsid, hremote, -⟩ := horigin
  exact ⟨_, object_apply_of C cfg he ho, hsid.trans hid, hr.trans hremote.symm⟩

/-- The address of an entry is that of its object. -/
theorem TablesOk.remote_of (h : TablesOk S) {id i : Nat} {o : ServerSession}
    (hi : Finmap.lookup id S.sessions = some i) (ho : S.objects[i]? = some o) :
    Finmap.lookup id S.sessionRemote = some o.remote := by
  obtain ⟨p, hp, -, hremote⟩ := h.entry id i hi
  obtain rfl : p = o := Option.some.inj (hp.symm.trans ho)
  exact hremote

/-- Reaping a session leaves no address that leads to it. -/
theorem TablesOk.index_reaped (h : TablesOk S) {i : Nat} {o : ServerSession}
    (ho : S.objects[i]? = some o) (hi : Finmap.lookup o.sessionID S.sessions = some i)
    {r : Bytes} {id : Nat}
    (hid : Finmap.lookup r (if Finmap.lookup o.remote S.byRemote = some o.sessionID then
      S.byRemote.erase o.remote else S.byRemote) = some id) :
    Finmap.lookup r S.byRemote = some id ∧ id ≠ o.sessionID := by
  have hremote : Finmap.lookup r S.byRemote = some o.sessionID → r = o.remote := fun hr =>
    Option.some.inj ((h.index r _ hr).2.symm.trans (h.remote_of hi ho))
  split at hid
  · rw [Table.lookup_erase_eq] at hid
    split at hid
    · cases hid
    · rename_i hne
      refine ⟨hid, ?_⟩
      rintro rfl
      exact hne (hremote hid)
  · rename_i hnot
    refine ⟨hid, ?_⟩
    rintro rfl
    exact hnot (hremote hid ▸ hid)

theorem TablesOk.apply (h : TablesOk S) (he : S.enabled e) : TablesOk (S.apply C cfg e) := by
  have hentry : ∀ id i, Finmap.lookup id S.sessions = some i →
      ∃ o, (S.apply C cfg e).objects[i]? = some o ∧ o.sessionID = id ∧
        Finmap.lookup id S.sessionRemote = some o.remote := by
    intro id i hi
    obtain ⟨o, ho, hid, hr⟩ := h.entry id i hi
    obtain ⟨o', ho', hid', hr'⟩ := entry_apply C cfg he ⟨o, ho, hid, rfl⟩
    exact ⟨o', ho', hid', by rw [hr, hr']⟩
  have hroom : ∀ remote hello, (S.apply C cfg e).reader = .hello remote hello →
      S.sessions.size < maxUDPSessions := by
    intro remote hello hr
    rcases reader_hello_apply he hr with hold | hlt
    · exact h.room remote hello hold
    · exact hlt
  cases tables_apply C cfg he with
  | same hs hr hb =>
      refine ⟨?_, ?_, ?_, ?_, ?_⟩
      · rw [hs, hr]
        exact h.keys
      · rw [hs, hr]
        exact hentry
      · rw [hs, hr, hb]
        exact h.index
      · rw [hs]
        exact h.bound
      · rw [hs]
        exact hroom
  | registered sessionID remote o hello hreader hfresh ho hid hremote hreader' hs hr hb =>
      refine ⟨?_, ?_, ?_, ?_, ?_⟩
      · intro id
        rw [hs, hr, Finmap.mem_insert, Finmap.mem_insert, h.keys id]
      · intro id i hi
        rw [hs, Table.lookup_insert_eq] at hi
        rw [hr, Table.lookup_insert_eq]
        split at hi
        · rename_i hsame
          cases hi
          exact ⟨o, ho, hid.trans hsame.symm, by rw [if_pos hsame, hremote]⟩
        · rename_i hne
          obtain ⟨p, hp, hpid, hpr⟩ := hentry id i hi
          exact ⟨p, hp, hpid, by rw [if_neg hne, hpr]⟩
      · intro r id hi
        rw [hb] at hi
        obtain ⟨hmem, hrem⟩ := h.index r id hi
        have hne : id ≠ sessionID := fun heq => hfresh (heq ▸ hmem)
        rw [hs, hr, Table.lookup_insert_eq, if_neg hne]
        exact ⟨Finmap.mem_insert.mpr (Or.inr hmem), hrem⟩
      · rw [hs, Table.size_insert_of_notMem hfresh]
        exact h.room remote hello hreader
      · intro r hello' hr'
        rw [hreader'] at hr'
        cases hr'
  | reaped i o ho hclosed hi hs hr hb =>
      refine ⟨?_, ?_, ?_, ?_, ?_⟩
      · intro id
        rw [hs, hr, Finmap.mem_erase, Finmap.mem_erase, h.keys id]
      · intro id k hk
        rw [hs, Table.lookup_erase_eq] at hk
        split at hk
        · cases hk
        · rename_i hne
          rw [hr, Table.lookup_erase_eq, if_neg hne]
          exact hentry id k hk
      · intro r id hid
        rw [hb] at hid
        obtain ⟨hold, hne⟩ := h.index_reaped ho hi hid
        obtain ⟨hmem, hrem⟩ := h.index r id hold
        rw [hs, hr, Table.lookup_erase_eq, if_neg hne]
        exact ⟨Finmap.mem_erase.mpr ⟨hne, hmem⟩, hrem⟩
      · rw [hs]
        exact (Table.size_erase_le _ _).trans h.bound
      · intro r hello' hr'
        rw [hs]
        exact (Table.size_erase_le _ _).trans_lt (hroom r hello' hr')
  | committed i o ho hconfirm hi hafter hs hr hb =>
      refine ⟨?_, ?_, ?_, ?_, ?_⟩
      · rw [hs, hr]
        exact h.keys
      · rw [hs, hr]
        exact hentry
      · intro r id hid
        rw [hb, Table.lookup_insert_eq] at hid
        rw [hs, hr]
        split at hid
        · rename_i hsame
          cases hid
          rw [hsame]
          exact ⟨Finmap.mem_of_lookup_eq_some hi, h.remote_of hi ho⟩
        · exact h.index r id hid
      · rw [hs]
        exact h.bound
      · rw [hs]
        exact hroom
  | cleared hshut hs hr hb =>
      refine ⟨?_, ?_, ?_, ?_, ?_⟩
      · intro id
        rw [hs, hr]
        rfl
      · intro id i hi
        rw [hs] at hi
        cases hi
      · intro r id hid
        rw [hb] at hid
        cases hid
      · rw [hs, Table.size_empty]
        exact Nat.zero_le _
      · intro r hello' hr'
        rw [hs, Table.size_empty]
        decide

/-- A shutdown is not undone. -/
theorem shutdown_apply (C : Crypto) (cfg : NodeConfig) (he : S.enabled e)
    (h : S.shutdown ≠ .running) : (S.apply C cfg e).shutdown ≠ .running := by
  cases e with
  | register sessionID serverNonce timestamp =>
      rcases register_cases C cfg S sessionID serverNonce timestamp he.1 with hreg | ⟨_, _, hreg⟩
      · simpa only [apply, control, hreg] using h
      · have hcontrol : S.control C cfg (.register sessionID serverNonce timestamp) = _ :=
          hreg.control
        simpa only [apply, hcontrol] using h
  | reap i =>
      obtain ⟨o, ho, -⟩ := he
      simp only [apply, control, ho, reapTables]
      split <;> exact h
  | confirmCommit i =>
      obtain ⟨o, ho, -⟩ := he
      simp only [apply, control, ho, commitTables]
      split <;> exact h
  | closeStart | closeTables =>
      intro hrunning
      cases hrunning
  | _ => exact h

/-- The entry a goroutine finds under its remote belongs to another session
of that remote. -/
theorem replaced_eq_some (h : TablesOk S) {i : Nat} {o : ServerSession}
    (ho : S.objects[i]? = some o) (hi : Finmap.lookup o.sessionID S.sessions = some i) {j : Nat}
    (hr : S.replaced o = some j) :
    j ≠ i ∧ ∃ p, S.objects[j]? = some p ∧ p.remote = o.remote ∧
      Finmap.lookup o.remote S.byRemote = some p.sessionID ∧
      Finmap.lookup p.sessionID S.sessions = some j := by
  simp only [replaced] at hr
  generalize hk : (Finmap.lookup o.remote S.byRemote).getD 0 = oldID at hr
  split at hr
  · rename_i hold
    have hb : Finmap.lookup o.remote S.byRemote = some oldID := by
      cases hb : Finmap.lookup o.remote S.byRemote with
      | none =>
          rw [hb] at hk
          exact absurd hk.symm hold.1
      | some id =>
          rw [hb] at hk
          exact congrArg some hk
    obtain ⟨p, hp, hpid, hprem⟩ := h.entry _ _ hr
    subst hpid
    refine ⟨?_, p, hp, Option.some.inj (hprem.symm.trans (h.index _ _ hb).2), hb, hr⟩
    rintro rfl
    have hpo : p = o := Option.some.inj (hp.symm.trans ho)
    exact hold.2 (by rw [hpo])
  · cases hr

/-- Everything a run of the server keeps. -/
structure Invariant (C : Crypto) (S : UdpServer) : Prop where
  tables : TablesOk S
  authentic : ∀ (j : Nat) (o : ServerSession), S.objects[j]? = some o → o.Authentic C
  indexed : ∀ (r : Bytes) (id i : Nat) (o : ServerSession),
    Finmap.lookup r S.byRemote = some id → Finmap.lookup id S.sessions = some i →
    S.objects[i]? = some o → o.confirm.indexed = true
  replaced : ∀ (i : Nat) (o : ServerSession) (j : Nat), S.objects[i]? = some o →
    o.confirm = .committed (some j) →
    j ≠ i ∧ ∃ p, S.objects[j]? = some p ∧ p.remote = o.remote ∧ p.confirm.indexed = true
  welcoming : ∀ i, S.reader = .welcoming i → ∃ o, S.objects[i]? = some o ∧ Unstarted o
  tabled : ∀ (j : Nat) (o : ServerSession), S.objects[j]? = some o →
    Finmap.lookup o.sessionID S.sessions = some j ∨ o.session.closed = true ∨
      S.shutdown ≠ .running
  dropped : ∀ (j : Nat) (o : ServerSession), S.objects[j]? = some o → o.confirm = .dropped →
    o.session.closed = true ∨ S.shutdown ≠ .running

namespace Invariant

/-- An object with an index entry is not one whose welcome is being written. -/
theorem not_welcoming (h : Invariant C S) {j : Nat} {o : ServerSession}
    (ho : S.objects[j]? = some o) (hc : o.confirm.indexed = true) : S.reader ≠ .welcoming j := by
  intro hr
  obtain ⟨p, hp, hun⟩ := h.welcoming j hr
  rw [Option.some.inj (hp.symm.trans ho)] at hun
  rw [hun.confirm] at hc
  cases hc

theorem start : Invariant C UdpServer.start where
  tables := TablesOk.start
  authentic := by
    intro j o h
    simp [UdpServer.start] at h
  indexed := by
    intro r id i o h
    simp [UdpServer.start] at h
  replaced := by
    intro i o j h
    simp [UdpServer.start] at h
  welcoming := by
    intro i h
    cases h
  tabled := by
    intro j o h
    simp [UdpServer.start] at h
  dropped := by
    intro j o h
    simp [UdpServer.start] at h

theorem authentic_apply (h : Invariant C S) (he : S.enabled e) {j : Nat} {o' : ServerSession}
    (ho' : (S.apply C cfg e).objects[j]? = some o') : o'.Authentic C := by
  rcases object_apply he ho' with ⟨o, ho, rfl⟩ | ⟨sessionID, remote, -, hreg⟩
  · exact authentic_objectAfter he ho (h.authentic j o ho)
  · obtain ⟨hello, nonce, -, rfl⟩ := hreg.object
    exact ⟨nofun, Resequencer.fresh_sourced _, nofun⟩

/-- An object that has earned its index entry keeps it in mind. -/
theorem indexed_object_apply (h : Invariant C S) (he : S.enabled e) {i : Nat}
    {o o' : ServerSession} (ho : S.objects[i]? = some o) (hc : o.confirm.indexed = true)
    (ho' : (S.apply C cfg e).objects[i]? = some o') : o'.confirm.indexed = true := by
  have hafter := object_apply_of C cfg he ho
  rw [Option.some.inj (ho'.symm.trans hafter)]
  exact indexed_objectAfter he ho (h.not_welcoming ho hc) hc

theorem indexed_apply (h : Invariant C S) (he : S.enabled e) {r : Bytes} {id i : Nat}
    {o' : ServerSession} (hr : Finmap.lookup r (S.apply C cfg e).byRemote = some id)
    (hi : Finmap.lookup id (S.apply C cfg e).sessions = some i)
    (ho' : (S.apply C cfg e).objects[i]? = some o') : o'.confirm.indexed = true := by
  have hold : Finmap.lookup r S.byRemote = some id → Finmap.lookup id S.sessions = some i →
      o'.confirm.indexed = true := by
    intro hr hi
    obtain ⟨o, ho, -⟩ := h.tables.entry id i hi
    exact h.indexed_object_apply he ho (h.indexed r id i o hr hi ho) ho'
  cases tables_apply C cfg he with
  | same hs hrem hb => exact hold (hb ▸ hr) (hs ▸ hi)
  | registered sessionID remote o hello hreader hfresh ho hid hremote hreader' hs hrem hb =>
      rw [hb] at hr
      rw [hs, Table.lookup_insert_eq] at hi
      split at hi
      · rename_i hsame
        exact absurd (hsame ▸ (h.tables.index r id hr).1) hfresh
      · exact hold hr hi
  | reaped k o ho hclosed hentry hs hrem hb =>
      rw [hs, Table.lookup_erase_eq] at hi
      split at hi
      · cases hi
      · rw [hb] at hr
        split at hr
        · rw [Table.lookup_erase_eq] at hr
          split at hr
          · cases hr
          · exact hold hr hi
        · exact hold hr hi
  | committed k o ho hconfirm hentry hafter hs hrem hb =>
      rw [hs] at hi
      rw [hb, Table.lookup_insert_eq] at hr
      split at hr
      · cases hr
        obtain ⟨p, hp, hpc⟩ := hafter
        cases hentry.symm.trans hi
        rw [Option.some.inj (ho'.symm.trans hp)]
        exact hpc
      · exact hold hr hi
  | cleared hshut hs hrem hb =>
      rw [hb] at hr
      cases hr

theorem replaced_apply (h : Invariant C S) (he : S.enabled e) {i j : Nat} {o' : ServerSession}
    (ho' : (S.apply C cfg e).objects[i]? = some o') (hc : o'.confirm = .committed (some j)) :
    j ≠ i ∧ ∃ p, (S.apply C cfg e).objects[j]? = some p ∧ p.remote = o'.remote ∧
      p.confirm.indexed = true := by
  rcases object_apply he ho' with ⟨o, ho, rfl⟩ | ⟨sessionID, remote, -, hreg⟩
  · have hold : j ≠ i ∧ ∃ p, S.objects[j]? = some p ∧ p.remote = o.remote ∧
        p.confirm.indexed = true := by
      rcases committed_objectAfter he ho hc with hc | ⟨hc, hentry, hrep⟩
      · exact h.replaced i o j ho hc
      · obtain ⟨hne, p, hp, hprem, hb, hpe⟩ := replaced_eq_some h.tables ho hentry hrep
        exact ⟨hne, p, hp, hprem, h.indexed _ _ j p hb hpe hp⟩
    obtain ⟨hne, p, hp, hprem, hpc⟩ := hold
    have hp' := object_apply_of C cfg he hp
    have horigin := origin_objectAfter C he ho
    have horigin' := origin_objectAfter C he hp
    simp only [origin, Prod.mk.injEq] at horigin horigin'
    refine ⟨hne, _, hp', ?_, h.indexed_object_apply he hp hpc hp'⟩
    rw [horigin'.2.1, horigin.2.1, hprem]
  · obtain ⟨hello, nonce, -, rfl⟩ := hreg.object
    cases hc

theorem welcoming_apply (h : Invariant C S) (he : S.enabled e) {i : Nat}
    (hr : (S.apply C cfg e).reader = .welcoming i) :
    ∃ o, (S.apply C cfg e).objects[i]? = some o ∧ Unstarted o := by
  rcases reader_welcoming_apply he hr with ⟨hr, hw⟩ | ⟨-, o, ho, hun, -⟩
  · obtain ⟨o, ho, hun⟩ := h.welcoming i hr
    exact ⟨_, object_apply_of C cfg he ho, (hun.objectAfter he ho hr hw).1⟩
  · exact ⟨o, ho, hun⟩

theorem tabled_apply (h : Invariant C S) (he : S.enabled e) {j : Nat} {o' : ServerSession}
    (ho' : (S.apply C cfg e).objects[j]? = some o') :
    Finmap.lookup o'.sessionID (S.apply C cfg e).sessions = some j ∨ o'.session.closed = true ∨
      (S.apply C cfg e).shutdown ≠ .running := by
  rcases object_apply he ho' with ⟨o, ho, rfl⟩ | ⟨sessionID, remote, hj, hreg⟩
  · have horigin := origin_objectAfter C he ho
    simp only [origin, Prod.mk.injEq] at horigin
    rw [horigin.1]
    rcases h.tabled j o ho with hentry | hc | hshut
    · cases tables_apply C cfg he with
      | same hs => exact Or.inl (hs ▸ hentry)
      | registered sessionID remote p hello hreader hfresh hp hid hremote hreader' hs =>
          have hne : o.sessionID ≠ sessionID := by
            rintro rfl
            exact hfresh (Finmap.mem_of_lookup_eq_some hentry)
          exact Or.inl (by rw [hs, Table.lookup_insert_eq, if_neg hne, hentry])
      | reaped i p hp hclosed hi hs =>
          by_cases hsame : o.sessionID = p.sessionID
          · have hij : j = i := Option.some.inj (hentry.symm.trans (hsame ▸ hi))
            subst hij
            rw [Option.some.inj (hp.symm.trans ho)] at hclosed
            exact Or.inr (Or.inl (closed_objectAfter C he ho hclosed))
          · exact Or.inl (by rw [hs, Table.lookup_erase_eq, if_neg hsame, hentry])
      | committed i p hp hc hi hafter hs => exact Or.inl (hs ▸ hentry)
      | cleared hshut =>
          exact Or.inr (Or.inr (shutdown_apply C cfg he (by rw [hshut]; nofun)))
    · exact Or.inr (Or.inl (closed_objectAfter C he ho hc))
    · exact Or.inr (Or.inr (shutdown_apply C cfg he hshut))
  · obtain ⟨hello, nonce, -, rfl⟩ := hreg.object
    left
    have hs : (S.apply C cfg e).sessions = S.sessions.insert sessionID S.objects.length := by
      simp only [UdpServer.apply, hreg.control]
    rw [hs, hj]
    exact Finmap.lookup_insert _

theorem dropped_apply (h : Invariant C S) (he : S.enabled e) {j : Nat} {o' : ServerSession}
    (ho' : (S.apply C cfg e).objects[j]? = some o') (hc : o'.confirm = .dropped) :
    o'.session.closed = true ∨ (S.apply C cfg e).shutdown ≠ .running := by
  rcases object_apply he ho' with ⟨o, ho, rfl⟩ | ⟨sessionID, remote, hj, hreg⟩
  · have hold : o.session.closed = true ∨ S.shutdown ≠ .running := by
      rcases dropped_objectAfter he ho hc with hd | hnot
      · exact h.dropped j o ho hd
      · exact (h.tabled j o ho).resolve_left hnot
    exact hold.imp (closed_objectAfter C he ho) (shutdown_apply C cfg he)
  · obtain ⟨hello, nonce, -, rfl⟩ := hreg.object
    cases hc

theorem apply (h : Invariant C S) (he : S.enabled e) : Invariant C (S.apply C cfg e) where
  tables := h.tables.apply he
  authentic := fun _ _ ho => h.authentic_apply he ho
  indexed := fun _ _ _ _ hr hi ho => h.indexed_apply he hr hi ho
  replaced := fun _ _ _ ho hc => h.replaced_apply he ho hc
  welcoming := fun _ hr => h.welcoming_apply he hr
  tabled := fun _ _ ho => h.tabled_apply he ho
  dropped := fun _ _ ho hc => h.dropped_apply he ho hc

end Invariant

/-- The invariant holds in every state a server reaches. -/
theorem invariant_of_reachable (run : (serverMachine C cfg).Reachable S) : Invariant C S := by
  apply run.invariant
  · rintro S rfl
    exact Invariant.start
  · intro S e h he
    exact h.apply he

/-- The session is in the table and its remote leads to it. -/
def Indexed (S : UdpServer) (j : Nat) (o : ServerSession) : Prop :=
  Finmap.lookup o.sessionID S.sessions = some j ∧
    Finmap.lookup o.remote S.byRemote = some o.sessionID

/-- The reasons for which the server gives up a confirmed session. -/
def Excused (C : Crypto) (S : UdpServer) (j : Nat) (o : ServerSession) : Prop :=
  o.session.closed = true ∨ S.shutdown ≠ .running ∨
    ∃ (k : Nat) (p : ServerSession), k ≠ j ∧ S.objects[k]? = some p ∧ p.remote = o.remote ∧
      p.ReceivedConfirm C

theorem Invariant.excused_of_closes (h : Invariant C S) (he : S.enabled e) {j : Nat}
    {o : ServerSession} (ho : S.objects[j]? = some o) (hc : o.confirm.isConfirmed = true)
    (hcl : S.closes e j o = true) : S.Excused C j o := by
  cases e with
  | welcome ok =>
      cases ok with
      | true => cases hcl
      | false =>
          obtain ⟨p, hp, hun⟩ := h.welcoming j (of_decide_eq_true hcl)
          rw [Option.some.inj (hp.symm.trans ho)] at hun
          rw [hun.confirm] at hc
          cases hc
  | closeSelf i =>
      obtain ⟨p, hp, hpc⟩ := he
      have hij : i = j := of_decide_eq_true hcl
      subst hij
      rw [Option.some.inj (hp.symm.trans ho)] at hpc
      rcases hpc with hpc | hpc
      · rw [hpc] at hc
        cases hc
      · rcases h.dropped i o ho hpc with hclosed | hshut
        · exact Or.inl hclosed
        · exact Or.inr (Or.inl hshut)
  | closeOld i =>
      obtain ⟨p, old, hp, hpc⟩ := he
      simp only [closes, hp] at hcl
      have hold : p.confirm = .committed (some j) := of_decide_eq_true hcl
      obtain ⟨hne, q, hq, hrem, -⟩ := h.replaced i p j hp hold
      rw [Option.some.inj (hq.symm.trans ho)] at hrem
      refine Or.inr (Or.inr ⟨i, p, hne.symm, hp, hrem.symm, (h.authentic i p hp).received ?_⟩)
      rw [hold]
      rfl
  | closeTables =>
      refine Or.inr (Or.inl fun hrunning => ?_)
      rw [he] at hrunning
      cases hrunning
  | _ => cases hcl

theorem Invariant.excused_of_unindexed (h : Invariant C S) (he : S.enabled e) {j : Nat}
    {o : ServerSession} (ho : S.objects[j]? = some o) (hi : S.Indexed j o)
    (hn : ¬ (S.apply C cfg e).Indexed j o) : S.Excused C j o := by
  obtain ⟨hentry, hindex⟩ := hi
  cases tables_apply C cfg he with
  | same hs hr hb => exact absurd ⟨hs ▸ hentry, hb ▸ hindex⟩ hn
  | registered sessionID remote p hello hreader hfresh hp hid hremote hreader' hs hr hb =>
      have hne : o.sessionID ≠ sessionID := by
        rintro rfl
        exact hfresh (Finmap.mem_of_lookup_eq_some hentry)
      refine absurd ⟨?_, hb ▸ hindex⟩ hn
      rw [hs, Table.lookup_insert_eq, if_neg hne, hentry]
  | reaped i p hp hclosed hpi hs hr hb =>
      by_cases hsame : o.sessionID = p.sessionID
      · have hij : j = i := Option.some.inj (hentry.symm.trans (hsame ▸ hpi))
        subst hij
        rw [Option.some.inj (hp.symm.trans ho)] at hclosed
        exact Or.inl hclosed
      · refine absurd ⟨?_, ?_⟩ hn
        · rw [hs, Table.lookup_erase_eq, if_neg hsame, hentry]
        · rw [hb]
          split
          · rename_i hpindex
            have hrem : o.remote ≠ p.remote := by
              intro hrem
              exact hsame (Option.some.inj (hindex.symm.trans (hrem ▸ hpindex)))
            rw [Table.lookup_erase_eq, if_neg hrem, hindex]
          · exact hindex
  | committed i p hp hpc hpi hafter hs hr hb =>
      by_cases hrem : o.remote = p.remote
      · by_cases hij : i = j
        · subst hij
          rw [Option.some.inj (hp.symm.trans ho)] at hb
          refine absurd ⟨hs ▸ hentry, ?_⟩ hn
          rw [hb, Table.lookup_insert_eq, if_pos rfl]
        · refine Or.inr (Or.inr ⟨i, p, hij, hp, hrem.symm, (h.authentic i p hp).received ?_⟩)
          rw [hpc]
          rfl
      · refine absurd ⟨hs ▸ hentry, ?_⟩ hn
        rw [hb, Table.lookup_insert_eq, if_neg hrem, hindex]
  | cleared hshut => exact Or.inr (Or.inl (by rw [hshut]; nofun))

end UdpServer

/-! ## A client is registered -/

namespace UdpServer

/-- The server after it has registered its first client. -/
def registered (C : Crypto) (cfg : NodeConfig) (remote : Bytes) (hello : Handshake)
    (sessionID : Nat) (serverNonce : Bytes) : UdpServer where
  sessions := (∅ : Table Nat Nat).insert sessionID 0
  sessionRemote := (∅ : Table Nat Bytes).insert sessionID remote
  byRemote := ∅
  objects := [newSession C cfg remote hello sessionID serverNonce]
  reader := .welcoming 0
  shutdown := .running

/-- An acceptable hello is registered. -/
theorem reachable_registered (C : Crypto) (cfg : NodeConfig) (remote : Bytes) (hello : Handshake)
    (hv : hello.Valid) (hk : hello.kind = handshakeHello) (hn : hello.nodeID = cfg.peerID)
    (hp : hello.peerID = cfg.nodeID) (sessionID : Nat) (serverNonce : Bytes)
    (hpos : 0 < sessionID) (hlt : sessionID < 2 ^ 64) (hlen : serverNonce.length = 32)
    {ok : UdpServer → ServerEvent → Prop} (hok : ∀ S e, (∀ b, e ≠ .welcome b) → ok S e) :
    (serverMachine C cfg).ReachableUnder ok
      (registered C cfg remote hello sessionID serverNonce) := by
  let packet := handshakeBody hello ++ C.hmac cfg.secret (macInput hello [])
  have hdecode : decodeHandshake C packet [] cfg.secret = .ok hello :=
    decodeHandshake_encode C hv [] cfg.secret
  have hvalidate : validateHandshake (hello.timestamp * 1000000000) hello handshakeHello
      cfg.peerID cfg.nodeID = .ok () := by
    simp [validateHandshake, hk, hn, hp, maxClockSkew]
  have hmagic : packet.take 4 = handshakeMagic := by
    have hbytes : handshakeMagic = [85, 75, 72, 49] := by decide
    simp [packet, handshakeBody, hbytes]
  have hread : UdpServer.start.apply C cfg
      (.datagram (hello.timestamp * 1000000000) remote packet) =
      { UdpServer.start with reader := .hello remote hello } := by
    simp [UdpServer.apply, control, readLoop, hmagic, acceptHello, hdecode, hvalidate,
      UdpServer.start, maxUDPSessions]
  have hwelcome : ∃ bytes, welcomeFor C cfg hello sessionID serverNonce 0 = .ok bytes := by
    refine ⟨_, encodeHandshake_eq_ok C ⟨hlt, ⟨by simp, by simp⟩, hlen, ?_, ?_⟩ hello.nonce
      cfg.secret⟩
    · exact hp ▸ hv.peerID
    · exact hn ▸ hv.nodeID
  obtain ⟨bytes, hwelcome⟩ := hwelcome
  have hregister : ({ UdpServer.start with reader := .hello remote hello } : UdpServer).apply C cfg
      (.register sessionID serverNonce 0) =
      registered C cfg remote hello sessionID serverNonce := by
    simp [UdpServer.apply, control, register, hwelcome, UdpServer.start, registered, objectAfter,
      closes, advance]
  have hstart : (serverMachine C cfg).ReachableUnder ok UdpServer.start := .start rfl
  have hfirst := hstart.to (.datagram (hello.timestamp * 1000000000) remote packet) rfl
    (hok _ _ fun _ hb => by cases hb) hread
  exact hfirst.to (.register sessionID serverNonce 0)
    ⟨⟨remote, hello, rfl⟩, hpos, hlt, Finmap.notMem_empty, hlen, by decide, by decide⟩
    (hok _ _ fun _ hb => by cases hb) hregister

end UdpServer

def sampleServer : NodeConfig := ⟨ofString "server", ofString "client", [9]⟩

def sampleHello : Handshake where
  kind := handshakeHello
  sessionID := 0
  timestamp := 0
  nonce := List.replicate 32 1
  nodeID := ofString "client"
  peerID := ofString "server"

theorem sampleHello_valid : sampleHello.Valid :=
  ⟨by decide, by decide, by decide, by decide, by decide⟩

/-- In every reachable state the tables agree and are bounded. A step closes
a confirmed session, or takes its index entry, only for a session that has
finished, during a shutdown, or for another session from the same remote that
received the client's confirmation under its own keys. -/
theorem udp_server_tables_consistent (C : Crypto) (cfg : NodeConfig) (S : UdpServer)
    (run : (serverMachine C cfg).Reachable S) :
    (∀ id, id ∈ S.sessions ↔ id ∈ S.sessionRemote) ∧
    S.sessions.size ≤ 64 ∧
    (∀ r id, Finmap.lookup r S.byRemote = some id →
      id ∈ S.sessions ∧ Finmap.lookup id S.sessionRemote = some r) ∧
    (∀ e, S.enabled e → ∀ (j : Nat) (o : ServerSession), S.objects[j]? = some o →
      o.confirm.isConfirmed = true →
      S.closes e j o = true ∨ (S.Indexed j o ∧ ¬ (S.apply C cfg e).Indexed j o) →
      o.session.closed = true ∨ S.shutdown ≠ .running ∨
        ∃ (k : Nat) (p : ServerSession), k ≠ j ∧ S.objects[k]? = some p ∧
          p.remote = o.remote ∧ p.ReceivedConfirm C) := by
  have h := UdpServer.invariant_of_reachable run
  refine ⟨h.tables.keys, h.tables.bound, h.tables.index, ?_⟩
  intro e he j o ho hc hcase
  rcases hcase with hcl | ⟨hi, hn⟩
  · exact h.excused_of_closes he ho hc hcl
  · exact h.excused_of_unindexed he ho hi hn

/-- A client is registered and confirmed, up to the critical section. -/
def confirmEvents (i : Nat) (hello : Handshake) (sessionID : Nat) (serverNonce : Bytes) :
    List ServerEvent :=
  let session := (UdpServer.newSession Crypto.sum sampleServer [1] hello sessionID
    serverNonce).session
  let confirm := { session with sendKey := session.recvKey }.dataPacket Crypto.sum 1 clientConfirm
  let answer := session.dataPacket Crypto.sum 1 serverConfirm
  [.datagram 0 [1] (handshakeBody hello ++ Crypto.sum.hmac sampleServer.secret (macInput hello [])),
    .register sessionID serverNonce 0, .welcome true, .datagram 0 [1] confirm, .deliver,
    .session i (.packetLoop ⟨true, fun _ => true⟩), .confirmReceive i,
    .session i (.sendAcquire serverConfirm), .session i (.sendSeal serverConfirm),
    .session i (.sendInsert 1 answer), .session i (.sendWrite 1 answer true), .confirmCommit i]

/-- A client comes again from its address while its session is in use. -/
def replaceEvents : List ServerEvent :=
  confirmEvents 0 sampleHello 7 (List.replicate 32 2) ++ [.closeOld 0, .expose 0] ++
    confirmEvents 1 { sampleHello with nonce := List.replicate 32 3 } 8 (List.replicate 32 4)

def replacedServer : UdpServer :=
  replaceEvents.foldl (UdpServer.apply Crypto.sum sampleServer) UdpServer.start

/-- The second session of the client replaces the first one, which is exposed and
has not finished, and is the one that received the confirmation. -/
theorem udp_server_tables_consistent_replaced :
    (serverMachine Crypto.sum sampleServer).Reachable replacedServer ∧
      Finmap.lookup 7 replacedServer.sessions = some 0 ∧
      Finmap.lookup 8 replacedServer.sessionRemote = some [1] ∧
      ∃ o, replacedServer.objects[0]? = some o ∧ o.confirm = .exposed ∧
        o.session.closed = false ∧ replacedServer.closes (.closeOld 1) 0 o = true ∧
        ∃ (k : Nat) (p : ServerSession), k ≠ 0 ∧ replacedServer.objects[k]? = some p ∧
          p.remote = o.remote ∧ p.ReceivedConfirm Crypto.sum := by
  have run : (serverMachine Crypto.sum sampleServer).Reachable replacedServer :=
    Machine.ReachableUnder.run (.start rfl) replaceEvents (by decide +kernel)
  obtain ⟨-, -, hindex, hexcused⟩ :=
    udp_server_tables_consistent Crypto.sum sampleServer _ run
  obtain ⟨-, hremote⟩ := hindex [1] 8 (by decide +kernel)
  have hobject : ∃ o, o ∈ replacedServer.objects[0]? ∧ o.confirm = .exposed ∧
      o.session.closed = false ∧ replacedServer.closes (.closeOld 1) 0 o = true := by
    decide +kernel
  obtain ⟨o, ho, hexposed, hopen, hcloses⟩ := hobject
  rw [Option.mem_def] at ho
  refine ⟨run, by decide +kernel, hremote, o, ho, hexposed, hopen, hcloses, ?_⟩
  have hcase := hexcused (.closeOld 1) (by decide +kernel) 0 o ho (by rw [hexposed]; rfl)
    (Or.inl hcloses)
  rcases hcase with hclosed | hshutdown | hother
  · rw [hopen] at hclosed
    cases hclosed
  · exact absurd (by decide +kernel : replacedServer.shutdown = .running) hshutdown
  · exact hother

end UnknownTunnel.Transport

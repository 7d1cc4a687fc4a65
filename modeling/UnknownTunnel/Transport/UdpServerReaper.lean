import UnknownTunnel.Transport.UdpServerTables

/-!
# Removal of finished sessions from the UDP server

A registered session gets its reaper only after its welcome has been written.
Along runs in which every welcome is written, each finished session that is
still in the table has a reaper waiting for it, and that reaper empties the
slot. A welcome that cannot be written leaves a finished session without one.
-/

namespace UnknownTunnel.Transport

open Foundation

namespace UdpServer

variable {C : Crypto} {cfg : NodeConfig} {S : UdpServer} {e : ServerEvent}

/-- Every table entry has a waiting reaper or is about to get one. -/
def Attended (S : UdpServer) : Prop :=
  ∀ (id i : Nat) (o : ServerSession), Finmap.lookup id S.sessions = some i →
    S.objects[i]? = some o →
    o.reaper = .waiting ∨ (S.reader = .welcoming i ∧ o.session.closed = false)

/-- While a welcome is being written the read loop stays where it is. -/
theorem reader_of_welcoming {i : Nat} (hr : S.reader = .welcoming i) (he : S.enabled e)
    (hw : ∀ ok, e ≠ .welcome ok) : (S.apply C cfg e).reader = .welcoming i := by
  cases e with
  | datagram now remote packet | readError => cases hr.symm.trans he
  | deliver =>
      obtain ⟨k, packet, hd⟩ := he
      cases hr.symm.trans hd
  | register sessionID serverNonce timestamp =>
      obtain ⟨⟨remote, hello, hh⟩, -⟩ := he
      cases hr.symm.trans hh
  | abandon =>
      obtain ⟨remote, hello, hh⟩ := he
      cases hr.symm.trans hh
  | welcome ok => exact absurd rfl (hw ok)
  | reap k =>
      obtain ⟨o, ho, -⟩ := he
      simp only [apply, control, ho, reapTables]
      split <;> exact hr
  | confirmCommit k =>
      obtain ⟨o, ho, -⟩ := he
      simp only [apply, control, ho, commitTables]
      split <;> exact hr
  | _ => exact hr

/-- An entry of the new table that is not the new object's was in the old one. -/
theorem entry_of_apply (C : Crypto) (cfg : NodeConfig) (he : S.enabled e) {id i : Nat}
    {o : ServerSession}
    (hi : Finmap.lookup id (S.apply C cfg e).sessions = some i) (ho : S.objects[i]? = some o) :
    Finmap.lookup id S.sessions = some i := by
  cases tables_apply C cfg he with
  | same hs => exact hs ▸ hi
  | registered sessionID remote p hello hreader hfresh hp hid hremote hreader' hs =>
      rw [hs, Table.lookup_insert_eq] at hi
      split at hi
      · obtain ⟨hlt, -⟩ := List.getElem?_eq_some_iff.mp ho
        cases hi
        omega
      · exact hi
  | reaped k p hp hclosed hentry hs =>
      rw [hs, Table.lookup_erase_eq] at hi
      split at hi
      · cases hi
      · exact hi
  | committed k p hp hc hentry hafter hs => exact hs ▸ hi
  | cleared hshut hs =>
      rw [hs] at hi
      cases hi

/-- The critical section of a reaper empties the slot of its session. -/
theorem sessions_apply_reap (C : Crypto) (cfg : NodeConfig) (h : TablesOk S) {id i : Nat}
    (hi : Finmap.lookup id S.sessions = some i) :
    (S.apply C cfg (.reap i)).sessions = S.sessions.erase id ∧
      (S.apply C cfg (.reap i)).sessionRemote = S.sessionRemote.erase id := by
  obtain ⟨o, ho, hid, -⟩ := h.entry id i hi
  subst hid
  simp only [apply, control, ho, reapTables, hi, if_true, and_self]

/-- A reaper that waits goes on waiting while its entry is in the table. -/
theorem reaper_objectAfter (h : TablesOk S) (he : S.enabled e) {id i : Nat}
    {o : ServerSession} (ho : S.objects[i]? = some o)
    (hi : Finmap.lookup id (S.apply C cfg e).sessions = some i) (hw : o.reaper = .waiting) :
    (S.objectAfter C e i o).reaper = .waiting := by
  refine objectAfter_induction (motive := fun p => p.reaper = .waiting) he ho ?_ ?_
  · intro p hp
    cases hp with
    | reaped hev =>
        subst hev
        have hold := entry_of_apply C cfg he hi ho
        rw [(sessions_apply_reap C cfg h hold).1, Table.lookup_erase_eq, if_pos rfl] at hi
        cases hi
    | received =>
        rw [ServerSession.receiveConfirm]
        split
        · split <;> exact hw
        · exact hw
    | started => rfl
    | _ => exact hw
  · intro p hp
    exact hp

/-- Nobody closes a session whose welcome is being written, unless the tables
are cleared. -/
theorem closes_of_unstarted (h : Invariant C S) (he : S.enabled e) {i : Nat} {o : ServerSession}
    (ho : S.objects[i]? = some o) (hun : Unstarted o) (hw : ∀ ok, e ≠ .welcome ok)
    (ht : e ≠ .closeTables) : S.closes e i o = false := by
  cases e with
  | welcome ok => exact absurd rfl (hw ok)
  | closeSelf k =>
      rw [closes, decide_eq_false_iff_not]
      rintro rfl
      obtain ⟨p, hp, hc⟩ := he
      rw [Option.some.inj (hp.symm.trans ho), hun.confirm] at hc
      rcases hc with hc | hc <;> cases hc
  | closeOld k =>
      obtain ⟨p, old, hp, -⟩ := he
      simp only [closes, hp, decide_eq_false_iff_not]
      intro hc
      obtain ⟨-, q, hq, -, hindexed⟩ := h.replaced k p i hp hc
      rw [Option.some.inj (hq.symm.trans ho), hun.confirm] at hindexed
      cases hindexed
  | closeTables => exact absurd rfl ht
  | _ => rfl

theorem Attended.apply (h : Invariant C S) (ha : Attended S) (he : S.enabled e)
    (hok : e ≠ .welcome false) : Attended (S.apply C cfg e) := by
  intro id i o' hi ho'
  rcases object_apply he ho' with ⟨o, ho, rfl⟩ | ⟨sessionID, remote, rfl, hreg⟩
  · have hold := entry_of_apply C cfg he hi ho
    rcases ha id i o hold ho with hw | ⟨hr, hopen⟩
    · exact Or.inl (reaper_objectAfter h.tables he ho hi hw)
    · obtain ⟨p, hp, hun⟩ := h.welcoming i hr
      rw [Option.some.inj (hp.symm.trans ho)] at hun
      by_cases hstart : e = .welcome true
      · subst hstart
        left
        simp [objectAfter, closes, advance, hr, ServerSession.start]
      · have hw : ∀ ok, e ≠ .welcome ok := by
          intro ok
          cases ok with
          | false => exact hok
          | true => exact hstart
        have ht : e ≠ .closeTables := by
          rintro rfl
          cases hi
        have hclosed := (hun.objectAfter (C := C) he ho hr hw).2
          (closes_of_unstarted h he ho hun hw ht)
        exact Or.inr ⟨reader_of_welcoming hr he hw, hclosed.trans hopen⟩
  · obtain ⟨hello, nonce, -, rfl⟩ := hreg.object
    refine Or.inr ⟨?_, rfl⟩
    simp only [UdpServer.apply, hreg.control]

theorem attended_of_reachable
    (run : (serverMachine C cfg).ReachableUnder (fun _ e => e ≠ .welcome false) S) :
    Attended S := by
  apply run.invariant (fun S run => invariant_of_reachable run.reachable)
  · rintro S rfl id i o hi
    cases hi
  · intro S e h ha he hok
    exact ha.apply h he hok

end UdpServer

/-- Along runs in which every welcome is written, each finished session in
the table has a pending reaper that removes it; once no reaper can run, no
finished session is left. -/
theorem udp_server_reaps_finished_sessions (C : Crypto) (cfg : NodeConfig) (S : UdpServer)
    (run : (serverMachine C cfg).ReachableUnder (fun _ e => e ≠ .welcome false) S) :
    (∀ (id i : Nat) (o : ServerSession), Finmap.lookup id S.sessions = some i →
      S.objects[i]? = some o → o.session.closed = true →
        o.reaper = .waiting ∧ S.enabled (.reap i) ∧
          id ∉ (S.apply C cfg (.reap i)).sessions ∧
          id ∉ (S.apply C cfg (.reap i)).sessionRemote) ∧
    ((∀ i, ¬ S.enabled (.reap i)) →
      ∀ (id i : Nat) (o : ServerSession), Finmap.lookup id S.sessions = some i →
        S.objects[i]? = some o → o.session.closed = false) := by
  have h := UdpServer.invariant_of_reachable run.reachable
  have hwait : ∀ (id i : Nat) (o : ServerSession), Finmap.lookup id S.sessions = some i →
      S.objects[i]? = some o → o.session.closed = true → o.reaper = .waiting := by
    intro id i o hi ho hc
    rcases UdpServer.attended_of_reachable run id i o hi ho with hw | ⟨-, hopen⟩
    · exact hw
    · rw [hc] at hopen
      cases hopen
  constructor
  · intro id i o hi ho hc
    have hw := hwait id i o hi ho hc
    obtain ⟨hs, hr⟩ := UdpServer.sessions_apply_reap C cfg h.tables hi
    refine ⟨hw, ⟨o, ho, hw, hc⟩, ?_, ?_⟩
    · rw [hs]
      simp [Finmap.mem_erase]
    · rw [hr]
      simp [Finmap.mem_erase]
  · intro hidle id i o hi ho
    by_contra hne
    have hc : o.session.closed = true := by
      simpa using hne
    exact hidle i ⟨o, ho, hwait id i o hi ho hc, hc⟩

theorem udp_server_reaps_finished_sessions_confirm_timeout :
    ∃ S, (serverMachine Crypto.sum sampleServer).ReachableUnder (fun _ e => e ≠ .welcome false) S ∧
      ∃ o, Finmap.lookup 7 S.sessions = some 0 ∧ S.objects[0]? = some o ∧
        o.session.closed = true ∧ o.reaper = .waiting := by
  have run := UdpServer.reachable_registered Crypto.sum sampleServer [1] sampleHello
    sampleHello_valid rfl rfl rfl 7 (List.replicate 32 2) (by decide) (by decide) (by decide)
    (fun _ _ h => h false)
  have hstarted := run.to (.welcome true) ⟨0, rfl⟩ nofun rfl
  have hfailing := hstarted.to (.confirmTimeout 0) ⟨_, rfl, rfl⟩ nofun rfl
  have hclosed := hfailing.to (.closeSelf 0) ⟨_, rfl, Or.inl rfl⟩ nofun rfl
  have hentry : Finmap.lookup 7 (UdpServer.registered Crypto.sum sampleServer [1] sampleHello 7
      (List.replicate 32 2)).sessions = some 0 := Finmap.lookup_insert _
  exact ⟨_, hclosed, _, hentry, rfl, rfl,
    ((udp_server_reaps_finished_sessions Crypto.sum sampleServer _ hclosed).1 7 0 _ hentry rfl
      rfl).1⟩

/-- The first client's welcome cannot be written. The finished session stays
in the table and no reaper is left to remove it. -/
theorem udp_server_keeps_finished_session :
    ∃ S, (serverMachine Crypto.sum sampleServer).Reachable S ∧ S.reader = .idle ∧
      ∃ o, Finmap.lookup 7 S.sessions = some 0 ∧ S.objects[0]? = some o ∧
        o.session.closed = true ∧ o.reaper = .unstarted ∧ ∀ i, ¬ S.enabled (.reap i) := by
  have run := UdpServer.reachable_registered Crypto.sum sampleServer [1] sampleHello
    sampleHello_valid rfl rfl rfl 7 (List.replicate 32 2) (by decide) (by decide) (by decide)
    (fun _ _ _ => trivial)
  have hfailed := run.to (.welcome false) ⟨0, rfl⟩ trivial rfl
  have hentry : Finmap.lookup 7 (UdpServer.registered Crypto.sum sampleServer [1] sampleHello 7
      (List.replicate 32 2)).sessions = some 0 := Finmap.lookup_insert _
  refine ⟨_, hfailed, rfl, _, hentry, rfl, rfl, rfl, ?_⟩
  rintro i ⟨o, ho, hw, -⟩
  have hi : i = 0 := by
    obtain ⟨hlt, -⟩ := List.getElem?_eq_some_iff.mp ho
    exact Nat.lt_one_iff.mp hlt
  subst hi
  cases ho
  cases hw

end UnknownTunnel.Transport

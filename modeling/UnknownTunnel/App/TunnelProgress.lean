import UnknownTunnel.App.Direct

/-!
# The tunnel over an undisturbed link

Every run of two applications with a direct connection is also a run of the
tunnel, over any link that carries what it is given.

## Implementation notes

The run of the tunnel uses one link. Its session is added after the key
confirmation, and the queues are empty between two turns of the direct run.
-/

namespace UnknownTunnel.App

open Foundation ConfigFile Protocol Transport

variable {σ ε : Type} {N : Deployment σ ε} {seed : UInt64} {T : Tunnel σ}
  {ready : Nat → σ → Prop} {n : Nat}

/-- A manager with one session whose queue is empty. -/
def idleManager (sessions : Table Carrier Nat) (kind : Carrier) (put : List Bytes)
    (out : List (Nat × Bytes)) : Manager :=
  ⟨sessions, [⟨kind, [], false, .selecting, put, 0⟩], [], out, false⟩

/-- The tunnel between two turns: its only link can carry `n` more payloads,
and everything it has delivered after the confirmation was handled. -/
structure Idle (N : Deployment σ ε) (ready : Nat → σ → Prop) (n : Nat) (T : Tunnel σ) : Prop where
  attached : T.attached = [0]
  shape : ∃ s sessions kind put out confirm, T.links = [s] ∧ ready n s ∧
    T.manager = idleManager sessions kind put out ∧ N.channel.received s = confirm :: put

/-- The only link takes steps that are offered nothing but one payload. -/
theorem reachable_links {raw : Bytes} (hraw : Authentic T.sender.sent raw) {s : σ} {es : List ε}
    (run : (tunnelMachine N seed).Reachable T) (hlinks : T.links = [s])
    (hes : N.channel.Permitted (fun _ e => ∀ b, N.channel.offers e = some b → b = raw) s es) :
    (tunnelMachine N seed).Reachable { T with links := [es.foldl N.channel.apply s] } := by
  induction es generalizing s T with
  | nil =>
      rw [List.foldl_nil, ← hlinks]
      exact run
  | cons e es ih =>
      obtain ⟨he, hoffers, hes⟩ := hes
      have hen : T.enabled N (.link 0 e) := by
        refine ⟨s, by rw [hlinks]; rfl, he, ?_⟩
        intro b hb
        rw [hoffers b hb]
        exact hraw
      have hstep : T.apply N (.link 0 e) = { T with links := [N.channel.apply s e] } := by
        rw [Tunnel.apply, hlinks]
        rfl
      exact ih (T := { T with links := [N.channel.apply s e] }) hraw
        (run.to (.link 0 e) hen trivial hstep) rfl hes

/-- The next ID is not taken for a duplicate. -/
theorem fresh_next (hK : N.channel.Lawful) (run : (tunnelMachine N seed).Reachable T)
    (hhandled : T.receiver.app.handled = T.sender.sent)
    (hseed : seed.toNat + T.sender.sent.length + 1 < 2 ^ 64) :
    (isDuplicate T.receiver.app.seen (sendID T.sender.msgID)).2 = false := by
  have h := tunnelOk_of_reachable hK run
  have hcalls := incomingLoop_calls (T.manager.handedOut.map Prod.snd)
  rw [← h.receiver.app, hhandled] at hcalls
  have htracks := tracks_calls ((T.manager.handedOut.map Prod.snd).filterMap decodedID)
  rw [hcalls] at htracks
  have hlast : (messageID seed T.sender.sent.length).toNat =
      seed.toNat + T.sender.sent.length + 1 :=
    toNat_messageID_of_lt (n := T.sender.sent.length + 1) (by omega) (Nat.lt_succ_self _)
  rw [h.sender.counter]
  refine (htracks.offer_iff _).mpr ⟨?_, ?_⟩
  · intro hzero
    rw [hzero, UInt64.toNat_zero] at hlast
    omega
  · intro hmem
    obtain ⟨m, hm, hid⟩ := List.mem_map.mp (List.mem_of_mem_drop hmem)
    obtain ⟨k, hk⟩ := List.getElem?_of_mem hm
    obtain ⟨hlt, -⟩ := List.getElem?_eq_some_iff.mp hk
    rw [h.sender.ids k m hk] at hid
    rw [← hid, toNat_messageID_of_lt (n := T.sender.sent.length + 1) (by omega) (by omega)] at hlast
    omega

theorem receive_encoded {cfg : Config} {writes : Nat → List ConnWrite} {R : Receiver}
    {m : Message} {raw : Bytes} (henc : encode m = .ok raw)
    (hfresh : (isDuplicate R.app.seen m.id).2 = false) :
    R.receive cfg writes raw = R.take cfg writes m := by
  have hdec := decode_encoded henc
  have hacc : Receiver.accepted R.app raw = some m := by
    simp [Receiver.accepted, hdec, hfresh]
  have happ : R.app.receive raw = ⟨(isDuplicate R.app.seen m.id).1, R.app.handled ++ [m]⟩ := by
    rw [Incoming.receive, hdec]
    cases hd : isDuplicate R.app.seen m.id with
    | mk seen dup =>
        rw [hd] at hfresh
        cases hfresh
        simp only [hd]
  rw [Receiver.receive, hacc, happ]
  rfl

/-- One message goes through an idle tunnel. -/
theorem Idle.message {fits : Bytes → Prop} (h : Idle N ready (n + 1) T)
    (hK : N.channel.Lawful) (hconveys : N.channel.Conveys fits ready)
    (run : (tunnelMachine N seed).Reachable T)
    (hhandled : T.receiver.app.handled = T.sender.sent)
    (hseed : seed.toNat + T.sender.sent.length + 1 < 2 ^ 64) {e : SenderEvent}
    (he : T.sender.enabled N.sender e) (writes : Nat → List ConnWrite) {raw : Bytes}
    (henc : encode { e.message with id := sendID T.sender.msgID } = .ok raw) (hfits : fits raw) :
    ∃ T', (tunnelMachine N seed).Reachable T' ∧ Idle N ready n T' ∧
      T'.sender = T.sender.apply e ∧
      T'.receiver = T.receiver.take N.receiver writes
        { e.message with id := sendID T.sender.msgID } := by
  have hfresh := fresh_next hK run hhandled hseed
  obtain ⟨S, links, attached, M, R⟩ := T
  obtain ⟨rfl, s, sessions, kind, put, out, confirm, rfl, hready, rfl, hreceived⟩ := h
  obtain ⟨es, hes, hnext, hreceived'⟩ := hconveys n s raw hready hfits
  rw [hreceived] at hreceived'
  have run₁ := run.to (.sender e) he trivial rfl
  have hraw : Authentic (S.apply e).sent raw := by
    refine Or.inr (Or.inr ⟨_, ?_, henc⟩)
    rw [SenderOk.sent_apply]
    exact List.mem_append_right _ (List.mem_singleton_self _)
  have run₂ := reachable_links hraw run₁ rfl hes
  -- The payload goes through the session's queue and the manager's.
  let T₂ : Tunnel σ :=
    ⟨S.apply e, [es.foldl N.channel.apply s], [0], idleManager sessions kind put out, R⟩
  have hpublish : T₂.next N 0 = some raw := by
    simp [T₂, Tunnel.next, idleManager, hreceived']
  have run₃ := run₂.to (.publish 0) ⟨raw, hpublish, _, rfl, show 0 < recvQueueLen by decide⟩
    trivial
    (t := { T₂ with manager := ⟨sessions, [⟨kind, [raw], false, .selecting, put ++ [raw], 0⟩],
      [], out, false⟩ })
    (by simp only [tunnelMachine, Tunnel.apply]; rw [hpublish]; rfl)
  have run₄ := run₃.to (.manage (.takeData 0)) ⟨rfl, _, rfl, rfl, List.cons_ne_nil _ _⟩ trivial
    (t := { T₂ with manager := ⟨sessions, [⟨kind, [], false, .holding raw, put ++ [raw], 0⟩],
      [], out, false⟩ }) rfl
  have run₅ := run₄.to (.manage (.forward 0))
    ⟨rfl, show 0 < incomingLen by decide, _, raw, rfl, rfl⟩
    trivial
    (t := { T₂ with manager := ⟨sessions, [⟨kind, [], false, .selecting, put ++ [raw], 0⟩],
      [(0, raw)], out, false⟩ }) rfl
  have run₆ := run₅.to (.consume writes) (List.cons_ne_nil _ _) trivial
    (t := { T₂ with
      manager := idleManager sessions kind (put ++ [raw]) (out ++ [(0, raw)])
      receiver := R.receive N.receiver writes raw }) rfl
  refine ⟨_, run₆, ⟨rfl, _, sessions, kind, put ++ [raw], _, confirm, rfl, hnext, rfl,
    hreceived'⟩, rfl, ?_⟩
  exact receive_encoded henc hfresh

/-- A new link is attached once its confirmation has arrived. -/
theorem exists_idle (seed : UInt64) {fits : Bytes → Prop} (hK : N.channel.Lawful)
    (hconveys : N.channel.Conveys fits ready) {s : σ} (hinit : N.channel.init s)
    (hready : ready (n + 1) s) (hfits : fits clientConfirm) :
    ∃ T, (tunnelMachine N seed).Reachable T ∧ Idle N ready n T ∧
      T.sender = Sender.start seed ∧ T.receiver = Receiver.start := by
  have hempty : N.channel.received s = [] := by
    have hprefix := hK.ordered s (.start hinit)
    rw [(hK.empty s hinit).2] at hprefix
    exact List.prefix_nil.mp hprefix
  obtain ⟨es, hes, hnext, hreceived⟩ := hconveys n s clientConfirm hready hfits
  rw [hempty, List.nil_append] at hreceived
  have run : (tunnelMachine N seed).Reachable (Tunnel.start seed) := .start rfl
  have run₁ := run.to (.connect s) hinit trivial rfl
  have run₂ := reachable_links (Or.inl rfl) run₁ rfl hes
  let s' := es.foldl N.channel.apply s
  have run₃ := run₂.to (.attach 0 0 false) ⟨Nat.one_pos, Nat.zero_le _⟩ trivial
    (t := ⟨Sender.start seed, [s'], [0], ⟨(∅ : Table Carrier Nat).insert (N.kind s') 0,
      [⟨N.kind s', [], false, .starting none, [], 0⟩], [], [], false⟩, Receiver.start⟩)
    (by simp [tunnelMachine, Tunnel.apply, Tunnel.start, Tunnel.kindOf, Tunnel.queued,
      Manager.apply, Manager.control, Manager.start, Manager.newObject, Manager.objectAfter,
      Manager.closes, Manager.advance, s'])
  have run₄ := run₃.to (.manage (.start 0)) ⟨rfl, _, none, rfl, rfl⟩ trivial
    (t := ⟨Sender.start seed, [s'], [0],
      idleManager ((∅ : Table Carrier Nat).insert (N.kind s') 0) (N.kind s') [] [],
      Receiver.start⟩)
    (by simp [tunnelMachine, Tunnel.apply, idleManager, Manager.apply, Manager.control,
      Manager.objectAfter, Manager.closes, Manager.advance])
  exact ⟨_, run₄, ⟨rfl, s', _, _, [], [], clientConfirm, rfl, hnext, rfl, hreceived⟩, rfl, rfl⟩

/-- Every direct run is matched by a run of the tunnel, as long as the link
can carry its messages. -/
theorem exists_tunnel_of_direct {fits : Bytes → Prop} (hK : N.channel.Lawful)
    (hconveys : N.channel.Conveys fits ready) {s : σ} (hinit : N.channel.init s) {limit : Nat}
    (hready : ready (limit + 1) s) (hconfirm : fits clientConfirm)
    (hfits : ∀ (site : SendSite) (m : Message) (id : UInt64), site.Possible N.sender →
      m ∈ site.messages N.sender → ∃ raw, encode { m with id } = .ok raw ∧ fits raw)
    {D : Direct} (run : (directMachine N.sender N.receiver seed).Reachable D)
    (hlimit : D.sender.sent.length ≤ limit)
    (hseed : seed.toNat + D.sender.sent.length < 2 ^ 64) :
    ∃ T, (tunnelMachine N seed).Reachable T ∧ T.sender = D.sender ∧ T.receiver = D.receiver ∧
      Idle N ready (limit - D.sender.sent.length) T := by
  induction run with
  | @start D h =>
      obtain rfl := h
      obtain ⟨T, runT, hidle, hsender, hreceiver⟩ :=
        exists_idle seed hK hconveys hinit hready hconfirm
      exact ⟨T, runT, hsender, hreceiver, hidle⟩
  | @next D t run he _ ih =>
      cases t with
      | receiver e =>
          obtain ⟨T, runT, hsender, hreceiver, hidle⟩ := ih hlimit hseed
          exact ⟨_, runT.to (.receiver e) trivial trivial rfl, hsender,
            congrArg (Receiver.apply · e) hreceiver, hidle.1, hidle.2⟩
      | message e writes =>
          have hlength : ((Direct.apply N.receiver D (.message e writes)).sender.sent).length =
              D.sender.sent.length + 1 := by
            simp [Direct.apply, SenderOk.sent_apply]
          change ((Direct.apply N.receiver D (.message e writes)).sender.sent).length ≤ limit
            at hlimit
          change seed.toNat +
            ((Direct.apply N.receiver D (.message e writes)).sender.sent).length < 2 ^ 64 at hseed
          rw [hlength] at hlimit hseed
          obtain ⟨T, runT, hsender, hreceiver, hidle⟩ := ih (by omega) (by omega)
          have henabled : T.sender.enabled N.sender e := hsender ▸ he
          obtain ⟨raw, henc, hraw⟩ :=
            hfits e.site e.message (sendID T.sender.msgID) henabled.1 henabled.2.1
          have hhandled : T.receiver.app.handled = T.sender.sent := by
            rw [hreceiver, hsender]
            exact (directOk_of_reachable run).handled
          rw [show limit - D.sender.sent.length = limit - (D.sender.sent.length + 1) + 1 by omega]
            at hidle
          obtain ⟨T', runT', hidle', hsender', hreceiver'⟩ := hidle.message hK hconveys runT
            hhandled (by rw [hsender]; omega) henabled writes henc hraw
          refine ⟨T', runT', ?_, ?_, ?_⟩
          · rw [hsender', hsender]
            rfl
          · rw [hreceiver', hreceiver, hsender]
            rfl
          · change Idle N ready
              (limit - ((Direct.apply N.receiver D (.message e writes)).sender.sent).length) T'
            rw [hlength]
            exact hidle'

end UnknownTunnel.App

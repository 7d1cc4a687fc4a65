import UnknownTunnel.Transport.HandshakeWorld

/-!
# The ends of sessions

Which ends a step adds on either side of a handshake, what they are derived
from, and why no two ends of the server node have a nonce in common.

## Implementation notes

An end never changes once it exists, so every fact about ends only has to be
shown for the end a step adds. A welcome is bound to a client nonce by its
MAC, and its bytes split into message and nonce in one way only, so a dial
that decodes a welcome has the welcome of an end made for it.
-/

namespace UnknownTunnel.Transport

open Foundation

namespace UdpServer

variable {C : Crypto} {cfg : NodeConfig} {S : UdpServer} {e : ServerEvent}

theorem objects_register (sessionID : Nat) (serverNonce : Bytes) (timestamp : Int) :
    (S.apply C cfg (.register sessionID serverNonce timestamp)).objects =
      (S.register C cfg sessionID serverNonce timestamp).objects := by
  apply List.ext_getElem?
  intro j
  simp only [apply, control, List.getElem?_mapIdx]
  cases (S.register C cfg sessionID serverNonce timestamp).objects[j]? with
  | none => rfl
  | some o => simp [objectAfter, closes, advance]

/-- Only a registration adds an end. -/
theorem sessionEnds_apply (he : S.enabled e)
    (hne : ∀ sessionID serverNonce timestamp, e ≠ .register sessionID serverNonce timestamp)
    (j : Nat) :
    (S.apply C cfg e).objects[j]?.map ServerSession.sessionEnd =
      S.objects[j]?.map ServerSession.sessionEnd := by
  have hc : (S.control C cfg e).objects = S.objects := by
    rcases objects_control C cfg he with hc | ⟨sessionID, serverNonce, timestamp, _, _, h, -⟩
    · exact hc
    · exact absurd h (hne sessionID serverNonce timestamp)
  simp only [apply, hc, List.getElem?_mapIdx, Option.map_map]
  cases ho : S.objects[j]? with
  | none => rfl
  | some o => exact congrArg some (sessionEnd_objectAfter C he ho)

end UdpServer

namespace World

variable {C : Crypto} {cfg : NodeConfig} {W : World} {e : WorldEvent}

/-! ## Ends -/

/-- The place a step puts a new end at. -/
def newRef (W : World) : WorldEvent → EndRef
  | .newAccept _ _ _ _ _ => .tcp W.accepts.length
  | _ => .udp W.server.objects.length

/-- A step adds an end at a place. -/
structure Creates (C : Crypto) (cfg : NodeConfig) (W : World) (e : WorldEvent) (r : EndRef)
    (v : SessionEnd) : Prop where
  place : r = W.newRef e
  vacant : W.serverEnd r = none
  keys : v.keys = serverKeys C cfg v.carrier v.clientNonce v.serverNonce
  identifier : v.carrier = .tcp → v.sessionID = 0
  length : v.serverNonce.length = 32
  fresh : W.FreshNonces C cfg e → W.NewServerNonce v.serverNonce

/-- A place holds the end it held, or a new one. -/
def EndStep (C : Crypto) (cfg : NodeConfig) (W : World) (e : WorldEvent) : Prop :=
  ∀ r, (W.apply C cfg e).serverEnd r = W.serverEnd r ∨
    ∃ v, (W.apply C cfg e).serverEnd r = some v ∧ W.Creates C cfg e r v

theorem register_ends {sessionID : Nat} {serverNonce : Bytes} {timestamp : Int}
    (he : W.server.enabled (.register sessionID serverNonce timestamp)) :
    EndStep C cfg W (.server (.register sessionID serverNonce timestamp)) := by
  obtain ⟨⟨remote, hello, hreader⟩, -, -, -, hlen, -⟩ := he
  intro r
  cases r with
  | tcp j => exact Or.inl rfl
  | udp j =>
      simp only [serverEnd, apply, UdpServer.objects_register, UdpServer.register, hreader]
      split
      · exact Or.inl rfl
      · rcases lt_trichotomy j W.server.objects.length with hj | rfl | hj
        · left
          rw [List.getElem?_append_left hj]
        · right
          refine ⟨_, by rw [List.getElem?_concat_length]; rfl, rfl, ?_, rfl,
            (fun h => by cases h), hlen, ?_⟩
          · simp [serverEnd]
          · intro hf
            exact hf remote hello hreader
        · left
          rw [List.getElem?_eq_none (by simp; omega), List.getElem?_eq_none (by omega)]

/-- A TCP handshake is refused without a trace, or adds its end and MACs its
welcome. -/
theorem newAccept_cases (C : Crypto) (cfg : NodeConfig) (W : World) (now : Int)
    (stream serverNonce : Bytes) (timestamp : Int) (written : Bool) :
    W.apply C cfg (.newAccept now stream serverNonce timestamp written) = W ∨
    ∃ hello data, acceptRequest C cfg now stream = some hello ∧
      UdpServer.welcomeFor C cfg hello 0 serverNonce timestamp = .ok data ∧
      W.apply C cfg (.newAccept now stream serverNonce timestamp written) =
        { W with
          accepts := W.accepts ++ [Accept.start C cfg hello serverNonce written]
          maced := W.maced ++
            [macInput (welcomeMessage cfg 0 serverNonce timestamp) hello.nonce] } := by
  simp only [apply]
  cases hq : acceptRequest C cfg now stream with
  | none => exact Or.inl rfl
  | some hello =>
      dsimp only
      cases hdata : UdpServer.welcomeFor C cfg hello 0 serverNonce timestamp with
      | error err => exact Or.inl rfl
      | ok data => exact Or.inr ⟨hello, data, rfl, hdata, rfl⟩

theorem newAccept_ends {now : Int} {stream serverNonce : Bytes} {timestamp : Int} {written : Bool}
    (ht : -2 ^ 63 ≤ timestamp ∧ timestamp < 2 ^ 63) :
    EndStep C cfg W (.newAccept now stream serverNonce timestamp written) := by
  intro r
  rcases newAccept_cases C cfg W now stream serverNonce timestamp written with
    h | ⟨hello, data, hq, hdata, h⟩
  · rw [h]
    exact Or.inl rfl
  · rw [h]
    cases r with
    | udp j => exact Or.inl rfl
    | tcp j =>
        simp only [serverEnd]
        rcases lt_trichotomy j W.accepts.length with hj | rfl | hj
        · left
          rw [List.getElem?_append_left hj]
        · right
          refine ⟨_, by rw [List.getElem?_concat_length]; rfl, rfl, ?_, rfl, fun _ => rfl,
            (welcomeFor_valid hdata (by simp) ht).nonce, ?_⟩
          · simp [serverEnd]
          · intro hf
            exact hf hello hq
        · left
          rw [List.getElem?_eq_none (by simp; omega), List.getElem?_eq_none (by omega)]

theorem apply_ends (C : Crypto) (cfg : NodeConfig) (he : W.enabled cfg e) :
    EndStep C cfg W e := by
  cases e with
  | newDial carrier nonce timestamp => exact fun r => Or.inl (by cases r <;> rfl)
  | dial i ev => exact fun r => Or.inl (by cases r <;> rfl)
  | newAccept now stream serverNonce timestamp written => exact newAccept_ends he
  | accept j ev =>
      intro r
      left
      cases r with
      | udp i => rfl
      | tcp i =>
          simp only [serverEnd, apply, List.getElem?_modify]
          cases W.accepts[i]? with
          | none => rfl
          | some a =>
              by_cases hij : j = i
              · simp [hij, Accept.sessionEnd_apply]
              · simp [hij]
  | server ev =>
      by_cases hreg : ∃ sessionID serverNonce timestamp,
          ev = .register sessionID serverNonce timestamp
      · obtain ⟨sessionID, serverNonce, timestamp, rfl⟩ := hreg
        exact register_ends he
      · intro r
        left
        cases r with
        | tcp i => rfl
        | udp i =>
            change W.server.enabled ev at he
            exact UdpServer.sessionEnds_apply he (fun a b c h => hreg ⟨a, b, c, h⟩) i

/-- An end stays as it is. -/
theorem serverEnd_keep (he : W.enabled cfg e) {r : EndRef} {v : SessionEnd}
    (h : W.serverEnd r = some v) : (W.apply C cfg e).serverEnd r = some v := by
  rcases apply_ends C cfg he r with hr | ⟨v', -, hnew⟩
  · rw [hr, h]
  · rw [hnew.vacant] at h
    cases h

theorem serverEnd_cases (he : W.enabled cfg e) {r : EndRef} {v : SessionEnd}
    (h : (W.apply C cfg e).serverEnd r = some v) :
    W.serverEnd r = some v ∨ W.Creates C cfg e r v := by
  rcases apply_ends C cfg he r with hr | ⟨v', hv', hnew⟩
  · exact Or.inl (hr ▸ h)
  · rw [h] at hv'
    cases hv'
    exact Or.inr hnew

/-- The ends of the server node are told apart by their nonces, from which their
keys are derived. -/
structure EndsDistinct (C : Crypto) (cfg : NodeConfig) (W : World) : Prop where
  keys : ∀ r v, W.serverEnd r = some v →
    v.keys = serverKeys C cfg v.carrier v.clientNonce v.serverNonce
  identifier : ∀ r v, W.serverEnd r = some v → v.carrier = .tcp → v.sessionID = 0
  length : ∀ r v, W.serverEnd r = some v → v.serverNonce.length = 32
  nonce : ∀ r r' v v', W.serverEnd r = some v → W.serverEnd r' = some v' →
    v.serverNonce = v'.serverNonce → r = r'

theorem EndsDistinct.apply (h : W.EndsDistinct C cfg) (he : W.enabled cfg e)
    (hf : W.FreshNonces C cfg e) : (W.apply C cfg e).EndsDistinct C cfg where
  keys := by
    intro r v hv
    rcases serverEnd_cases he hv with ho | hn
    · exact h.keys r v ho
    · exact hn.keys
  identifier := by
    intro r v hv
    rcases serverEnd_cases he hv with ho | hn
    · exact h.identifier r v ho
    · exact hn.identifier
  length := by
    intro r v hv
    rcases serverEnd_cases he hv with ho | hn
    · exact h.length r v ho
    · exact hn.length
  nonce := by
    intro r r' v v' hv hv' heq
    rcases serverEnd_cases he hv with ho | hn
    · rcases serverEnd_cases he hv' with ho' | hn'
      · exact h.nonce r r' v v' ho ho' heq
      · exact absurd heq (hn'.fresh hf r v ho)
    · rcases serverEnd_cases he hv' with ho' | hn'
      · exact absurd heq.symm (hn.fresh hf r' v' ho')
      · rw [hn.place, hn'.place]

/-! ## Messages -/

/-- MACed bytes are those of a message bound to no nonce, or of the welcome of
an end bound to its client nonce. -/
def Written (cfg : NodeConfig) (W : World) (m : Bytes) : Prop :=
  (∃ h : Handshake, h.Valid ∧ m = macInput h []) ∨
  ∃ r v timestamp, W.serverEnd r = some v ∧
    (welcomeMessage cfg v.sessionID v.serverNonce timestamp).Valid ∧
    m = macInput (welcomeMessage cfg v.sessionID v.serverNonce timestamp) v.clientNonce

theorem Written.apply {m : Bytes} (h : W.Written cfg m) (he : W.enabled cfg e) :
    (W.apply C cfg e).Written cfg m := by
  rcases h with h | ⟨r, v, timestamp, hv, hvalid, hm⟩
  · exact Or.inl h
  · exact Or.inr ⟨r, v, timestamp, serverEnd_keep he hv, hvalid, hm⟩

theorem written_register {sessionID : Nat} {serverNonce m : Bytes} {timestamp : Int}
    (he : W.server.enabled (.register sessionID serverNonce timestamp))
    (hm : serverMac C cfg W.server (.register sessionID serverNonce timestamp) = some m) :
    (W.apply C cfg (.server (.register sessionID serverNonce timestamp))).Written cfg m := by
  obtain ⟨⟨remote, hello, hreader⟩, -, hid, -, -, ht⟩ := he
  simp only [serverMac, hreader] at hm
  cases hdata : UdpServer.welcomeFor C cfg hello sessionID serverNonce timestamp with
  | error err =>
      rw [hdata] at hm
      cases hm
  | ok data =>
      rw [hdata] at hm
      have hend : (W.apply C cfg (.server (.register sessionID serverNonce timestamp))).serverEnd
          (.udp W.server.objects.length) =
          some (UdpServer.newSession C cfg remote hello sessionID serverNonce).sessionEnd := by
        simp only [serverEnd, World.apply, UdpServer.objects_register, UdpServer.register,
          hreader, hdata]
        rw [List.getElem?_concat_length]
        rfl
      exact Or.inr ⟨_, _, timestamp, hend, welcomeFor_valid hdata hid ht,
        (Option.some.inj hm).symm⟩

theorem written_newAccept {now : Int} {stream serverNonce m : Bytes} {timestamp : Int}
    {written : Bool} (ht : -2 ^ 63 ≤ timestamp ∧ timestamp < 2 ^ 63)
    (hm : m ∈ (W.apply C cfg (.newAccept now stream serverNonce timestamp written)).maced) :
    m ∈ W.maced ∨
      (W.apply C cfg (.newAccept now stream serverNonce timestamp written)).Written cfg m := by
  rcases newAccept_cases C cfg W now stream serverNonce timestamp written with
    h | ⟨hello, data, -, hdata, h⟩
  · rw [h] at hm
    exact Or.inl hm
  · rw [h] at hm ⊢
    rcases List.mem_append.mp hm with hm | hm
    · exact Or.inl hm
    · have hend : ({ W with
            accepts := W.accepts ++ [Accept.start C cfg hello serverNonce written]
            maced := W.maced ++
              [macInput (welcomeMessage cfg 0 serverNonce timestamp) hello.nonce] } :
            World).serverEnd (.tcp W.accepts.length) =
          some (Accept.start C cfg hello serverNonce written).sessionEnd := by
        simp only [serverEnd]
        rw [List.getElem?_concat_length]
        rfl
      have hvalid := welcomeFor_valid hdata (by simp) ht
      exact Or.inr (Or.inr ⟨_, _, timestamp, hend, hvalid, List.mem_singleton.mp hm⟩)

theorem maced_apply (he : W.enabled cfg e) (h : ∀ m ∈ W.maced, W.Written cfg m) :
    ∀ m ∈ (W.apply C cfg e).maced, (W.apply C cfg e).Written cfg m := by
  intro m hm
  have hold : m ∈ W.maced → (W.apply C cfg e).Written cfg m := fun hm => (h m hm).apply he
  cases e with
  | newDial carrier nonce timestamp =>
      rcases List.mem_append.mp hm with hm | hm
      · exact hold hm
      · exact Or.inl ⟨_, he, List.mem_singleton.mp hm⟩
  | dial i ev => exact hold hm
  | accept j ev => exact hold hm
  | server ev =>
      rcases List.mem_append.mp hm with hm | hm
      · exact hold hm
      · rw [Option.mem_toList] at hm
        cases ev with
        | register sessionID serverNonce timestamp => exact written_register he hm
        | _ => cases hm
  | newAccept now stream serverNonce timestamp written =>
      rcases written_newAccept he hm with hm | hm
      · exact hold hm
      · exact hm

/-- A welcome comes from an end for the same client nonce. -/
def Answered (W : World) (nonce : Bytes) (w : Handshake) : Prop :=
  ∃ r v, W.serverEnd r = some v ∧ v.clientNonce = nonce ∧ v.serverNonce = w.nonce ∧
    v.sessionID = w.sessionID

/-- Whatever a dial decodes is the welcome of an end for it. -/
theorem answered_of_decodes (h : ∀ m ∈ W.maced, W.Written cfg m) {nonce data : Bytes}
    {w : Handshake} (hn : nonce.length = 32) (hf : MacUnforged C cfg.secret W.maced data nonce)
    (hd : decodeHandshake C data nonce cfg.secret = .ok w) : W.Answered nonce w := by
  rcases h _ (hf.maced_of_decodes hd) with ⟨h', hvalid, hm⟩ | ⟨r, v, timestamp, hv, hvalid, hm⟩
  · obtain ⟨-, hbind⟩ := decodeHandshake_authentic hvalid hd hm
    rw [hbind] at hn
    cases hn
  · obtain ⟨rfl, hbind⟩ := decodeHandshake_authentic hvalid hd hm
    exact ⟨r, v, hv, hbind.symm, rfl, rfl⟩

theorem Answered.apply {nonce : Bytes} {w : Handshake} (h : W.Answered nonce w)
    (he : W.enabled cfg e) : (W.apply C cfg e).Answered nonce w := by
  obtain ⟨r, v, hv, hrest⟩ := h
  exact ⟨r, v, serverEnd_keep he hv, hrest⟩

/-! ## Dials -/

/-- A dial is as it was, has taken a step, or is new. -/
theorem dial_cases (he : W.enabled cfg e) {i : Nat} {d' : Dial}
    (h : (W.apply C cfg e).dials[i]? = some d') :
    W.dials[i]? = some d' ∨
    (∃ d ev, e = .dial i ev ∧ W.dials[i]? = some d ∧ d.enabled ev ∧
      d' = d.apply C cfg.peer ev) ∨
    (i = W.dials.length ∧ ∃ carrier nonce timestamp, e = .newDial carrier nonce timestamp ∧
      d' = Dial.start carrier nonce) := by
  cases e with
  | newDial carrier nonce timestamp =>
      simp only [apply, List.getElem?_append] at h
      split at h
      · exact Or.inl h
      · rename_i hi
        obtain ⟨hlt, hd⟩ := List.getElem?_eq_some_iff.mp h
        simp only [List.length_singleton] at hlt
        refine Or.inr (Or.inr ⟨by omega, carrier, nonce, timestamp, rfl, ?_⟩)
        rw [← hd]
        simp
  | dial j ev =>
      obtain ⟨d, hd, hen⟩ := he
      simp only [apply, List.getElem?_modify] at h
      by_cases hij : j = i
      · subst hij
        rw [hd] at h
        simp only [if_true, Option.map_eq_map, Option.map_some, Option.some.injEq] at h
        exact Or.inr (Or.inl ⟨d, ev, rfl, hd, hen, h.symm⟩)
      · simp only [hij, if_false] at h
        left
        simpa using h
  | server ev => exact Or.inl h
  | newAccept now stream serverNonce timestamp written =>
      left
      rcases newAccept_cases C cfg W now stream serverNonce timestamp written with
        hw | ⟨_, _, -, -, hw⟩
      · rw [hw] at h
        exact h
      · rw [hw] at h
        exact h
  | accept j ev => exact Or.inl h

end World

namespace Dial

variable {C : Crypto} {cfg : NodeConfig} {d : Dial} {e : DialEvent}

theorem sessionEnd_eq_some {c : SessionEnd} (h : d.sessionEnd = some c) :
    ∃ nonce s confirm, d.phase = .established nonce s confirm ∧
      c = ⟨s.kind, s.sessionID, d.nonce, nonce, s.keys⟩ := by
  rw [sessionEnd] at h
  split at h
  · rename_i nonce s confirm hphase
    exact ⟨nonce, s, confirm, hphase, (Option.some.inj h).symm⟩
  · cases h

/-- The end a dial has derived stays as it is. -/
theorem sessionEnd_apply (C : Crypto) (cfg : NodeConfig) {c : SessionEnd} (he : d.enabled e)
    (h : d.sessionEnd = some c) : (d.apply C cfg e).sessionEnd = some c := by
  obtain ⟨nonce, s, confirm, hphase, rfl⟩ := sessionEnd_eq_some h
  have hmove := apply_move C cfg he
  have hkeep : ∀ s' c', s'.identity = s.identity →
      (d.apply C cfg e).phase = .established nonce s' c' →
      (d.apply C cfg e).sessionEnd = some ⟨s.kind, s.sessionID, d.nonce, nonce, s.keys⟩ := by
    intro s' c' hid hp
    simp only [Session.identity, Prod.mk.injEq] at hid
    simp only [sessionEnd, hp, hid]
    rfl
  generalize hp : (d.apply C cfg e).phase = phase at hmove
  cases hmove with
  | failed n w h' | retried n w w' h' | kept n w h' | welcomed n w w' h' =>
      rw [hphase] at h'
      cases h'
  | moved nonce' s' c c' h' hr =>
      rw [hphase] at h'
      cases h'
      exact hkeep s c' rfl hp
  | stepped nonce' s' c c' ev h' hev hen hr =>
      rw [hphase] at h'
      cases h'
      exact hkeep _ c' (Session.identity_apply C hen) hp
  | closed nonce' s' c h' =>
      rw [hphase] at h'
      cases h'
      exact hkeep _ _ (Session.identity_close s) hp

end Dial

namespace World

variable {C : Crypto} {cfg : NodeConfig} {W : World} {e : WorldEvent}

theorem clientEnd_eq_some {i : Nat} {c : SessionEnd} (h : W.clientEnd i = some c) :
    ∃ d, W.dials[i]? = some d ∧ d.sessionEnd = some c :=
  Option.bind_eq_some_iff.mp h

theorem clientEnd_of {i : Nat} {d : Dial} (h : W.dials[i]? = some d) :
    W.clientEnd i = d.sessionEnd := by
  rw [clientEnd, h]
  rfl

/-- A dial stays where it is and keeps its nonce and its end. -/
theorem dial_keep (C : Crypto) (he : W.enabled cfg e) {i : Nat} {d : Dial}
    (h : W.dials[i]? = some d) :
    ∃ d', (W.apply C cfg e).dials[i]? = some d' ∧ d'.nonce = d.nonce ∧
      ∀ c, d.sessionEnd = some c → d'.sessionEnd = some c := by
  cases e with
  | newDial carrier nonce timestamp =>
      refine ⟨d, ?_, rfl, fun _ hc => hc⟩
      obtain ⟨hlt, -⟩ := List.getElem?_eq_some_iff.mp h
      exact (List.getElem?_append_left hlt).trans h
  | dial j ev =>
      obtain ⟨p, hp, hen⟩ := he
      simp only [apply, List.getElem?_modify, h]
      by_cases hij : j = i
      · subst hij
        rw [h] at hp
        cases hp
        refine ⟨d.apply C cfg.peer ev, by simp, rfl, fun c hc => ?_⟩
        exact Dial.sessionEnd_apply C cfg.peer hen hc
      · exact ⟨d, by simp [hij], rfl, fun _ hc => hc⟩
  | server ev => exact ⟨d, h, rfl, fun _ hc => hc⟩
  | newAccept now stream serverNonce timestamp written =>
      refine ⟨d, ?_, rfl, fun _ hc => hc⟩
      rcases newAccept_cases C cfg W now stream serverNonce timestamp written with
        hw | ⟨_, _, -, -, hw⟩
      · rw [hw]
        exact h
      · rw [hw]
        exact h
  | accept j ev => exact ⟨d, h, rfl, fun _ hc => hc⟩

theorem clientEnd_keep (C : Crypto) (he : W.enabled cfg e) {i : Nat} {c : SessionEnd}
    (h : W.clientEnd i = some c) : (W.apply C cfg e).clientEnd i = some c := by
  obtain ⟨d, hd, hc⟩ := clientEnd_eq_some h
  obtain ⟨d', hd', -, hkeep⟩ := dial_keep C he hd
  rw [clientEnd_of hd']
  exact hkeep c hc

/-- The keys and the nonces of a dial's end are those of an end of the server. -/
structure Derived (C : Crypto) (cfg : NodeConfig) (W : World) (c : SessionEnd) : Prop where
  keys : c.keys = (serverKeys C cfg c.carrier c.clientNonce c.serverNonce).mirror
  identifier : c.carrier = .tcp → c.sessionID = 0
  answered : ∃ r v, W.serverEnd r = some v ∧ v.clientNonce = c.clientNonce ∧
    v.serverNonce = c.serverNonce ∧ (c.carrier = .udp → v.sessionID = c.sessionID)

theorem Derived.apply {c : SessionEnd} (h : W.Derived C cfg c) (he : W.enabled cfg e) :
    (W.apply C cfg e).Derived C cfg c := by
  obtain ⟨r, v, hv, hrest⟩ := h.answered
  exact ⟨h.keys, h.identifier, r, v, serverEnd_keep he hv, hrest⟩

/-- The keys of a dial that has just been established. -/
theorem keys_of_establish {d d' : Dial} {w : Handshake} (hn : d'.nonce = d.nonce)
    (hp : d'.phase = d.establish C cfg.peer w) {c : SessionEnd} (hc : d'.sessionEnd = some c) :
    c.keys = (serverKeys C cfg c.carrier c.clientNonce c.serverNonce).mirror := by
  obtain ⟨nonce, s, confirm, hphase, rfl⟩ := Dial.sessionEnd_eq_some hc
  rw [hp, Dial.establish] at hphase
  cases hphase
  rw [hn]
  simp only [Dial.newSession]
  cases d.carrier <;> rfl

/-- An established dial has derived its keys as the server did. -/
theorem Answered.derived {d d' : Dial} {w : Handshake} (h : W.Answered d.nonce w)
    (hn : d'.nonce = d.nonce) (hp : d'.phase = d.establish C cfg.peer w) {c : SessionEnd}
    (hc : d'.sessionEnd = some c) : W.Derived C cfg c := by
  have hkeys := keys_of_establish hn hp hc
  obtain ⟨nonce, s, confirm, hphase, rfl⟩ := Dial.sessionEnd_eq_some hc
  obtain ⟨r, v, hv, hcn, hsn, hid⟩ := h
  rw [hp, Dial.establish] at hphase
  cases hphase
  refine ⟨hkeys, ?_, r, v, hv, hcn.trans hn.symm, hsn, ?_⟩
  · simp only [Dial.newSession]
    cases d.carrier with
    | tcp => exact fun _ => rfl
    | udp => exact fun hk => by cases hk
  · simp only [Dial.newSession]
    cases d.carrier with
    | tcp => exact fun hk => by cases hk
    | udp => exact fun _ => hid

/-- The dials have nonces of their own, and whatever they hold of a welcome
comes from an end made for them. -/
structure DialsOk (C : Crypto) (cfg : NodeConfig) (W : World) : Prop where
  written : ∀ m ∈ W.maced, W.Written cfg m
  length : ∀ (i : Nat) (d : Dial), W.dials[i]? = some d → d.nonce.length = 32
  nonces : ∀ (i j : Nat) (d d' : Dial), W.dials[i]? = some d → W.dials[j]? = some d' →
    d.nonce = d'.nonce → i = j
  greeted : ∀ (i : Nat) (d : Dial) n w, W.dials[i]? = some d → d.phase = .greeting n w →
    w.sessionID ≠ 0 →
    W.Answered d.nonce w
  derived : ∀ i c, W.clientEnd i = some c → W.Derived C cfg c

theorem DialsOk.decoded (h : W.DialsOk C cfg) {i : Nat} {d : Dial} {ev : DialEvent}
    (hd : W.dials[i]? = some d) (hi : W.Ideal C cfg (.dial i ev)) {w : Handshake}
    (hw : d.Decodes C cfg.peer ev w) : W.Answered d.nonce w := by
  obtain ⟨data, hdata, hdec⟩ := hw
  exact answered_of_decodes h.written (h.length i d hd) ((hi.2 d hd).1 data hdata) hdec

theorem DialsOk.greeted_apply (h : W.DialsOk C cfg) (he : W.enabled cfg e)
    (hi : W.Ideal C cfg e) {i n : Nat} {d' : Dial} {w : Handshake}
    (hd' : (W.apply C cfg e).dials[i]? = some d') (hp : d'.phase = .greeting n w)
    (hw : w.sessionID ≠ 0) : W.Answered d'.nonce w := by
  rcases dial_cases he hd' with hd | ⟨d, ev, rfl, hd, hen, rfl⟩ | ⟨-, carrier, nonce, _, -, rfl⟩
  · exact h.greeted i d' n w hd hp hw
  · have hmove := Dial.apply_move C cfg.peer hen
    rw [hp] at hmove
    cases hmove with
    | retried m w₀ _ h₀ hcase =>
        rcases hcase with rfl | rfl | hdec
        · exact h.greeted i d m w hd h₀ hw
        · exact absurd rfl hw
        · exact h.decoded hd hi hdec
  · cases hp
    exact absurd rfl hw

/-- A dial's end was there, or has just been established. -/
theorem clientEnd_cases (he : W.enabled cfg e) {i : Nat} {c : SessionEnd}
    (hc : (W.apply C cfg e).clientEnd i = some c) :
    W.clientEnd i = some c ∨
    ∃ d ev w, e = .dial i ev ∧ W.dials[i]? = some d ∧
      ((∃ n, d.phase = .greeting n w ∧ w.sessionID ≠ 0) ∨ d.Decodes C cfg.peer ev w) ∧
      (d.apply C cfg.peer ev).phase = d.establish C cfg.peer w ∧
      (d.apply C cfg.peer ev).sessionEnd = some c := by
  obtain ⟨d', hd', hend⟩ := clientEnd_eq_some hc
  rcases dial_cases he hd' with hd | ⟨d, ev, rfl, hd, hen, rfl⟩ | ⟨-, carrier, nonce, _, -, rfl⟩
  · exact Or.inl ((clientEnd_of hd).trans hend)
  · have hmove := Dial.apply_move C cfg.peer hen
    have hold : ∀ p nonce s confirm, d.phase = .established nonce s confirm →
        d.sessionEnd = some p → W.clientEnd i = some c := by
      intro p nonce s confirm _ hp
      have hsame := Dial.sessionEnd_apply C cfg.peer hen hp
      rw [hend] at hsame
      cases hsame
      exact (clientEnd_of hd).trans hp
    generalize hphase : (d.apply C cfg.peer ev).phase = phase at hmove
    cases hmove with
    | failed => simp [Dial.sessionEnd, hphase] at hend
    | retried => simp [Dial.sessionEnd, hphase] at hend
    | kept n w h₀ hid =>
        exact Or.inr ⟨d, ev, w, rfl, hd, Or.inl ⟨n, h₀, hid⟩, hphase, hend⟩
    | welcomed n w w' h₀ hw => exact Or.inr ⟨d, ev, w', rfl, hd, Or.inr hw, hphase, hend⟩
    | moved nonce s c₀ c' h₀ | stepped nonce s c₀ c' ev h₀ | closed nonce s c₀ h₀ =>
        exact Or.inl (hold _ nonce s c₀ h₀ (by simp [Dial.sessionEnd, h₀]; rfl))
  · cases hend

theorem DialsOk.derived_apply (h : W.DialsOk C cfg) (he : W.enabled cfg e)
    (hi : W.Ideal C cfg e) {i : Nat} {c : SessionEnd}
    (hc : (W.apply C cfg e).clientEnd i = some c) : W.Derived C cfg c := by
  rcases clientEnd_cases he hc with hc | ⟨d, ev, w, rfl, hd, hw, hphase, hend⟩
  · exact h.derived i c hc
  · have hn : (d.apply C cfg.peer ev).nonce = d.nonce := rfl
    rcases hw with ⟨n, h₀, hid⟩ | hw
    · exact (h.greeted i d n w hd h₀ hid).derived hn hphase hend
    · exact (h.decoded hd hi hw).derived hn hphase hend

/-- The nonce of every dial has the length a hello needs. -/
theorem dial_length_apply (he : W.enabled cfg e)
    (h : ∀ (i : Nat) (d : Dial), W.dials[i]? = some d → d.nonce.length = 32) {i : Nat} {d' : Dial}
    (hd' : (W.apply C cfg e).dials[i]? = some d') : d'.nonce.length = 32 := by
  rcases dial_cases he hd' with hd | ⟨d, ev, rfl, hd, -, rfl⟩ | ⟨-, carrier, nonce, _, rfl, rfl⟩
  · exact h i d' hd
  · exact h i d hd
  · exact Handshake.Valid.nonce he

/-- Dials whose nonces are drawn afresh are told apart by them. -/
theorem dial_nonces_apply (he : W.enabled cfg e)
    (hfresh : ∀ carrier nonce timestamp, e = .newDial carrier nonce timestamp →
      ∀ d ∈ W.dials, d.nonce ≠ nonce)
    (h : ∀ (i j : Nat) (d d' : Dial), W.dials[i]? = some d → W.dials[j]? = some d' →
      d.nonce = d'.nonce → i = j)
    {i j : Nat} {d d' : Dial} (hd : (W.apply C cfg e).dials[i]? = some d)
    (hd' : (W.apply C cfg e).dials[j]? = some d') (heq : d.nonce = d'.nonce) : i = j := by
  have hback : ∀ (i : Nat) (d' : Dial), (W.apply C cfg e).dials[i]? = some d' →
      (∃ d : Dial, W.dials[i]? = some d ∧ d.nonce = d'.nonce) ∨
      (i = W.dials.length ∧
        ∀ (j : Nat) (d : Dial), W.dials[j]? = some d → d.nonce ≠ d'.nonce) := by
    intro i d' hd'
    rcases dial_cases he hd' with hd | ⟨d, ev, -, hd, -, rfl⟩ | ⟨hlen, _, nonce, _, he', rfl⟩
    · exact Or.inl ⟨d', hd, rfl⟩
    · exact Or.inl ⟨d, hd, rfl⟩
    · exact Or.inr ⟨hlen, fun j d hd => hfresh _ nonce _ he' d (List.mem_of_getElem? hd)⟩
  rcases hback i d hd with ⟨p, hp, hpn⟩ | ⟨hi', hnew⟩
  · rcases hback j d' hd' with ⟨q, hq, hqn⟩ | ⟨hj', hnew'⟩
    · exact h i j p q hp hq (hpn.trans (heq.trans hqn.symm))
    · exact absurd (hpn.trans heq) (hnew' i p hp)
  · rcases hback j d' hd' with ⟨q, hq, hqn⟩ | ⟨hj', -⟩
    · exact absurd (hqn.trans heq.symm) (hnew j q hq)
    · rw [hi', hj']

theorem DialsOk.apply (h : W.DialsOk C cfg) (he : W.enabled cfg e) (hi : W.Ideal C cfg e) :
    (W.apply C cfg e).DialsOk C cfg where
  written := maced_apply he h.written
  length := by
    intro i d' hd'
    exact dial_length_apply he h.length hd'
  nonces := by
    intro i j d d' hd hd' heq
    refine dial_nonces_apply he ?_ h.nonces hd hd' heq
    rintro carrier nonce timestamp rfl
    exact hi.1
  greeted := by
    intro i d n w hd hp hw
    exact (h.greeted_apply he hi hd hp hw).apply he
  derived := by
    intro i c hc
    exact (h.derived_apply he hi hc).apply he

end World

end UnknownTunnel.Transport

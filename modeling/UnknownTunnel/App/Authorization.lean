import UnknownTunnel.App.TcpTable
import UnknownTunnel.App.UdpFlows
import UnknownTunnel.App.UdpIntegrity

/-!
# Which services a peer can reach

A peer names services. A TCP connection is dialed only to the address of the
TCP service that the request names. A service socket for datagrams is dialed
only to the address of the UDP service that the first datagram of its flow
names. Later datagrams of the flow are written to that socket whatever name
they carry, so that each datagram goes to the service it names only if all
messages of a flow name the same one.
-/

namespace UnknownTunnel.App

open Foundation ConfigFile Protocol

/-! ## Service sockets -/

namespace UdpFlows

variable {services : Services} {F F' : UdpFlows}

/-- The service and the address of the socket of a flow. -/
def socket (F : UdpFlows) (object : Nat) : Option (Bytes × Bytes) :=
  F.remotes[object]?.map fun flow => (flow.service, flow.address)

/-- A UDP service of the configuration and its address. -/
def UdpService (services : Services) (name address : Bytes) : Prop :=
  ∃ svc, services.lookup name = some svc ∧ svc.network = udp ∧ address = svc.address

/-- What a step other than the making of a flow does: sockets stay what they
are, and no ID gets another flow. -/
structure SocketsKept (F F' : UdpFlows) : Prop where
  socket : ∀ object, F'.socket object = F.socket object
  remoteUDP : ∀ id object, Finmap.lookup id F'.remoteUDP = some object →
    Finmap.lookup id F.remoteUDP = some object

theorem SocketsKept.of_eq (hr : F'.remotes = F.remotes) (ht : F'.remoteUDP = F.remoteUDP) :
    SocketsKept F F' := by
  constructor
  · intro object
    rw [UdpFlows.socket, UdpFlows.socket, hr]
  · intro id object h
    rwa [ht] at h

theorem socketsKept_touch (F : UdpFlows) (object now : Nat) :
    SocketsKept F
      { F with remotes := F.remotes.modify object fun flow => { flow with last := now } } := by
  refine ⟨?_, fun _ _ h => h⟩
  intro i
  simp only [UdpFlows.socket, List.getElem?_modify]
  split
  · simp only [Option.map_eq_map, Option.map_map]
    rfl
  · simp

theorem socketsKept_deleteRemoteUDP (F : UdpFlows) (flowID object : Nat) :
    SocketsKept F (F.deleteRemoteUDP flowID object) := by
  unfold UdpFlows.deleteRemoteUDP
  split
  · refine ⟨fun _ => rfl, ?_⟩
    intro id object' h
    rw [Table.lookup_erase_eq] at h
    split at h
    · cases h
    · exact h
  · exact .of_eq rfl rfl

theorem assemblies_deleteRemoteUDP (F : UdpFlows) (flowID object : Nat) :
    (F.deleteRemoteUDP flowID object).assemblies = F.assemblies := by
  unfold UdpFlows.deleteRemoteUDP
  split <;> rfl

theorem socketsKept_cleanup (F : UdpFlows) (now : Nat) : SocketsKept F (F.cleanup now) :=
  ⟨fun _ => rfl, fun _ _ h => (Table.lookup_filter.mp h).1⟩

theorem socketsKept_clear (F : UdpFlows) : SocketsKept F F.clear := by
  refine ⟨fun _ => rfl, ?_⟩
  intro id object h
  change Finmap.lookup id (∅ : Table Nat Nat) = some object at h
  rw [Finmap.lookup_empty] at h
  cases h

theorem socketsKept_getEntryUDPFlow (F : UdpFlows) (forwardName service : Bytes) (pc : Nat)
    (client : Addr) (draws : List Nat) (now : Nat) :
    SocketsKept F (F.getEntryUDPFlow forwardName service pc client draws now).1 ∧
      (F.getEntryUDPFlow forwardName service pc client draws now).1.assemblies =
        F.assemblies := by
  unfold getEntryUDPFlow
  split
  · exact ⟨.of_eq rfl rfl, rfl⟩
  · split
    · exact ⟨.of_eq rfl rfl, rfl⟩
    · split <;> exact ⟨.of_eq rfl rfl, rfl⟩

/-- Flows are kept under IDs, and their sockets are those of UDP services. -/
structure SocketsAllowed (services : Services) (F : UdpFlows) : Prop where
  stored : ∀ id object, Finmap.lookup id F.remoteUDP = some object →
    ∃ service address, F.socket object = some (service, address)
  socket : ∀ object service address, F.socket object = some (service, address) →
    UdpService services service address

theorem SocketsAllowed.of_kept (h : F.SocketsAllowed services) (hk : SocketsKept F F') :
    F'.SocketsAllowed services := by
  constructor
  · intro id object ho
    rw [hk.socket]
    exact h.stored id object (hk.remoteUDP id object ho)
  · intro object service address ho
    rw [hk.socket] at ho
    exact h.socket object service address ho

/-- What the locked part of `handleUDPDatagram` does with a datagram. -/
inductive Routed (services : Services) (F : UdpFlows) (flowID : Nat) (service : Bytes) :
    UdpFlows × Delivery → Prop
  | kept {F' : UdpFlows} {delivery : Delivery} (sockets : SocketsKept F F')
      (other : ∀ object, delivery ≠ .service object) :
      Routed services F flowID service (F', delivery)
  | reused {F' : UdpFlows} {object : Nat} (sockets : SocketsKept F F')
      (stored : Finmap.lookup flowID F.remoteUDP = some object) :
      Routed services F flowID service (F', .service object)
  | made {F' : UdpFlows} {address : Bytes} (allowed : UdpService services service address)
      (old : ∀ object, object ≠ F.remotes.length → F'.socket object = F.socket object)
      (new : F'.socket F.remotes.length = some (service, address))
      (stored : F'.remoteUDP = F.remoteUDP.insert flowID F.remotes.length) :
      Routed services F flowID service (F', .service F.remotes.length)

theorem handleUDPDatagram_routed (dialed : Bool) (now flowID : Nat) (service : Bytes) :
    Routed services F flowID service
      (F.handleUDPDatagram services dialed now flowID service) := by
  unfold handleUDPDatagram
  split
  · exact .kept (.of_eq rfl rfl) nofun
  · split
    · rename_i object hobject
      exact .reused (socketsKept_touch F object now) hobject
    · split
      · exact .kept (.of_eq rfl rfl) nofun
      · split
        · exact .kept (.of_eq rfl rfl) nofun
        · rename_i svc hsvc
          split
          · rename_i hdial
            refine .made ⟨svc, hsvc, hdial.1, rfl⟩ ?_ ?_ rfl
            · intro object hne
              simp only [socket]
              rcases Nat.lt_or_gt_of_ne hne with hlt | hgt
              · rw [List.getElem?_append_left hlt]
              · rw [List.getElem?_eq_none (by simp; omega), List.getElem?_eq_none (by omega)]
            · simp [socket]
          · exact .kept (.of_eq rfl rfl) nofun

theorem socket_eq_none (F : UdpFlows) : F.socket F.remotes.length = none := by
  simp [socket]

end UdpFlows

/-! ## Names of datagrams -/

theorem UdpAssembly.name_put {a : UdpAssembly} {name : Bytes} (h : a.name = name) (part : Nat)
    (chunk : Bytes) : (a.put name part chunk).name = name := by
  have hnamed : (if a.name = [] ∧ name ≠ [] then { a with name := name } else a).name = name := by
    split
    · rfl
    · exact h
  unfold put
  by_cases hvacant : a.chunks[part]? = some []
  · simp only [hvacant, if_true]
    exact hnamed
  · simp only [hvacant, if_false]
    exact hnamed

/-- The assembly at a key and the datagram that is passed on have a name. -/
structure Named (name : Bytes) (key : Nat × Nat)
    (result : Assemblies × Option (Bytes × Bytes)) : Prop where
  kept : ∀ a, Finmap.lookup key result.1 = some a → a.name = name
  passed : ∀ service data, result.2 = some (service, data) → service = name

theorem storeChunk_named {m : UdpMessage} {a : UdpAssembly} (h : a.name = m.name) (part : Nat)
    (assemblies : Assemblies) : Named m.name m.key (storeChunk m part a assemblies) := by
  have hname := UdpAssembly.name_put h part (m.payload.drop 4)
  unfold storeChunk
  simp only
  split
  · refine ⟨?_, nofun⟩
    intro b hb
    rw [Finmap.lookup_insert] at hb
    cases hb
    exact hname
  · constructor
    · intro b hb
      rw [Finmap.lookup_erase] at hb
      cases hb
    · intro service data hjoined
      unfold UdpAssembly.joined at hjoined
      split at hjoined
      · cases hjoined
      · cases hjoined
        exact hname

/-- A message of the same name as the assembly it joins. -/
theorem handleUDPChunk_named {m : UdpMessage} {assemblies : Assemblies} (now : Nat)
    (h : ∀ a, Finmap.lookup m.key assemblies = some a → a.name = m.name) :
    Named m.name m.key (handleUDPChunk now m assemblies) := by
  have hsame : Named m.name m.key (assemblies, none) := ⟨h, nofun⟩
  unfold handleUDPChunk
  split
  · exact hsame
  · simp only
    split
    · exact hsame
    · split
      · split
        · exact hsame
        · exact storeChunk_named rfl _ _
      · rename_i a ha
        split
        · refine ⟨?_, nofun⟩
          intro b hb
          rw [Finmap.lookup_erase] at hb
          cases hb
        · exact storeChunk_named (h a ha) _ _

theorem handleUDPChunk_of_not_fits {m : UdpMessage} (h : ¬ FlowSystem.fits m) (now : Nat)
    (assemblies : Assemblies) : handleUDPChunk now m assemblies = (assemblies, none) := by
  unfold handleUDPChunk
  split
  · rfl
  · rename_i hlen
    simp only
    rw [if_pos]
    simp only [FlowSystem.fits] at h
    omega

/-! ## Runs -/

namespace FlowSystem

variable {cfg : Config} {S : FlowSystem} {e : FlowEvent}

/-- A message names the service of the assembly it joins and of the flow that
its ID has, if there are any. -/
def NamesAgree (S : FlowSystem) : FlowEvent → Prop
  | .message _ m =>
      (∀ a ∈ Finmap.lookup m.key S.flows.assemblies, a.name = m.name) ∧
      ∀ s ∈ (Finmap.lookup m.connID S.flows.remoteUDP).bind S.flows.socket, s.1 = m.name
  | _ => True

instance decidableNamesAgree : ∀ (S : FlowSystem) (e : FlowEvent), Decidable (S.NamesAgree e)
  | S, .message _ m => inferInstanceAs (Decidable
      ((∀ a ∈ Finmap.lookup m.key S.flows.assemblies, a.name = m.name) ∧
        ∀ s ∈ (Finmap.lookup m.connID S.flows.remoteUDP).bind S.flows.socket, s.1 = m.name))
  | _, .read _ _ | _, .enter _ _ _ | _, .check | _, .look _ _ | _, .write _ | _, .remoteError _
  | _, .cleanup _ | _, .close | _, .clear => isTrue trivial

/-- The messages of a datagram name one service. -/
def Naming (service : Bytes) (messages : List UdpMessage) : Prop :=
  messages ≠ [] ∧ ∀ m ∈ messages, m.name = service

/-- A datagram before it is written: it names the service of the flow that its
ID has, or the service whose socket it is to be written to. -/
def StageOk (F : UdpFlows) : DatagramStage → Prop
  | .idle => True
  | .joined flowID service _ messages | .entering flowID service _ messages =>
      Naming service messages ∧
        ∀ object name address, Finmap.lookup flowID F.remoteUDP = some object →
          F.socket object = some (name, address) → name = service
  | .writing _ object _ messages =>
      ∃ service address, F.socket object = some (service, address) ∧ Naming service messages

structure Authorized (cfg : Config) (S : FlowSystem) : Prop where
  sockets : S.flows.SocketsAllowed cfg.services
  parts : ∀ key a, Finmap.lookup key S.flows.assemblies = some a → Naming a.name (S.parts key)
  incoming : StageOk S.flows S.incoming
  written : ∀ w ∈ S.written,
    ∃ service address, S.flows.socket w.object = some (service, address) ∧
      Naming service w.messages

theorem StageOk.of_kept {F F' : UdpFlows} {stage : DatagramStage} (h : StageOk F stage)
    (hk : UdpFlows.SocketsKept F F') : StageOk F' stage := by
  cases stage with
  | idle => trivial
  | joined flowID service data messages | entering flowID service data messages =>
      refine ⟨h.1, ?_⟩
      intro object name address ho hs
      rw [hk.socket] at hs
      exact h.2 object name address (hk.remoteUDP flowID object ho) hs
  | writing flowID object data messages =>
      simp only [StageOk, hk.socket]
      exact h

theorem authorized_start (cfg : Config) : start.Authorized cfg := by
  constructor
  · constructor
    · intro id object h
      change Finmap.lookup id (∅ : Table Nat Nat) = some object at h
      rw [Finmap.lookup_empty] at h
      cases h
    · intro object service address h
      simp [start, UdpFlows.socket] at h
  · intro key a h
    change Finmap.lookup key (∅ : Assemblies) = some a at h
    rw [Finmap.lookup_empty] at h
    cases h
  · trivial
  · nofun

/-- A step that keeps the sockets, and either keeps an assembly or drops it. -/
theorem Authorized.of_kept {S' : FlowSystem} (h : S.Authorized cfg)
    (hk : UdpFlows.SocketsKept S.flows S'.flows)
    (ha : ∀ key a, Finmap.lookup key S'.flows.assemblies = some a →
      Finmap.lookup key S.flows.assemblies = some a)
    (hp : S'.parts = S.parts) (hi : StageOk S.flows S'.incoming)
    (hw : S'.written = S.written) : S'.Authorized cfg where
  sockets := h.sockets.of_kept hk
  parts := by
    intro key a hkey
    rw [hp]
    exact h.parts key a (ha key a hkey)
  incoming := hi.of_kept hk
  written := by
    rw [hw]
    intro w hmem
    rw [hk.socket]
    exact h.written w hmem

theorem naming_gather (h : S.Authorized cfg) {m : UdpMessage}
    (hname : ∀ a, Finmap.lookup m.key S.flows.assemblies = some a → a.name = m.name) :
    Naming m.name (S.gather m) := by
  unfold gather
  split
  · refine ⟨List.cons_ne_nil m [], ?_⟩
    intro m' hm'
    rw [List.mem_singleton.mp hm']
  · rename_i a ha
    refine ⟨by simp, ?_⟩
    intro m' hm'
    rcases List.mem_append.mp hm' with hm' | hm'
    · rw [(h.parts m.key a ha).2 m' hm', hname a ha]
    · rw [List.mem_singleton.mp hm']

theorem Authorized.receive (h : S.Authorized cfg) (now : Nat) {m : UdpMessage}
    (hok : S.NamesAgree (.message now m)) : (S.receive now m).Authorized cfg := by
  obtain ⟨hname, hflow⟩ := hok
  have hnamed := handleUDPChunk_named now hname
  by_cases hfits : fits m
  · refine ⟨?_, ?_, ?_, h.written⟩
    · exact h.sockets.of_kept (.of_eq rfl rfl)
    · intro key a ha
      simp only [FlowSystem.receive, if_pos hfits] at ha ⊢
      by_cases hkey : key = m.key
      · subst hkey
        rw [Function.update_self, hnamed.kept a ha]
        exact naming_gather h hname
      · rw [Function.update_of_ne hkey]
        rw [lookup_handleUDPChunk_of_ne hkey] at ha
        exact h.parts key a ha
    · simp only [FlowSystem.receive]
      split
      · trivial
      · rename_i service data hwhole
        rw [hnamed.passed service data hwhole]
        refine ⟨naming_gather h hname, ?_⟩
        intro object name address ho hs
        exact hflow (name, address) (Option.bind_eq_some_iff.mpr ⟨object, ho, hs⟩)
  · simp only [FlowSystem.receive, handleUDPChunk_of_not_fits hfits, if_neg hfits]
    exact h.of_kept (.of_eq rfl rfl) (fun _ _ ha => ha) rfl trivial rfl

theorem assemblies_handleUDPDatagram (F : UdpFlows) (services : Services) (dialed : Bool)
    (now flowID : Nat) (service : Bytes) :
    (F.handleUDPDatagram services dialed now flowID service).1.assemblies = F.assemblies := by
  unfold UdpFlows.handleUDPDatagram
  split
  · rfl
  · split
    · rfl
    · split
      · rfl
      · split
        · rfl
        · split <;> rfl

/-- A datagram is looked up: its flow is one of the service it names. -/
theorem Authorized.look (h : S.Authorized cfg) (now : Nat) (dialed : Bool) :
    (S.look cfg now dialed).Authorized cfg := by
  unfold FlowSystem.look
  split
  · rename_i flowID service data messages hstage
    have hin : Naming service messages ∧ ∀ object name address,
        Finmap.lookup flowID S.flows.remoteUDP = some object →
          S.flows.socket object = some (name, address) → name = service := by
      have hok := h.incoming
      rwa [hstage] at hok
    have hrouted : UdpFlows.Routed cfg.services S.flows flowID service
        (S.flows.handleUDPDatagram cfg.services dialed now flowID service) :=
      UdpFlows.handleUDPDatagram_routed dialed now flowID service
    have hassemblies := assemblies_handleUDPDatagram S.flows cfg.services dialed now flowID service
    simp only
    generalize S.flows.handleUDPDatagram cfg.services dialed now flowID service = result at *
    obtain ⟨F', delivery⟩ := result
    have hasm : ∀ key a, Finmap.lookup key F'.assemblies = some a →
        Finmap.lookup key S.flows.assemblies = some a := by
      intro key a ha
      rwa [show F'.assemblies = S.flows.assemblies from hassemblies] at ha
    cases hrouted with
    | kept sockets other =>
        cases delivery with
        | reply pc client => exact h.of_kept sockets hasm rfl trivial rfl
        | service object => exact absurd rfl (other object)
        | dropped => exact h.of_kept sockets hasm rfl trivial rfl
    | @reused _ object sockets stored =>
        refine h.of_kept sockets hasm rfl ?_ rfl
        obtain ⟨name, address, hsocket⟩ := h.sockets.stored flowID object stored
        have hname := hin.2 object name address stored hsocket
        exact ⟨service, address, hname ▸ hsocket, hin.1⟩
    | @made _ address allowed old new stored =>
        have hlt : ∀ object name addr, S.flows.socket object = some (name, addr) →
            F'.socket object = some (name, addr) := by
          intro object name addr hs
          rw [old, hs]
          rintro rfl
          rw [UdpFlows.socket_eq_none] at hs
          cases hs
        refine ⟨⟨?_, ?_⟩, ?_, ⟨service, address, new, hin.1⟩, ?_⟩
        · intro id object ho
          rw [stored, Table.lookup_insert_eq] at ho
          split at ho
          · cases ho
            exact ⟨service, address, new⟩
          · obtain ⟨name, addr, hs⟩ := h.sockets.stored id object ho
            exact ⟨name, addr, hlt object name addr hs⟩
        · intro object name addr hs
          by_cases hobject : object = S.flows.remotes.length
          · subst hobject
            rw [new] at hs
            cases hs
            exact allowed
          · rw [old object hobject] at hs
            exact h.sockets.socket object name addr hs
        · intro key a ha
          exact h.parts key a (hasm key a ha)
        · intro w hw
          obtain ⟨name, addr, hs, hnaming⟩ := h.written w hw
          exact ⟨name, addr, hlt w.object name addr hs, hnaming⟩
  · exact h

/-- A write to the socket of the service that a datagram names. -/
theorem Authorized.written_append (h : S.Authorized cfg) {object : Nat}
    {messages : List UdpMessage}
    (hw : ∃ service address, S.flows.socket object = some (service, address) ∧
      Naming service messages) (data : Bytes) :
    ({ S with incoming := .idle, written := S.written ++ [⟨object, data, messages⟩] } :
      FlowSystem).Authorized cfg := by
  refine ⟨h.sockets, h.parts, trivial, ?_⟩
  intro w hmem
  rcases List.mem_append.mp hmem with hmem | hmem
  · exact h.written w hmem
  · rw [List.mem_singleton.mp hmem]
    exact hw

theorem Authorized.apply (h : S.Authorized cfg) (hok : S.NamesAgree e) :
    (S.apply cfg e).Authorized cfg := by
  have hassemblies : ∀ key a, Finmap.lookup key S.flows.assemblies = some a →
      Finmap.lookup key S.flows.assemblies = some a := fun _ _ ha => ha
  have hdelete : ∀ (keep : Bool) (flowID object : Nat),
      UdpFlows.SocketsKept S.flows
        (if keep then S.flows else S.flows.deleteRemoteUDP flowID object) ∧
      ∀ key a, Finmap.lookup key (if keep then S.flows
        else S.flows.deleteRemoteUDP flowID object).assemblies = some a →
          Finmap.lookup key S.flows.assemblies = some a := by
    intro keep flowID object
    cases keep with
    | true => exact ⟨.of_eq rfl rfl, hassemblies⟩
    | false =>
        refine ⟨UdpFlows.socketsKept_deleteRemoteUDP S.flows flowID object, ?_⟩
        intro key a ha
        exact UdpFlows.assemblies_deleteRemoteUDP S.flows flowID object ▸ ha
  cases e with
  | read i client =>
      simp only [FlowSystem.apply]
      split
      · exact h
      · exact ⟨h.sockets, h.parts, h.incoming, h.written⟩
  | enter call draws now =>
      simp only [FlowSystem.apply, FlowSystem.enter]
      split
      · exact h
      · split
        · exact h
        · obtain ⟨hsockets, hasm⟩ :=
            UdpFlows.socketsKept_getEntryUDPFlow S.flows _ _ _ _ draws now
          refine h.of_kept hsockets ?_ rfl h.incoming rfl
          intro key a ha
          exact hasm ▸ ha
  | message now m => exact h.receive now hok
  | check =>
      simp only [FlowSystem.apply]
      split
      · rename_i flowID service data messages hstage
        have hin := h.incoming
        rw [hstage] at hin
        refine h.of_kept (.of_eq rfl rfl) hassemblies rfl ?_ rfl
        change StageOk S.flows (if S.flows.closed then .idle
          else .entering flowID service data messages)
        split
        · trivial
        · exact hin
      · exact h
  | look now dialed => exact h.look now dialed
  | write written =>
      simp only [FlowSystem.apply]
      split
      · rename_i flowID object data messages hstage
        have hin := h.incoming
        rw [hstage] at hin
        exact (h.written_append hin data).of_kept (hdelete written flowID object).1
          (hdelete written flowID object).2 rfl trivial rfl
      · exact h
  | remoteError object =>
      simp only [FlowSystem.apply]
      split
      · rename_i flow _
        exact h.of_kept (hdelete false flow.flowID object).1 (hdelete false flow.flowID object).2
          rfl h.incoming rfl
      · exact h
  | cleanup now =>
      exact h.of_kept (UdpFlows.socketsKept_cleanup S.flows now)
        (fun _ _ ha => (Table.lookup_filter.mp ha).1) rfl h.incoming rfl
  | close => exact h.of_kept (.of_eq rfl rfl) hassemblies rfl h.incoming rfl
  | clear =>
      refine h.of_kept (UdpFlows.socketsKept_clear S.flows) ?_ rfl h.incoming rfl
      intro key a ha
      change Finmap.lookup key (∅ : Assemblies) = some a at ha
      rw [Finmap.lookup_empty] at ha
      cases ha

theorem authorized_of_reachable (run : (flowMachine cfg).ReachableUnder NamesAgree S) :
    S.Authorized cfg := by
  refine Machine.ReachableUnder.invariant (I := Authorized cfg) (J := fun _ => True) run
    (fun _ _ => trivial) ?_ fun s e _ h _ hok => h.apply hok
  rintro s rfl
  exact authorized_start cfg

end FlowSystem

/-- Every dial for the peer goes to the address of the TCP service that the
request to open names. In every run in which the messages of a datagram and of
a flow name one service, every datagram that is written to a service socket is
written to one dialed to the address of the UDP service that its own messages
name, which is the service its flow was opened for. -/
theorem services_authorized (cfg : Config) :
    (∀ T, (tcpTableMachine cfg).Reachable T → ∀ d ∈ T.dialed, d.1.type = typeOpenTCP ∧
      ∃ svc, cfg.services.lookup d.1.name = some svc ∧ svc.network = tcp ∧
        d.2 = svc.address) ∧
    (∀ S, (flowMachine cfg).ReachableUnder FlowSystem.NamesAgree S → ∀ w ∈ S.written,
      w.messages ≠ [] ∧
      ∃ flow, S.flows.remotes[w.object]? = some flow ∧ ∀ m ∈ w.messages,
        m.name = flow.service ∧
        ∃ svc, cfg.services.lookup m.name = some svc ∧ svc.network = udp ∧
          flow.address = svc.address) := by
  constructor
  · intro T run d hd
    obtain ⟨htype, haddress⟩ := (TcpTable.dialsAllowed_of_reachable run).dialed d hd
    exact ⟨htype, TcpTable.tcpAddress_eq_some haddress⟩
  · intro S run w hw
    have h := FlowSystem.authorized_of_reachable run
    obtain ⟨service, address, hsocket, hne, hnames⟩ := h.written w hw
    obtain ⟨flow, hflow, heq⟩ := Option.map_eq_some_iff.mp hsocket
    cases heq
    refine ⟨hne, flow, hflow, ?_⟩
    intro m hm
    rw [hnames m hm]
    exact ⟨rfl, h.sockets.socket w.object flow.service flow.address hsocket⟩

/-- A datagram of one message under the ID 7. -/
def oneMessage (seq : Nat) (name : Bytes) : UdpMessage :=
  ⟨7, seq, name, Bytes.bePut 2 0 ++ Bytes.bePut 2 1 ++ [5]⟩

/-- Two datagrams of one flow, the second of which may name another service. -/
def twoDatagrams (name : Bytes) : List FlowEvent :=
  [.message 0 (oneMessage 1 (ofString "dns")), .check, .look 0 true, .write true,
    .message 0 (oneMessage 2 name), .check, .look 0 true, .write true]

theorem services_authorized_two_datagrams :
    ∃ S, (flowMachine (sampleConfig.normalize sampleLibrary)).ReachableUnder
      FlowSystem.NamesAgree S ∧ S.written.length = 2 ∧ ∀ w ∈ S.written,
      ∃ flow, S.flows.remotes[w.object]? = some flow ∧ ∀ m ∈ w.messages, m.name = flow.service := by
  have run : (flowMachine (sampleConfig.normalize sampleLibrary)).ReachableUnder
      FlowSystem.NamesAgree ((twoDatagrams (ofString "dns")).foldl (FlowSystem.apply _)
        FlowSystem.start) :=
    Machine.ReachableUnder.run (.start rfl) (twoDatagrams (ofString "dns")) (by decide +kernel)
  refine ⟨_, run, by decide +kernel, ?_⟩
  intro w hw
  obtain ⟨-, flow, hflow, hnames⟩ := (services_authorized _).2 _ run w hw
  exact ⟨flow, hflow, fun m hm => (hnames m hm).1⟩

/-- The second datagram names a service that is not configured, and is written
to the socket of the service that the first one names. -/
theorem unconfigured_service_name_forwarded :
    sampleConfig.Accepted sampleLibrary ∧
    ∃ S, (flowMachine (sampleConfig.normalize sampleLibrary)).Reachable S ∧
      ∃ w ∈ S.written, ∃ m ∈ w.messages,
        (sampleConfig.normalize sampleLibrary).services.lookup m.name = none ∧
        ∃ flow, S.flows.remotes[w.object]? = some flow ∧ m.name ≠ flow.service ∧
          flow.address = ofString "127.0.0.1:53" := by
  refine ⟨by decide +kernel, _,
    Machine.ReachableUnder.run (.start rfl) (twoDatagrams (ofString "web")) (by decide +kernel),
    ⟨0, [5], [oneMessage 2 (ofString "web")]⟩, by decide +kernel,
    oneMessage 2 (ofString "web"), List.mem_cons_self, by decide +kernel,
    ⟨7, ofString "127.0.0.1:53", ofString "dns", 0⟩, by decide +kernel, by decide +kernel, rfl⟩

end UnknownTunnel.App

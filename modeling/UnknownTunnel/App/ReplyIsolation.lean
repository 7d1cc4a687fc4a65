import UnknownTunnel.App.UdpFlows
import UnknownTunnel.Foundation.Index

/-!
# Replies go to the client they are for

The keys of the clients and the flows kept for them are in step at all times
when `udpMu` is free: the table of keys is a bijection onto the IDs in use, and
the flow of an ID has the socket, the client and the service of its key. The
parts of a key can be told from the key, so a reply under an ID is written to
the one client for which that ID was allocated.
-/

namespace UnknownTunnel.App

open Foundation ConfigFile

/-! ## Keys -/

/-- The key of a client determines the name of the forward and the client. -/
theorem flowKey_inj {name name' : Bytes} {client client' : Addr}
    (hn : identifierRE name = true) (hn' : identifierRE name' = true)
    (hc : 124 ∉ client.network) (hc' : 124 ∉ client'.network)
    (h : flowKey name client = flowKey name' client') : name = name' ∧ client = client' := by
  simp only [flowKey, List.append_assoc, List.singleton_append] at h
  obtain ⟨hname, hrest⟩ := Bytes.append_separator_inj (notMem_of_identifier hn (by decide))
    (notMem_of_identifier hn' (by decide)) h
  obtain ⟨hnetwork, htext⟩ := Bytes.append_separator_inj hc hc' hrest
  refine ⟨hname, ?_⟩
  cases client
  cases client'
  simp_all

/-! ## Steps -/

/-- What a step does to the flows of clients. -/
inductive EntryStep (cfg : Config) (F F' : UdpFlows) : Prop
  | same (flows : F'.entryUDP = F.entryUDP) (keys : F'.entryUDPKeys = F.entryUDPKeys)
  | touched (id : Nat) (flow : EntryFlow) (now : Nat)
      (old : Finmap.lookup id F.entryUDP = some flow)
      (flows : F'.entryUDP = F.entryUDP.insert id { flow with last := now })
      (keys : F'.entryUDPKeys = F.entryUDPKeys)
  | made (i : Nat) (f : Forward) (client : Addr) (id now : Nat)
      (forward : cfg.forwards[i]? = some f) (network : 124 ∉ client.network)
      (unlisted : F.entryFlow (flowKey f.name client) = none)
      (unused : Finmap.lookup id F.entryUDP = none)
      (flows : F'.entryUDP = F.entryUDP.insert id ⟨i, client, f.service, now⟩)
      (keys : F'.entryUDPKeys = F.entryUDPKeys.insert (flowKey f.name client) id)
  | cleaned (now : Nat)
      (flows : F'.entryUDP = F.entryUDP.filter fun _ flow => UdpFlows.entryAlive now flow)
      (keys : F'.entryUDPKeys = F.entryUDPKeys.filter fun _ id => F.keyAlive now id)
  | cleared (flows : F'.entryUDP = ∅) (keys : F'.entryUDPKeys = ∅)

namespace UdpFlows

variable {cfg : Config} {F : UdpFlows}

theorem entryFlow_eq_some {key : Bytes} {id : Nat} {flow : EntryFlow}
    (h : F.entryFlow key = some (id, flow)) :
    Finmap.lookup key F.entryUDPKeys = some id ∧ Finmap.lookup id F.entryUDP = some flow := by
  obtain ⟨id', hid, hflow⟩ := Option.bind_eq_some_iff.mp h
  obtain ⟨flow', hflow', heq⟩ := Option.map_eq_some_iff.mp hflow
  cases heq
  exact ⟨hid, hflow'⟩

theorem getEntryUDPFlow_step {i : Nat} {f : Forward} {client : Addr}
    (hf : cfg.forwards[i]? = some f) (hc : 124 ∉ client.network) (draws : List Nat) (now : Nat) :
    EntryStep cfg F (F.getEntryUDPFlow f.name f.service i client draws now).1 := by
  unfold getEntryUDPFlow
  split
  · rename_i id flow hflow
    exact .touched id flow now (entryFlow_eq_some hflow).2 rfl rfl
  · rename_i hnone
    split
    · exact .same rfl rfl
    · split
      · exact .same rfl rfl
      · rename_i id hfind
        have hunused := List.find?_some hfind
        exact .made i f client id now hf hc hnone (Option.isNone_iff_eq_none.mp hunused) rfl rfl

/-- The flows after a call were there before, up to the time of their last use,
or are the one that the call has made. -/
theorem lookup_getEntryUDPFlow {forwardName service : Bytes} {pc : Nat} {client : Addr}
    {draws : List Nat} {now id : Nat} {flow : EntryFlow}
    (h : Finmap.lookup id (F.getEntryUDPFlow forwardName service pc client draws now).1.entryUDP =
      some flow) :
    (∃ old, Finmap.lookup id F.entryUDP = some old ∧ flow.pc = old.pc ∧
      flow.client = old.client) ∨
    (F.entryFlow (flowKey forwardName client) = none ∧
      (F.getEntryUDPFlow forwardName service pc client draws now).2 = some id ∧ flow.pc = pc ∧
      flow.client = client) := by
  generalize hresult : F.getEntryUDPFlow forwardName service pc client draws now = result at h
  unfold getEntryUDPFlow at hresult
  split at hresult
  · rename_i id' old hold
    subst hresult
    rw [Table.lookup_insert_eq] at h
    split at h
    · rename_i hid
      cases h
      exact Or.inl ⟨old, hid ▸ (entryFlow_eq_some hold).2, rfl, rfl⟩
    · exact Or.inl ⟨flow, h, rfl, rfl⟩
  · rename_i hnone
    split at hresult
    · subst hresult
      exact Or.inl ⟨flow, h, rfl, rfl⟩
    · split at hresult
      · subst hresult
        exact Or.inl ⟨flow, h, rfl, rfl⟩
      · subst hresult
        rw [Table.lookup_insert_eq] at h
        split at h
        · rename_i hid
          cases h
          exact Or.inr ⟨hnone, by rw [hid], rfl, rfl⟩
        · exact Or.inl ⟨flow, h, rfl, rfl⟩

theorem handleUDPDatagram_step (services : Services) (dialed : Bool) (now flowID : Nat)
    (service : Bytes) :
    EntryStep cfg F (F.handleUDPDatagram services dialed now flowID service).1 := by
  unfold handleUDPDatagram
  split
  · rename_i flow hflow
    exact .touched flowID flow now hflow rfl rfl
  · split
    · exact .same rfl rfl
    · split
      · exact .same rfl rfl
      · split
        · exact .same rfl rfl
        · split <;> exact .same rfl rfl

/-- A datagram is a reply exactly if its ID is one of a client's flow. -/
theorem handleUDPDatagram_reply {services : Services} {dialed : Bool} {now flowID : Nat}
    {service : Bytes} {pc : Nat} {client : Addr}
    (h : (F.handleUDPDatagram services dialed now flowID service).2 = .reply pc client) :
    ∃ flow, Finmap.lookup flowID F.entryUDP = some flow ∧ flow.pc = pc ∧ flow.client = client := by
  unfold handleUDPDatagram at h
  split at h
  · rename_i flow hflow
    cases h
    exact ⟨flow, hflow, rfl, rfl⟩
  · split at h
    · cases h
    · split at h
      · cases h
      · split at h
        · cases h
        · split at h <;> cases h

theorem deleteRemoteUDP_step (flowID object : Nat) :
    EntryStep cfg F (F.deleteRemoteUDP flowID object) := by
  unfold deleteRemoteUDP
  split <;> exact .same rfl rfl

end UdpFlows

namespace FlowSystem

variable {cfg : Config} {S : FlowSystem} {e : FlowEvent}

/-- The calls under way are for clients of forwards. -/
def CallsOk (S : FlowSystem) : Prop := ∀ c ∈ S.calls, 124 ∉ c.2.network

theorem callsOk_apply (h : S.CallsOk) (he : S.enabled cfg e) : (S.apply cfg e).CallsOk := by
  cases e with
  | read i client =>
      simp only [apply]
      split
      · exact h
      · intro c hc
        rcases List.mem_append.mp hc with hc | hc
        · exact h c hc
        · rw [List.mem_singleton.mp hc]
          exact he.2
  | enter call draws now =>
      simp only [apply, enter]
      split
      · exact h
      · split
        · exact h
        · intro c hc
          exact h c (List.mem_of_mem_eraseIdx hc)
  | look now dialed =>
      simp only [apply, look]
      split
      · split <;> exact h
      · exact h
  | check =>
      simp only [apply]
      split <;> exact h
  | write written =>
      simp only [apply]
      split <;> exact h
  | remoteError object =>
      simp only [apply]
      split <;> exact h
  | message now m => exact h
  | cleanup now => exact h
  | close => exact h
  | clear => exact h

theorem entryStep_apply (h : S.CallsOk) (e : FlowEvent) :
    EntryStep cfg S.flows (S.apply cfg e).flows := by
  cases e with
  | read i client =>
      simp only [apply]
      split <;> exact .same rfl rfl
  | enter call draws now =>
      simp only [apply, enter]
      split
      · exact .same rfl rfl
      · rename_i i client hcall
        split
        · exact .same rfl rfl
        · rename_i f hf
          exact UdpFlows.getEntryUDPFlow_step hf (h _ (List.mem_of_getElem? hcall)) draws now
  | message now m => exact .same rfl rfl
  | check =>
      simp only [apply]
      split <;> exact .same rfl rfl
  | look now dialed =>
      simp only [apply, look]
      split
      · rename_i flowID service data messages _
        have hstep : EntryStep cfg S.flows
            (S.flows.handleUDPDatagram cfg.services dialed now flowID service).1 :=
          UdpFlows.handleUDPDatagram_step cfg.services dialed now flowID service
        split <;> exact hstep
      · exact .same rfl rfl
  | write written =>
      simp only [apply]
      split
      · split
        · exact .same rfl rfl
        · exact UdpFlows.deleteRemoteUDP_step _ _
      · exact .same rfl rfl
  | remoteError object =>
      simp only [apply]
      split
      · exact UdpFlows.deleteRemoteUDP_step _ _
      · exact .same rfl rfl
  | cleanup now => exact .cleaned now rfl rfl
  | close => exact .same rfl rfl
  | clear => exact .cleared rfl rfl

/-! ## The invariant -/

/-- The key under which a flow is listed. -/
def keyOf (cfg : Config) (flow : EntryFlow) : Bytes :=
  flowKey ((cfg.forwards[flow.pc]?.map Forward.name).getD []) flow.client

theorem keyOf_eq {flow : EntryFlow} {f : Forward} (hf : cfg.forwards[flow.pc]? = some f) :
    keyOf cfg flow = flowKey f.name flow.client := by
  rw [keyOf, hf]
  rfl

/-- The flows are those of clients of forwards, and are in step with the keys. -/
structure InStep (cfg : Config) (F : UdpFlows) : Prop where
  forward : ∀ id flow, Finmap.lookup id F.entryUDP = some flow →
    124 ∉ flow.client.network ∧
      ∃ f, cfg.forwards[flow.pc]? = some f ∧ flow.service = f.service
  indexed : Indexed (keyOf cfg) F.entryUDP F.entryUDPKeys

theorem inStep_start (cfg : Config) : InStep cfg start.flows := by
  constructor
  · intro id flow h
    change Finmap.lookup id (∅ : Table Nat EntryFlow) = some flow at h
    rw [Finmap.lookup_empty] at h
    cases h
  · exact Indexed.empty

theorem InStep.step {F F' : UdpFlows} (h : InStep cfg F) (hs : EntryStep cfg F F') :
    InStep cfg F' := by
  cases hs with
  | same flows keys => exact ⟨by rw [flows]; exact h.forward, by rw [flows, keys]; exact h.indexed⟩
  | touched id flow now old flows keys =>
      refine ⟨?_, ?_⟩
      · intro id' flow' hflow'
        rw [flows, Table.lookup_insert_eq] at hflow'
        split at hflow'
        · cases hflow'
          exact h.forward id flow old
        · exact h.forward id' flow' hflow'
      · rw [flows, keys]
        exact h.indexed.update old rfl
  | made i f client id now forward network unlisted unused flows keys =>
      have hkey : keyOf cfg ⟨i, client, f.service, now⟩ = flowKey f.name client := keyOf_eq forward
      -- The key is not listed at all: what it listed would have been found.
      have hlisted : Finmap.lookup (flowKey f.name client) F.entryUDPKeys = none := by
        by_contra hne
        obtain ⟨id', hid'⟩ := Option.ne_none_iff_exists'.mp hne
        obtain ⟨flow, hflow, -⟩ := h.indexed.found _ id' hid'
        rw [UdpFlows.entryFlow, hid', Option.bind_some, hflow] at unlisted
        cases unlisted
      refine ⟨?_, ?_⟩
      · intro id' flow' hflow'
        rw [flows, Table.lookup_insert_eq] at hflow'
        split at hflow'
        · cases hflow'
          exact ⟨network, f, forward, rfl⟩
        · exact h.forward id' flow' hflow'
      · rw [flows, keys, ← hkey]
        exact h.indexed.insert unused (by rw [hkey]; exact hlisted)
  | cleaned now flows keys =>
      refine ⟨?_, ?_⟩
      · intro id flow hflow
        rw [flows] at hflow
        exact h.forward id flow (Table.lookup_filter.mp hflow).1
      · rw [flows, keys]
        apply h.indexed.filter
        intro id flow hflow
        rw [UdpFlows.keyAlive, hflow]
  | cleared flows keys =>
      refine ⟨?_, ?_⟩
      · intro id flow hflow
        rw [flows, Finmap.lookup_empty] at hflow
        cases hflow
      · rw [flows, keys]
        exact Indexed.empty

theorem inStep_of_reachable (run : (flowMachine cfg).Reachable S) :
    S.CallsOk ∧ InStep cfg S.flows := by
  refine Machine.Reachable.invariant (I := fun s => s.CallsOk ∧ InStep cfg s.flows) run ?_ ?_
  · rintro s rfl
    exact ⟨nofun, inStep_start cfg⟩
  · intro s e ⟨hcalls, hstep⟩ he
    exact ⟨callsOk_apply hcalls he, hstep.step (entryStep_apply hcalls e)⟩

/-! ## Allocations -/

/-- Every flow was allocated for its socket and client, and every reply went to
a socket and a client for which its ID was allocated. -/
structure Allocated (S : FlowSystem) : Prop where
  flows : ∀ id flow, Finmap.lookup id S.flows.entryUDP = some flow →
    (id, flow.pc, flow.client) ∈ S.allocated
  replies : ∀ r ∈ S.replies, r ∈ S.allocated

/-- The flows after a step were there before, up to the time of their last
use. -/
def Kept (F F' : UdpFlows) : Prop :=
  ∀ id flow, Finmap.lookup id F'.entryUDP = some flow →
    ∃ old, Finmap.lookup id F.entryUDP = some old ∧ flow.pc = old.pc ∧ flow.client = old.client

theorem Kept.of_eq {F F' : UdpFlows} (h : F'.entryUDP = F.entryUDP) : Kept F F' := by
  intro id flow hflow
  rw [h] at hflow
  exact ⟨flow, hflow, rfl, rfl⟩

theorem Kept.of_touched {F F' : UdpFlows} {id now : Nat} {flow : EntryFlow}
    (old : Finmap.lookup id F.entryUDP = some flow)
    (h : F'.entryUDP = F.entryUDP.insert id { flow with last := now }) : Kept F F' := by
  intro id' flow' hflow'
  rw [h, Table.lookup_insert_eq] at hflow'
  split at hflow'
  · rename_i hid
    cases hflow'
    exact ⟨flow, hid ▸ old, rfl, rfl⟩
  · exact ⟨flow', hflow', rfl, rfl⟩

theorem kept_cleanup (F : UdpFlows) (now : Nat) : Kept F (F.cleanup now) := by
  intro id flow hflow
  exact ⟨flow, (Table.lookup_filter.mp hflow).1, rfl, rfl⟩

theorem kept_clear (F : UdpFlows) : Kept F F.clear := by
  intro id flow hflow
  change Finmap.lookup id (∅ : Table Nat EntryFlow) = some flow at hflow
  rw [Finmap.lookup_empty] at hflow
  cases hflow

theorem kept_deleteRemoteUDP (F : UdpFlows) (flowID object : Nat) :
    Kept F (F.deleteRemoteUDP flowID object) := by
  unfold UdpFlows.deleteRemoteUDP
  split <;> exact .of_eq rfl

theorem kept_handleUDPDatagram (F : UdpFlows) (services : Services) (dialed : Bool)
    (now flowID : Nat) (service : Bytes) :
    Kept F (F.handleUDPDatagram services dialed now flowID service).1 := by
  have hstep : ∀ {F' : UdpFlows}, F'.entryUDP = F.entryUDP → Kept F F' := Kept.of_eq
  unfold UdpFlows.handleUDPDatagram
  split
  · rename_i flow hflow
    exact .of_touched hflow rfl
  · split
    · exact hstep rfl
    · split
      · exact hstep rfl
      · split
        · exact hstep rfl
        · split <;> exact hstep rfl

theorem Allocated.kept (h : S.Allocated) {F : UdpFlows} (hf : Kept S.flows F) {id : Nat}
    {flow : EntryFlow} (hflow : Finmap.lookup id F.entryUDP = some flow) :
    (id, flow.pc, flow.client) ∈ S.allocated := by
  obtain ⟨old, hold, hpc, hclient⟩ := hf id flow hflow
  rw [hpc, hclient]
  exact h.flows id old hold

theorem Allocated.of_kept {S' : FlowSystem} (h : S.Allocated) (ha : S'.allocated = S.allocated)
    (hr : S'.replies = S.replies) (hf : Kept S.flows S'.flows) : S'.Allocated := by
  constructor
  · intro id flow hflow
    rw [ha]
    exact h.kept hf hflow
  · rw [ha, hr]
    exact h.replies

theorem Allocated.enter (h : S.Allocated) (call : Nat) (draws : List Nat) (now : Nat) :
    (S.enter cfg call draws now).Allocated := by
  unfold FlowSystem.enter
  split
  · exact h
  · rename_i i client hcall
    split
    · exact h
    · rename_i f hf
      constructor
      · intro id flow hflow
        rcases UdpFlows.lookup_getEntryUDPFlow hflow with
          ⟨old, hold, hpc, hclient⟩ | ⟨hnone, hid, hpc, hclient⟩
        · rw [hpc, hclient]
          exact List.mem_append_left _ (h.flows id old hold)
        · apply List.mem_append_right
          simp [hnone, hid, hpc, hclient]
      · intro r hr
        exact List.mem_append_left _ (h.replies r hr)

theorem Allocated.look (h : S.Allocated) (now : Nat) (dialed : Bool) :
    (S.look cfg now dialed).Allocated := by
  unfold FlowSystem.look
  split
  · rename_i flowID service data messages _
    have hkept := kept_handleUDPDatagram S.flows cfg.services dialed now flowID service
    simp only
    split
    · rename_i pc client hreply
      obtain ⟨flow, hflow, rfl, rfl⟩ := UdpFlows.handleUDPDatagram_reply hreply
      refine ⟨fun id flow hflow => h.kept hkept hflow, ?_⟩
      intro r hr
      rcases List.mem_append.mp hr with hr | hr
      · exact h.replies r hr
      · rw [List.mem_singleton.mp hr]
        exact h.flows flowID flow hflow
    · exact h.of_kept rfl rfl hkept
    · exact h.of_kept rfl rfl hkept
  · exact h

theorem Allocated.apply (h : S.Allocated) (e : FlowEvent) : (S.apply cfg e).Allocated := by
  cases e with
  | read i client =>
      simp only [FlowSystem.apply]
      split
      · exact h
      · exact ⟨h.flows, h.replies⟩
  | enter call draws now => exact h.enter call draws now
  | message now m => exact h.of_kept rfl rfl (.of_eq rfl)
  | check =>
      simp only [FlowSystem.apply]
      split
      · exact ⟨h.flows, h.replies⟩
      · exact h
  | look now dialed => exact h.look now dialed
  | write written =>
      simp only [FlowSystem.apply]
      split
      · rename_i flowID object data messages _
        refine h.of_kept rfl rfl ?_
        change Kept S.flows (if written then S.flows else S.flows.deleteRemoteUDP flowID object)
        split
        · exact .of_eq rfl
        · exact kept_deleteRemoteUDP S.flows flowID object
      · exact h
  | remoteError object =>
      simp only [FlowSystem.apply]
      split
      · rename_i flow _
        exact h.of_kept rfl rfl (kept_deleteRemoteUDP S.flows flow.flowID object)
      · exact h
  | cleanup now => exact h.of_kept rfl rfl (kept_cleanup S.flows now)
  | close => exact h.of_kept rfl rfl (.of_eq rfl)
  | clear => exact h.of_kept rfl rfl (kept_clear S.flows)

theorem allocated_of_reachable (run : (flowMachine cfg).Reachable S) : S.Allocated := by
  refine Machine.Reachable.invariant (I := Allocated) run ?_ fun s e h _ => h.apply e
  rintro s rfl
  refine ⟨?_, nofun⟩
  intro id flow hflow
  change Finmap.lookup id (∅ : Table Nat EntryFlow) = some flow at hflow
  rw [Finmap.lookup_empty] at hflow
  cases hflow

/-- A forward and a client are listed with the ID of their flow. -/
def Listed (cfg : Config) (F : UdpFlows) (i : Nat) (client : Addr) (id : Nat) : Prop :=
  124 ∉ client.network ∧
    ∃ f, cfg.forwards[i]? = some f ∧
      Finmap.lookup (flowKey f.name client) F.entryUDPKeys = some id

theorem InStep.listed {F : UdpFlows} (h : InStep cfg F) {id : Nat} {flow : EntryFlow}
    (hflow : Finmap.lookup id F.entryUDP = some flow) : Listed cfg F flow.pc flow.client id := by
  obtain ⟨hnetwork, f, hf, -⟩ := h.forward id flow hflow
  have hlisted := h.indexed.listed id flow hflow
  rw [keyOf_eq hf] at hlisted
  exact ⟨hnetwork, f, hf, hlisted⟩

/-- Names tell forwards apart. -/
theorem forward_unique {L : Library} {c : Config} (hc : c.Accepted L) {i j : Nat} {f g : Forward}
    (hf : (c.normalize L).forwards[i]? = some f) (hg : (c.normalize L).forwards[j]? = some g)
    (h : f.name = g.name) : i = j := by
  have hi : i < ((c.normalize L).forwards.map Forward.name).length := by
    rw [List.length_map]
    exact (List.getElem?_eq_some_iff.mp hf).1
  rw [← List.getElem?_inj hi hc.forward_names.2, List.getElem?_map, List.getElem?_map, hf, hg]
  simp only [Option.map_some, h]

/-- An ID is listed for one forward and one client only. -/
theorem InStep.owner_unique {L : Library} {c : Config} (hc : c.Accepted L) {F : UdpFlows}
    (h : InStep (c.normalize L) F) {i j id : Nat} {client client' : Addr}
    (hi : Listed (c.normalize L) F i client id) (hj : Listed (c.normalize L) F j client' id) :
    i = j ∧ client = client' := by
  obtain ⟨hnetwork, f, hf, hkey⟩ := hi
  obtain ⟨hnetwork', g, hg, hkey'⟩ := hj
  obtain ⟨hname, hclient⟩ := flowKey_inj (hc.forward_names.1 f (List.mem_of_getElem? hf))
    (hc.forward_names.1 g (List.mem_of_getElem? hg)) hnetwork hnetwork'
    (h.indexed.key_unique hkey hkey')
  exact ⟨forward_unique hc hf hg hname, hclient⟩

end FlowSystem

/-- In every state of every run of a node with an accepted configuration, the
table of keys is a bijection onto the IDs of the flows of clients. A forward
and a client have one ID at most, different ones have different IDs, and the
flow of an ID has their socket, client and service. A datagram that arrives
under an ID is written as a reply only to the socket and the client that are
listed with that ID, and all replies so far went to a socket and a client for
which their ID was allocated. -/
theorem udp_replies_isolated (L : Library) (c : Config) (hc : c.Accepted L) {S : FlowSystem}
    (run : (flowMachine (c.normalize L)).Reachable S) :
    Set.BijOn (fun key => Finmap.lookup key S.flows.entryUDPKeys)
      {key | key ∈ S.flows.entryUDPKeys} (some '' {id | id ∈ S.flows.entryUDP}) ∧
    (∀ i client id id', FlowSystem.Listed (c.normalize L) S.flows i client id →
      FlowSystem.Listed (c.normalize L) S.flows i client id' → id = id') ∧
    (∀ i j client client' id, FlowSystem.Listed (c.normalize L) S.flows i client id →
      FlowSystem.Listed (c.normalize L) S.flows j client' id → i = j ∧ client = client') ∧
    (∀ i client id, FlowSystem.Listed (c.normalize L) S.flows i client id →
      ∃ f flow, (c.normalize L).forwards[i]? = some f ∧
        Finmap.lookup id S.flows.entryUDP = some flow ∧ flow.pc = i ∧ flow.client = client ∧
        flow.service = f.service) ∧
    (∀ dialed now flowID service pc client,
      (S.flows.handleUDPDatagram (c.normalize L).services dialed now flowID service).2 =
        .reply pc client → FlowSystem.Listed (c.normalize L) S.flows pc client flowID) ∧
    (∀ r ∈ S.replies, r ∈ S.allocated) := by
  obtain ⟨-, hstep⟩ := FlowSystem.inStep_of_reachable run
  refine ⟨hstep.indexed.bijOn, ?_, ?_, ?_, ?_, (FlowSystem.allocated_of_reachable run).replies⟩
  · rintro i client id id' ⟨-, f, hf, hkey⟩ ⟨-, g, hg, hkey'⟩
    rw [hf] at hg
    cases hg
    rw [hkey] at hkey'
    exact Option.some.inj hkey'
  · intro i j client client' id hi hj
    exact hstep.owner_unique hc hi hj
  · intro i client id hlisted
    have ⟨_, f, hf, hkey⟩ := hlisted
    obtain ⟨flow, hflow, -⟩ := hstep.indexed.found _ id hkey
    obtain ⟨rfl, rfl⟩ := hstep.owner_unique hc hlisted (hstep.listed hflow)
    obtain ⟨-, g, hg, hservice⟩ := hstep.forward id flow hflow
    rw [hf] at hg
    cases hg
    exact ⟨f, flow, hf, hflow, rfl, rfl, hservice⟩
  · intro dialed now flowID service pc client hreply
    obtain ⟨flow, hflow, rfl, rfl⟩ := UdpFlows.handleUDPDatagram_reply hreply
    exact hstep.listed hflow

/-- Two clients of one forward, and a reply to the second. The first value
drawn for its ID is in use. -/
def twoClients : List FlowEvent :=
  [.read 0 ⟨udp, ofString "1:1"⟩, .read 0 ⟨udp, ofString "1:2"⟩, .enter 0 [7] 0,
    .enter 0 [7, 9] 0, .message 0 ⟨9, 1, [], Bytes.bePut 2 0 ++ Bytes.bePut 2 1 ++ [5]⟩,
    .check, .look 0 false]

theorem udp_replies_isolated_two_clients :
    ∃ S, (flowMachine (sampleConfig.normalize sampleLibrary)).Reachable S ∧
      S.replies = [(9, 0, ⟨udp, ofString "1:2"⟩)] ∧
      (9, 0, ⟨udp, ofString "1:2"⟩) ∈ S.allocated := by
  have run : (flowMachine (sampleConfig.normalize sampleLibrary)).Reachable
      (twoClients.foldl (FlowSystem.apply _) FlowSystem.start) :=
    Machine.ReachableUnder.run (.start rfl) twoClients (by decide +kernel)
  have hreplies : (twoClients.foldl (FlowSystem.apply (sampleConfig.normalize sampleLibrary))
      FlowSystem.start).replies = [(9, 0, ⟨udp, ofString "1:2"⟩)] := by decide +kernel
  have hisolated := udp_replies_isolated sampleLibrary sampleConfig sampleConfig_accepted run
  obtain ⟨-, -, -, -, -, hallocated⟩ := hisolated
  exact ⟨_, run, hreplies, hallocated _ (by rw [hreplies]; exact List.mem_cons_self)⟩

end UnknownTunnel.App

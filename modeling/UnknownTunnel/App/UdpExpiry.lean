import UnknownTunnel.App.UdpFlows
import UnknownTunnel.Foundation.Copies
import UnknownTunnel.Foundation.Crew

/-!
# The lifetime of UDP flows

A flow carries the time of its last use, and an assembly the time at which it
was begun. The periodic cleanup removes the flows that were idle and the
assemblies that were not completed; a service socket is also given up by its
reader, which waits `udpFlowIdle` for an answer of the service. A flow that is
removed has its socket closed under the same lock.

## Implementation notes

Each step is taken at a time, in nanoseconds, and the clock does not go back. A
cleanup uses the time of its tick, which may be earlier than the step. A tick is due
`cleanupPeriod` after the one before and handled at most `delay` later, and a reader
whose deadline has passed acts within `delay`, in which it may also send the answer
it read last. How often each service socket was closed is a history.
-/

namespace UnknownTunnel.App

open Foundation ConfigFile

/-- The period of the cleanup in `maintenanceLoop`. -/
def cleanupPeriod : Nat := 30 * 1000000000

/-- The flows under a clock. `readers` has, for each service socket, when its
reader set its deadline, if the reader has not returned. -/
structure FlowClock where
  flows : UdpFlows
  now : Nat
  lastTick : Nat
  readers : List (Option Nat)
  closed : Nat → Nat

/-- What happens to the UDP flows of a node. -/
inductive FlowStep
  | getEntryUDPFlow (forwardName service : Bytes) (pc : Nat) (client : Addr) (draws : List Nat)
  | handleUDPChunk (m : UdpMessage)
  | handleUDPDatagram (dialed : Bool) (flowID : Nat) (service : Bytes)
  | writeFailed (object : Nat)
  | remoteRead (object : Nat)
  | remoteError (object : Nat)
  | cleanup (tick : Nat)
  | clear

/-- A step and the time at which it is taken. -/
structure FlowClockEvent where
  step : FlowStep
  time : Nat

namespace UdpFlows

/-- `deleteRemoteUDP` as the reader of a socket, or a failed write to it, calls
it. -/
def giveUp (object : Nat) (F : UdpFlows) : UdpFlows :=
  match F.remotes[object]? with
  | some flow => F.deleteRemoteUDP flow.flowID object
  | none => F

/-- The flows after a step. -/
def stepped (services : Services) (time : Nat) (F : UdpFlows) : FlowStep → UdpFlows
  | .getEntryUDPFlow forwardName service pc client draws =>
      (F.getEntryUDPFlow forwardName service pc client draws time).1
  | .handleUDPChunk m => { F with assemblies := (App.handleUDPChunk time m F.assemblies).1 }
  | .handleUDPDatagram dialed flowID service =>
      (F.handleUDPDatagram services dialed time flowID service).1
  | .writeFailed object | .remoteError object => F.giveUp object
  | .remoteRead object =>
      { F with remotes := F.remotes.modify object fun flow => { flow with last := time } }
  | .cleanup tick => F.cleanup tick
  | .clear => F.clear

/-- How often a step closes a service socket. -/
def closes (F : UdpFlows) (socket : Nat) : FlowStep → Nat
  | .writeFailed object | .remoteError object =>
      match F.remotes[object]? with
      | some flow =>
          if Finmap.lookup flow.flowID F.remoteUDP = some object ∧ socket = object then 1 else 0
      | none => 0
  | .cleanup tick =>
      (F.remoteUDP.filter fun _ object => !F.remoteAlive tick object).copies socket
  | .clear => F.remoteUDP.copies socket
  | _ => 0

end UdpFlows

namespace FlowClock

/-- The readers after a step: a new flow starts one. -/
def readersAfter (S : FlowClock) (after : UdpFlows) (time : Nat) : FlowStep → List (Option Nat)
  | .handleUDPDatagram _ _ _ =>
      if S.flows.remotes.length < after.remotes.length then S.readers ++ [some time]
      else S.readers
  | .remoteRead object => S.readers.set object (some time)
  | .remoteError object => S.readers.set object none
  | _ => S.readers

def apply (services : Services) (S : FlowClock) (e : FlowClockEvent) : FlowClock where
  flows := S.flows.stepped services e.time e.step
  now := e.time
  lastTick := match e.step with
    | .cleanup tick => tick
    | _ => S.lastTick
  readers := S.readersAfter (S.flows.stepped services e.time e.step) e.time e.step
  closed := fun socket => S.closed socket + S.flows.closes socket e.step

/-- The goroutine a step belongs to is there. -/
def ready (S : FlowClock) (time : Nat) : FlowStep → Prop
  | .remoteRead object | .remoteError object => ∃ since, S.readers[object]? = some (some since)
  | .cleanup tick => S.lastTick ≤ tick ∧ tick ≤ time
  | _ => True

def enabled (delay : Nat) (S : FlowClock) (e : FlowClockEvent) : Prop :=
  S.now ≤ e.time ∧ e.time ≤ S.lastTick + cleanupPeriod + delay ∧
    (∀ (object since : Nat), S.readers[object]? = some (some since) →
      e.time ≤ since + udpFlowIdle + delay) ∧
    S.ready e.time e.step

end FlowClock

/-- The UDP flows of a node with the given services, under a clock. -/
def flowClockMachine (services : Services) (delay : Nat) : Machine FlowClock FlowClockEvent where
  init := fun S => S.flows = {} ∧ S.lastTick = S.now ∧ S.readers = [] ∧ S.closed = 0
  enabled := FlowClock.enabled delay
  apply := FlowClock.apply services

/-! ## Times -/

/-- Everything in the tables survived, or came after, a cleanup at `tick`. -/
structure Recent (tick : Nat) (F : UdpFlows) : Prop where
  entryUDP : ∀ id flow, Finmap.lookup id F.entryUDP = some flow → tick ≤ flow.last + udpFlowIdle
  assemblies : ∀ key a, Finmap.lookup key F.assemblies = some a →
    tick ≤ a.created + udpAssemblyLifetime
  remoteUDP : ∀ id object flow, Finmap.lookup id F.remoteUDP = some object →
    F.remotes[object]? = some flow → tick ≤ flow.last + udpFlowIdle

theorem created_put (a : UdpAssembly) (name : Bytes) (part : Nat) (chunk : Bytes) :
    (a.put name part chunk).created = a.created := by
  simp only [UdpAssembly.put]
  split <;> split <;> rfl

namespace Recent

variable {tick time : Nat} {F : UdpFlows}

theorem insert_entryUDP (h : Recent tick F) (htime : tick ≤ time) {flow : EntryFlow}
    (hlast : flow.last = time) (id : Nat) (keys : Table Bytes Nat) :
    Recent tick { F with entryUDP := F.entryUDP.insert id flow, entryUDPKeys := keys } := by
  refine ⟨?_, h.assemblies, h.remoteUDP⟩
  intro id' flow' hl
  rw [Table.lookup_insert_eq] at hl
  split at hl
  · obtain rfl := Option.some.inj hl
    omega
  · exact h.entryUDP id' flow' hl

theorem getEntryUDPFlow (h : Recent tick F) (htime : tick ≤ time) (forwardName service : Bytes)
    (pc : Nat) (client : Addr) (draws : List Nat) :
    Recent tick (F.getEntryUDPFlow forwardName service pc client draws time).1 := by
  unfold UdpFlows.getEntryUDPFlow
  split
  · exact h.insert_entryUDP htime rfl _ _
  · split
    · exact h
    · split
      · exact h
      · exact h.insert_entryUDP htime rfl _ _

theorem handleUDPChunk (h : Recent tick F) (htime : tick ≤ time) (m : UdpMessage) :
    Recent tick { F with assemblies := (App.handleUDPChunk time m F.assemblies).1 } := by
  refine ⟨h.entryUDP, ?_, h.remoteUDP⟩
  have herased : ∀ key a, Finmap.lookup key (F.assemblies.erase m.key) = some a →
      tick ≤ a.created + udpAssemblyLifetime := by
    intro key a hl
    rw [Table.lookup_erase_eq] at hl
    split at hl
    · cases hl
    · exact h.assemblies key a hl
  have hstored : ∀ part a, tick ≤ a.created + udpAssemblyLifetime → ∀ key b,
      Finmap.lookup key (storeChunk m part a F.assemblies).1 = some b →
        tick ≤ b.created + udpAssemblyLifetime := by
    intro part a ha key b hl
    unfold storeChunk at hl
    simp only at hl
    split at hl
    · rw [Table.lookup_insert_eq] at hl
      split at hl
      · obtain rfl := Option.some.inj hl
        rwa [created_put]
      · exact h.assemblies key b hl
    · exact herased key b hl
  simp only [App.handleUDPChunk]
  split
  · exact h.assemblies
  · split
    · exact h.assemblies
    · split
      · split
        · exact h.assemblies
        · exact hstored _ _ (Nat.le_add_right_of_le htime)
      · rename_i a ha
        split
        · exact herased
        · exact hstored _ a (h.assemblies _ a ha)

theorem touch (h : Recent tick F) (htime : tick ≤ time) (object : Nat) :
    Recent tick
      { F with remotes := F.remotes.modify object fun flow => { flow with last := time } } := by
  refine ⟨h.entryUDP, h.assemblies, ?_⟩
  intro id object' flow hl hflow
  rw [List.getElem?_modify] at hflow
  split at hflow
  · obtain ⟨old, -, rfl⟩ := Option.map_eq_some_iff.mp hflow
    exact Nat.le_add_right_of_le htime
  · simp only [Option.map_eq_map, Option.map_id_fun', id_eq] at hflow
    exact h.remoteUDP id object' flow hl hflow

theorem handleUDPDatagram (h : Recent tick F) (htime : tick ≤ time) (services : Services)
    (dialed : Bool) (flowID : Nat) (service : Bytes) :
    Recent tick (F.handleUDPDatagram services dialed time flowID service).1 := by
  unfold UdpFlows.handleUDPDatagram
  split
  · exact h.insert_entryUDP htime rfl _ _
  · split
    · exact h.touch htime _
    · split
      · exact h
      · split
        · exact h
        · split
          · refine ⟨h.entryUDP, h.assemblies, ?_⟩
            intro id object flow hl hflow
            obtain ⟨rfl, rfl⟩ | ⟨hlt, hflow⟩ := Crew.getElem?_concat hflow
            · exact Nat.le_add_right_of_le htime
            · rw [Table.lookup_insert_eq] at hl
              split at hl
              · exact absurd (Option.some.inj hl) (Nat.ne_of_gt hlt)
              · exact h.remoteUDP id object flow hl hflow
          · exact h

theorem giveUp (h : Recent tick F) (object : Nat) : Recent tick (F.giveUp object) := by
  unfold UdpFlows.giveUp UdpFlows.deleteRemoteUDP
  split
  · split
    · refine ⟨h.entryUDP, h.assemblies, ?_⟩
      intro id object' flow hl hflow
      rw [Table.lookup_erase_eq] at hl
      split at hl
      · cases hl
      · exact h.remoteUDP id object' flow hl hflow
    · exact h
  · exact h

/-- A cleanup removes what was idle at its tick. -/
theorem cleanup (tick : Nat) (F : UdpFlows) : Recent tick (F.cleanup tick) := by
  refine ⟨?_, ?_, ?_⟩
  · intro id flow hl
    have halive := (Table.lookup_filter.mp hl).2
    simp only [UdpFlows.entryAlive, decide_eq_true_eq] at halive
    omega
  · intro key a hl
    have halive := (Table.lookup_filter.mp hl).2
    simp only [decide_eq_true_eq] at halive
    omega
  · intro id object flow hl hflow
    have halive := (Table.lookup_filter.mp hl).2
    change F.remotes[object]? = some flow at hflow
    simp only [UdpFlows.remoteAlive, hflow, decide_eq_true_eq] at halive
    omega

end Recent

/-! ## Sockets -/

/-- A service socket is open as long as its flow is in the table, under the ID
it was made for, and then its reader runs. -/
structure Sockets (F : UdpFlows) (readers : List (Option Nat)) (closed : Nat → Nat) : Prop where
  length : readers.length = F.remotes.length
  limit : F.remoteUDP.size ≤ maxUDPFlows
  own : ∀ id object, Finmap.lookup id F.remoteUDP = some object →
    ∃ flow, F.remotes[object]? = some flow ∧ flow.flowID = id
  once : ∀ (object : Nat) flow, F.remotes[object]? = some flow →
    closed object + (if Finmap.lookup flow.flowID F.remoteUDP = some object then 1 else 0) = 1
  unmade : ∀ object, F.remotes.length ≤ object → closed object = 0
  reading : ∀ id object, Finmap.lookup id F.remoteUDP = some object →
    ∃ since, readers[object]? = some (some since)

namespace Sockets

variable {F F' : UdpFlows} {readers readers' : List (Option Nat)} {closed closed' : Nat → Nat}

/-- Flows are used, and the table of service flows stays as it is. -/
theorem use (h : Sockets F readers closed) (htable : F'.remoteUDP = F.remoteUDP)
    (hlength : F'.remotes.length = F.remotes.length) (hreaders : readers'.length = readers.length)
    (hids : ∀ (object : Nat) flow, F'.remotes[object]? = some flow →
      ∃ old, F.remotes[object]? = some old ∧ old.flowID = flow.flowID)
    (hreading : ∀ (object since : Nat), readers[object]? = some (some since) →
      ∃ since', readers'[object]? = some (some since')) : Sockets F' readers' closed := by
  refine ⟨by rw [hreaders, h.length, hlength], by rw [htable]; exact h.limit, ?_, ?_,
    by rw [hlength]; exact h.unmade, ?_⟩
  · intro id object hl
    rw [htable] at hl
    obtain ⟨old, hold, hid⟩ := h.own id object hl
    have hlt : object < F'.remotes.length := hlength ▸ (List.getElem?_eq_some_iff.mp hold).1
    obtain ⟨old', hold', hsame⟩ := hids object _ (List.getElem?_eq_getElem hlt)
    obtain rfl := Option.some.inj (hold.symm.trans hold')
    exact ⟨_, List.getElem?_eq_getElem hlt, hsame.symm.trans hid⟩
  · intro object flow hflow
    obtain ⟨old, hold, hsame⟩ := hids object flow hflow
    rw [htable, ← hsame]
    exact h.once object old hold
  · intro id object hl
    rw [htable] at hl
    obtain ⟨since, hsince⟩ := h.reading id object hl
    exact hreading object since hsince

/-- Flows leave the table, and their sockets are closed. -/
theorem leave (h : Sockets F readers closed) (hremotes : F'.remotes = F.remotes)
    (hless : ∀ id object, Finmap.lookup id F'.remoteUDP = some object →
      Finmap.lookup id F.remoteUDP = some object)
    (hreaders : readers'.length = readers.length)
    (hreading : ∀ id object, Finmap.lookup id F'.remoteUDP = some object →
      readers'[object]? = readers[object]?)
    {closes : Nat → Nat} (hclosed : ∀ object, closed' object = closed object + closes object)
    (hcloses : ∀ (object : Nat) flow, F.remotes[object]? = some flow →
      closes object + (if Finmap.lookup flow.flowID F'.remoteUDP = some object then 1 else 0) =
        if Finmap.lookup flow.flowID F.remoteUDP = some object then 1 else 0)
    (hnone : ∀ object, F.remotes.length ≤ object → closes object = 0) :
    Sockets F' readers' closed' := by
  refine ⟨by rw [hreaders, hremotes]; exact h.length,
    Nat.le_trans (Table.size_le_of_lookup hless) h.limit, ?_, ?_, ?_, ?_⟩
  · intro id object hl
    rw [hremotes]
    exact h.own id object (hless id object hl)
  · intro object flow hflow
    rw [hremotes] at hflow
    have honce := h.once object flow hflow
    have hstep := hcloses object flow hflow
    rw [hclosed]
    omega
  · intro object hlen
    rw [hremotes] at hlen
    rw [hclosed, h.unmade object hlen, hnone object hlen]
  · intro id object hl
    rw [hreading id object hl]
    exact h.reading id object (hless id object hl)

/-- A flow is in a part of the table at most once, under its own ID. -/
theorem copies (h : Sockets F readers closed) {part : Table Nat Nat}
    (hpart : ∀ id object, Finmap.lookup id part = some object →
      Finmap.lookup id F.remoteUDP = some object)
    {object : Nat} {flow : ServiceFlow} (hflow : F.remotes[object]? = some flow) :
    part.copies object = if Finmap.lookup flow.flowID part = some object then 1 else 0 := by
  refine Table.copies_eq_ite flow.flowID fun id hl => ?_
  obtain ⟨flow', hflow', hid⟩ := h.own id object (hpart id object hl)
  obtain rfl := Option.some.inj (hflow.symm.trans hflow')
  exact hid.symm

theorem copies_unmade (h : Sockets F readers closed) {part : Table Nat Nat}
    (hpart : ∀ id object, Finmap.lookup id part = some object →
      Finmap.lookup id F.remoteUDP = some object)
    {object : Nat} (hlen : F.remotes.length ≤ object) : part.copies object = 0 := by
  rw [Table.copies_eq_ite 0, if_neg]
  · intro hl
    obtain ⟨flow, hflow, -⟩ := h.own 0 object (hpart 0 object hl)
    exact absurd (List.getElem?_eq_some_iff.mp hflow).1 (Nat.not_lt.mpr hlen)
  · intro id hl
    obtain ⟨flow, hflow, -⟩ := h.own id object (hpart id object hl)
    exact absurd (List.getElem?_eq_some_iff.mp hflow).1 (Nat.not_lt.mpr hlen)

/-- A flow is made. -/
theorem make (h : Sockets F readers closed) (flow : ServiceFlow)
    (hfree : Finmap.lookup flow.flowID F.remoteUDP = none)
    (hroom : ¬ maxUDPFlows ≤ F.remoteUDP.size) (time : Nat) :
    Sockets
      { F with
        remoteUDP := F.remoteUDP.insert flow.flowID F.remotes.length
        remotes := F.remotes ++ [flow] } (readers ++ [some time]) closed := by
  have hlimit : Table.size (F.remoteUDP.insert flow.flowID F.remotes.length) ≤ maxUDPFlows :=
    Nat.le_trans (Table.size_insert_le _ _ _) (Nat.lt_of_not_le hroom)
  have hold : ∀ id object, Finmap.lookup id F.remoteUDP = some object →
      object < F.remotes.length := by
    intro id object hl
    obtain ⟨old, hget, -⟩ := h.own id object hl
    exact (List.getElem?_eq_some_iff.mp hget).1
  refine ⟨by simp [h.length], hlimit, ?_, ?_, ?_, ?_⟩
  · intro id object hl
    rw [Table.lookup_insert_eq] at hl
    split at hl
    · rename_i hid
      obtain rfl := Option.some.inj hl
      exact ⟨flow, List.getElem?_concat_length .., hid.symm⟩
    · obtain ⟨old, hget, hid⟩ := h.own id object hl
      exact ⟨old, (List.getElem?_append_left (hold id object hl)).trans hget, hid⟩
  · intro object flow' hflow'
    simp only [Table.lookup_insert_eq]
    obtain ⟨rfl, rfl⟩ | ⟨hlt, hget⟩ := Crew.getElem?_concat hflow'
    · simp [h.unmade _ (Nat.le_refl _)]
    · have honce := h.once object flow' hget
      by_cases hid : flow'.flowID = flow.flowID
      · rw [hid, hfree] at honce
        simpa [hid, Nat.ne_of_gt hlt] using honce
      · simpa [hid] using honce
  · intro object hlen
    rw [List.length_append] at hlen
    exact h.unmade object (Nat.le_of_add_right_le hlen)
  · intro id object hl
    rw [Table.lookup_insert_eq] at hl
    split at hl
    · obtain rfl := Option.some.inj hl
      refine ⟨time, ?_⟩
      rw [← h.length]
      exact List.getElem?_concat_length ..
    · obtain ⟨since, hsince⟩ := h.reading id object hl
      refine ⟨since, ?_⟩
      rw [List.getElem?_append_left (by rw [h.length]; exact hold id object hl)]
      exact hsince

/-- Nothing happens to the service flows. -/
theorem same (h : Sockets F readers closed) (htable : F'.remoteUDP = F.remoteUDP)
    (hremotes : F'.remotes = F.remotes) : Sockets F' readers closed :=
  h.use htable (by rw [hremotes]) rfl (fun object flow hflow => ⟨flow, hremotes ▸ hflow, rfl⟩)
    fun _ since hsince => ⟨since, hsince⟩

/-- The time of a service flow is set. -/
theorem touch (h : Sockets F readers closed) (object time : Nat)
    (hreaders : readers'.length = readers.length)
    (hreading : ∀ (object since : Nat), readers[object]? = some (some since) →
      ∃ since', readers'[object]? = some (some since')) :
    Sockets { F with remotes := F.remotes.modify object fun flow => { flow with last := time } }
      readers' closed := by
  refine h.use rfl (List.length_modify ..) hreaders ?_ hreading
  intro object' flow hflow
  rw [List.getElem?_modify] at hflow
  split at hflow
  · obtain ⟨old, hold, rfl⟩ := Option.map_eq_some_iff.mp hflow
    exact ⟨old, hold, rfl⟩
  · simp only [Option.map_eq_map, Option.map_id_fun', id_eq] at hflow
    exact ⟨flow, hflow, rfl⟩

/-- A datagram makes a flow, and a reader with it, or uses one. -/
theorem handleUDPDatagram (h : Sockets F readers closed) (services : Services) (dialed : Bool)
    (time flowID : Nat) (service : Bytes) :
    Sockets (F.handleUDPDatagram services dialed time flowID service).1
      (if F.remotes.length <
          (F.handleUDPDatagram services dialed time flowID service).1.remotes.length then
        readers ++ [some time] else readers) closed := by
  have hnone : ¬ F.remotes.length < F.remotes.length := Nat.lt_irrefl _
  unfold UdpFlows.handleUDPDatagram
  split
  · rw [if_neg hnone]
    exact h.same rfl rfl
  · split
    · rw [if_neg (by simp)]
      exact h.touch _ time rfl fun _ since hsince => ⟨since, hsince⟩
    · rename_i hfree
      split
      · exact h
      · rename_i hroom
        split
        · rwa [if_neg hnone]
        · rename_i svc _
          split
          · rw [if_pos (by simp)]
            exact h.make ⟨flowID, svc.address, service, time⟩ hfree hroom time
          · exact h

/-- A socket that is given up leaves the table, unless it has left it before. -/
theorem giveUp (h : Sockets F readers closed) {object : Nat} (hlt : object < F.remotes.length)
    (hreaders : readers'.length = readers.length)
    (hreading : ∀ id other, Finmap.lookup id (F.giveUp object).remoteUDP = some other →
      readers'[other]? = readers[other]?) :
    Sockets (F.giveUp object) readers'
      (fun socket => closed socket + F.closes socket (.remoteError object)) := by
  obtain ⟨flow, hflow⟩ : ∃ flow, F.remotes[object]? = some flow :=
    ⟨_, List.getElem?_eq_getElem hlt⟩
  by_cases hentry : Finmap.lookup flow.flowID F.remoteUDP = some object
  · have hgone : F.giveUp object = { F with remoteUDP := F.remoteUDP.erase flow.flowID } := by
      simp only [UdpFlows.giveUp, hflow, UdpFlows.deleteRemoteUDP, hentry, if_true]
    have hcloses : ∀ socket, F.closes socket (.remoteError object) =
        if socket = object then 1 else 0 := by
      intro socket
      simp only [UdpFlows.closes, hflow, hentry, true_and]
    rw [hgone] at hreading ⊢
    refine h.leave rfl ?_ hreaders hreading (fun _ => rfl) ?_ ?_
    · intro id other hl
      rw [Table.lookup_erase_eq] at hl
      split at hl
      · cases hl
      · exact hl
    · intro other flow' hflow'
      rw [hcloses, Table.lookup_erase_eq]
      by_cases hother : other = object
      · subst hother
        obtain rfl := Option.some.inj (hflow.symm.trans hflow')
        simp [hentry]
      · by_cases hid : flow'.flowID = flow.flowID
        · rw [if_neg hother, if_pos hid, hid, hentry]
          simp [Ne.symm hother]
        · simp [hother, hid]
    · intro other hlen
      rw [hcloses, if_neg (by omega)]
  · have hsame : F.giveUp object = F := by
      simp only [UdpFlows.giveUp, hflow, UdpFlows.deleteRemoteUDP, hentry, if_false]
    have hcloses : ∀ socket, F.closes socket (.remoteError object) = 0 := by
      intro socket
      simp [UdpFlows.closes, hflow, hentry]
    rw [hsame] at hreading ⊢
    exact h.leave rfl (fun _ _ hl => hl) hreaders hreading (fun _ => rfl)
      (fun other flow' _ => by rw [hcloses, Nat.zero_add]) fun other _ => hcloses other

/-- A socket that was given up is not in the table. -/
theorem notMem_giveUp (h : Sockets F readers closed) {object : Nat} {id : Nat} :
    Finmap.lookup id (F.giveUp object).remoteUDP ≠ some object := by
  intro hl
  have hbefore : Finmap.lookup id F.remoteUDP = some object := by
    unfold UdpFlows.giveUp UdpFlows.deleteRemoteUDP at hl
    split at hl
    · split at hl
      · rw [Table.lookup_erase_eq] at hl
        split at hl
        · cases hl
        · exact hl
      · exact hl
    · exact hl
  obtain ⟨flow, hflow, rfl⟩ := h.own id object hbefore
  simp only [UdpFlows.giveUp, hflow, UdpFlows.deleteRemoteUDP, hbefore, if_true,
    Table.lookup_erase_eq] at hl
  cases hl

/-- A cleanup closes the sockets of the flows it removes. -/
theorem cleanup (h : Sockets F readers closed) (tick : Nat) :
    Sockets (F.cleanup tick) readers
      (fun socket => closed socket + F.closes socket (.cleanup tick)) := by
  have hidle : ∀ id object,
      Finmap.lookup id (F.remoteUDP.filter fun _ object => !F.remoteAlive tick object) =
        some object → Finmap.lookup id F.remoteUDP = some object :=
    fun id object hl => (Table.lookup_filter.mp hl).1
  refine h.leave rfl (fun id object hl => (Table.lookup_filter.mp hl).1) rfl (fun _ _ _ => rfl)
    (fun _ => rfl) ?_ fun object hlen => h.copies_unmade hidle hlen
  intro object flow hflow
  simp only [UdpFlows.closes, h.copies hidle hflow, UdpFlows.cleanup, Table.lookup_filter]
  by_cases hentry : Finmap.lookup flow.flowID F.remoteUDP = some object
  · cases F.remoteAlive tick object <;> simp [hentry]
  · simp [hentry]

theorem clear (h : Sockets F readers closed) :
    Sockets F.clear readers (fun socket => closed socket + F.closes socket .clear) := by
  refine h.leave rfl ?_ rfl (fun _ _ _ => rfl) (fun _ => rfl) ?_
    fun object hlen => h.copies_unmade (fun _ _ hl => hl) hlen
  · intro id object hl
    simp [UdpFlows.clear] at hl
  · intro object flow hflow
    simp [UdpFlows.closes, h.copies (fun _ _ hl => hl) hflow, UdpFlows.clear]

end Sockets

/-! ## Runs -/

/-- The sockets are accounted for, and nothing in the tables is old. -/
structure FlowClock.Kept (delay : Nat) (S : FlowClock) : Prop where
  sockets : Sockets S.flows S.readers S.closed
  recent : Recent S.lastTick S.flows
  tick : S.lastTick ≤ S.now
  clock : S.now ≤ S.lastTick + cleanupPeriod + delay
  waits : ∀ (object since : Nat), S.readers[object]? = some (some since) →
    S.now ≤ since + udpFlowIdle + delay

namespace FlowClock

variable {services : Services} {delay : Nat} {S : FlowClock} {e : FlowClockEvent}

theorem Kept.sockets_apply (h : S.Kept delay) (he : S.enabled delay e) :
    Sockets (S.apply services e).flows (S.apply services e).readers
      (S.apply services e).closed := by
  obtain ⟨step, time⟩ := e
  obtain ⟨-, -, -, hready⟩ := he
  have hs := h.sockets
  have hlength := hs.length
  cases step with
  | getEntryUDPFlow forwardName service pc client draws =>
      have hsame : ∀ F', F' = (S.flows.getEntryUDPFlow forwardName service pc client draws time).1 →
          F'.remoteUDP = S.flows.remoteUDP ∧ F'.remotes = S.flows.remotes := by
        rintro _ rfl
        unfold UdpFlows.getEntryUDPFlow
        split
        · exact ⟨rfl, rfl⟩
        · split
          · exact ⟨rfl, rfl⟩
          · split <;> exact ⟨rfl, rfl⟩
      exact hs.same (hsame _ rfl).1 (hsame _ rfl).2
  | handleUDPChunk m => exact hs.same rfl rfl
  | handleUDPDatagram dialed flowID service =>
      exact hs.handleUDPDatagram services dialed time flowID service
  | writeFailed object =>
      by_cases hlt : object < S.flows.remotes.length
      · exact hs.giveUp hlt rfl fun _ _ _ => rfl
      · have hnone : S.flows.remotes[object]? = none := List.getElem?_eq_none (by omega)
        have hcloses : ∀ socket, S.flows.closes socket (.writeFailed object) = 0 := by
          intro socket
          simp [UdpFlows.closes, hnone]
        simpa [apply, UdpFlows.stepped, UdpFlows.giveUp, hnone, hcloses, readersAfter] using hs
  | remoteRead object =>
      refine hs.touch object time List.length_set fun other since hsince => ?_
      by_cases hother : object = other
      · subst hother
        exact ⟨time, List.getElem?_set_self (List.getElem?_eq_some_iff.mp hsince).1⟩
      · exact ⟨since, (List.getElem?_set_ne hother).trans hsince⟩
  | remoteError object =>
      obtain ⟨since, hsince⟩ := hready
      have hlt : object < S.flows.remotes.length :=
        hlength ▸ (List.getElem?_eq_some_iff.mp hsince).1
      refine hs.giveUp hlt List.length_set fun id other hl => ?_
      refine List.getElem?_set_ne fun hother => ?_
      subst hother
      exact hs.notMem_giveUp hl
  | cleanup tick => exact hs.cleanup tick
  | clear => exact hs.clear

theorem Kept.recent_apply (h : S.Kept delay) (he : S.enabled delay e) :
    Recent (S.apply services e).lastTick (S.apply services e).flows := by
  obtain ⟨step, time⟩ := e
  obtain ⟨hnow, -⟩ := he
  have hr := h.recent
  have htime : S.lastTick ≤ time := h.tick.trans hnow
  cases step with
  | getEntryUDPFlow forwardName service pc client draws =>
      exact hr.getEntryUDPFlow htime forwardName service pc client draws
  | handleUDPChunk m => exact hr.handleUDPChunk htime m
  | handleUDPDatagram dialed flowID service =>
      exact hr.handleUDPDatagram htime services dialed flowID service
  | writeFailed object | remoteError object => exact hr.giveUp object
  | remoteRead object => exact hr.touch htime object
  | cleanup tick => exact Recent.cleanup tick S.flows
  | clear =>
      refine ⟨?_, ?_, ?_⟩
      · intro id flow hl
        simp [apply, UdpFlows.stepped, UdpFlows.clear] at hl
      · intro key a hl
        simp [apply, UdpFlows.stepped, UdpFlows.clear] at hl
      · intro id object flow hl
        simp [apply, UdpFlows.stepped, UdpFlows.clear] at hl

/-- Readers that run after a step ran before it, or have just set their deadline. -/
theorem readers_apply {object since : Nat}
    (hs : (S.apply services e).readers[object]? = some (some since)) :
    S.readers[object]? = some (some since) ∨ since = e.time := by
  obtain ⟨step, time⟩ := e
  cases step with
  | handleUDPDatagram dialed flowID service =>
      simp only [apply, readersAfter] at hs
      split at hs
      · obtain ⟨-, hnew⟩ | ⟨-, hold⟩ := Crew.getElem?_concat hs
        · exact Or.inr (Option.some.inj hnew)
        · exact Or.inl hold
      · exact Or.inl hs
  | remoteRead object' =>
      obtain ⟨-, hnew⟩ | ⟨-, hold⟩ := Crew.getElem?_set hs
      · exact Or.inr (Option.some.inj hnew)
      · exact Or.inl hold
  | remoteError object' =>
      obtain ⟨-, hnew⟩ | ⟨-, hold⟩ := Crew.getElem?_set hs
      · cases hnew
      · exact Or.inl hold
  | getEntryUDPFlow forwardName service pc client draws | handleUDPChunk m | writeFailed object'
  | cleanup tick | clear => exact Or.inl hs

theorem Kept.apply (h : S.Kept delay) (he : S.enabled delay e) :
    (S.apply services e).Kept delay := by
  refine ⟨h.sockets_apply he, h.recent_apply he, ?_, ?_, ?_⟩
  · obtain ⟨step, time⟩ := e
    obtain ⟨hnow, -, -, hready⟩ := he
    have htick := h.tick.trans hnow
    cases step with
    | cleanup tick => exact hready.2
    | _ => exact htick
  · obtain ⟨step, time⟩ := e
    obtain ⟨hnow, hclock, -, hready⟩ := he
    cases step with
    | cleanup tick =>
        have hlater := hready.1
        simp only [FlowClock.apply] at hclock hlater ⊢
        omega
    | _ => exact hclock
  · intro object since hs
    obtain hold | rfl := readers_apply hs
    · exact he.2.2.1 object since hold
    · simp only [FlowClock.apply]
      omega

theorem kept_of_reachable (run : (flowClockMachine services delay).Reachable S) :
    S.Kept delay := by
  refine run.invariant ?_ fun S e h he => h.apply he
  rintro ⟨flows, now, lastTick, readers, closed⟩ ⟨hflows, htick, hreaders, hclosed⟩
  simp only at hflows htick hreaders hclosed
  subst hflows htick hreaders hclosed
  refine ⟨⟨rfl, by simp, ?_, ?_, fun _ _ => rfl, ?_⟩, ⟨?_, ?_, ?_⟩, le_rfl,
    Nat.le_add_right_of_le (Nat.le_add_right _ _), ?_⟩
  · intro id object hl
    simp at hl
  · intro object flow hflow
    cases hflow
  · intro id object hl
    simp at hl
  · intro id flow hl
    simp at hl
  · intro key a hl
    simp at hl
  · intro id object flow hl
    simp at hl
  · intro object since hsince
    cases hsince

end FlowClock

/-- In every run, what is in the tables is not old: a flow was last used, and an
assembly begun, at most the time they are given, one period of the cleanup and one
`delay` ago, and the answer of a service was last awaited at most `udpFlowIdle` and
one `delay` ago. -/
theorem udp_flows_expire (services : Services) (delay : Nat) (S : FlowClock)
    (run : (flowClockMachine services delay).Reachable S) :
    (∀ id flow, Finmap.lookup id S.flows.entryUDP = some flow →
      S.now ≤ flow.last + udpFlowIdle + cleanupPeriod + delay) ∧
    (∀ key a, Finmap.lookup key S.flows.assemblies = some a →
      S.now ≤ a.created + udpAssemblyLifetime + cleanupPeriod + delay) ∧
    ∀ id object, Finmap.lookup id S.flows.remoteUDP = some object →
      ∃ flow since, S.flows.remotes[object]? = some flow ∧
        S.readers[object]? = some (some since) ∧
        S.now ≤ flow.last + udpFlowIdle + cleanupPeriod + delay ∧
        S.now ≤ since + udpFlowIdle + delay := by
  have h := FlowClock.kept_of_reachable run
  have hclock := h.clock
  refine ⟨?_, ?_, ?_⟩
  · intro id flow hl
    have hlast := h.recent.entryUDP id flow hl
    omega
  · intro key a hl
    have hcreated := h.recent.assemblies key a hl
    omega
  · intro id object hl
    obtain ⟨flow, hflow, -⟩ := h.sockets.own id object hl
    obtain ⟨since, hsince⟩ := h.sockets.reading id object hl
    have hlast := h.recent.remoteUDP id object flow hl hflow
    exact ⟨flow, since, hflow, hsince, by omega, h.waits object since hsince⟩

/-- A node with one UDP service. -/
def dnsServices : Services := AList.singleton (ofString "dns") ⟨udp, ofString "127.0.0.1:53"⟩

/-- The flow 7 is made at time 1 and given up by its reader, then comes the flow 8. -/
def dnsClock : FlowClock :=
  [⟨.handleUDPDatagram true 7 (ofString "dns"), 1⟩, ⟨.remoteError 0, 2⟩,
    ⟨.handleUDPDatagram true 8 (ofString "dns"), 3⟩].foldl (FlowClock.apply dnsServices)
    ⟨{}, 0, 0, [], 0⟩

theorem dnsClock_reachable : (flowClockMachine dnsServices 10).Reachable dnsClock := by
  have start : (flowClockMachine dnsServices 10).Reachable ⟨{}, 0, 0, [], 0⟩ :=
    .start ⟨rfl, rfl, rfl, rfl⟩
  refine start.run _ ⟨⟨by decide, by decide, ?_, trivial⟩, trivial,
    ⟨by decide, by decide, ?_, 1, by decide +kernel⟩, trivial,
    ⟨by decide, by decide, ?_, trivial⟩, trivial, trivial⟩
  · intro object since hs
    cases hs
  · intro object since hs
    have hsince := List.mem_singleton.mp (List.mem_of_getElem? (l := [some 1]) hs)
    obtain rfl := Option.some.inj hsince
    decide
  · intro object since hs
    cases List.mem_singleton.mp (List.mem_of_getElem? (l := [none]) hs)

theorem udp_flows_expire_dns :
    Finmap.lookup 8 dnsClock.flows.remoteUDP = some 1 ∧
      ∃ flow since, dnsClock.flows.remotes[1]? = some flow ∧
        dnsClock.readers[1]? = some (some since) ∧ dnsClock.now ≤ since + udpFlowIdle + 10 := by
  have hentry : Finmap.lookup 8 dnsClock.flows.remoteUDP = some 1 := by decide +kernel
  obtain ⟨flow, since, hflow, hsince, -, hwaits⟩ :=
    (udp_flows_expire dnsServices 10 dnsClock dnsClock_reachable).2.2 8 1 hentry
  exact ⟨hentry, flow, since, hflow, hsince, hwaits⟩

/-- In every run, a service socket is open exactly as long as its flow is in the
table, where it has the ID it was made for; at most `maxUDPFlows` are open, each
is closed once, and one whose reader has returned is closed. -/
theorem udp_sockets_accounted (services : Services) (delay : Nat) (S : FlowClock)
    (run : (flowClockMachine services delay).Reachable S) :
    (∀ (object : Nat) flow, S.flows.remotes[object]? = some flow →
      Finmap.lookup flow.flowID S.flows.remoteUDP = some object ∧ S.closed object = 0 ∨
      (∀ id, Finmap.lookup id S.flows.remoteUDP ≠ some object) ∧ S.closed object = 1) ∧
    S.flows.remoteUDP.size ≤ maxUDPFlows ∧
    ∀ object : Nat, S.readers[object]? = some none → S.closed object = 1 := by
  have h := (FlowClock.kept_of_reachable run).sockets
  have hfate : ∀ (object : Nat) flow, S.flows.remotes[object]? = some flow →
      Finmap.lookup flow.flowID S.flows.remoteUDP = some object ∧ S.closed object = 0 ∨
      (∀ id, Finmap.lookup id S.flows.remoteUDP ≠ some object) ∧ S.closed object = 1 := by
    intro object flow hflow
    have honce := h.once object flow hflow
    by_cases hentry : Finmap.lookup flow.flowID S.flows.remoteUDP = some object
    · rw [if_pos hentry] at honce
      exact Or.inl ⟨hentry, by omega⟩
    · rw [if_neg hentry] at honce
      refine Or.inr ⟨fun id hl => ?_, honce⟩
      obtain ⟨flow', hflow', rfl⟩ := h.own id object hl
      obtain rfl := Option.some.inj (hflow.symm.trans hflow')
      exact hentry hl
  refine ⟨hfate, h.limit, ?_⟩
  intro object hended
  have hlt : object < S.flows.remotes.length :=
    h.length ▸ (List.getElem?_eq_some_iff.mp hended).1
  obtain ⟨hentry, -⟩ | ⟨-, hclosed⟩ := hfate object _ (List.getElem?_eq_getElem hlt)
  · obtain ⟨since, hsince⟩ := h.reading _ object hentry
    cases hended.symm.trans hsince
  · exact hclosed

theorem udp_sockets_accounted_dns :
    dnsClock.readers[0]? = some none ∧ dnsClock.closed 0 = 1 := by
  have hended : dnsClock.readers[0]? = some none := by decide +kernel
  exact ⟨hended,
    (udp_sockets_accounted dnsServices 10 dnsClock dnsClock_reachable).2.2 0 hended⟩

end UnknownTunnel.App

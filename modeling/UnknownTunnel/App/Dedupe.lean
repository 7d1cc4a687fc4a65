import UnknownTunnel.Foundation.RingWindow
import UnknownTunnel.Protocol.Message

/-!
# The duplicate window of received messages

`incomingLoop` passes a message to `handleMessage` unless `isDuplicate`
recognises its ID. `App.send` draws the IDs from one counter that starts at a
random value.

## Implementation notes

The carriers put their messages into one channel, so what arrives is a list
in the order of that channel. A message that does not decode is dropped
before its ID is looked at.
-/

namespace UnknownTunnel.App

open Foundation Protocol

/-- How many message numbers are remembered. -/
def dedupeWindow : Nat := 2 ^ 20

/-- The fields `seen`, `seenRing` and `seenNext`. -/
abbrev Seen := RingWindow UInt64

def newSeen : Seen := RingWindow.fresh 0 dedupeWindow

/-- Zero stands for a free place of the ring. -/
def isDuplicate (seen : Seen) (id : UInt64) : Seen × Bool := seen.offer 0 id

/-- The fields after a sequence of calls from `New`, and the IDs for which
`isDuplicate` returned false. -/
def isDuplicateCalls (ids : List UInt64) : Seen × List UInt64 :=
  RingWindow.after 0 dedupeWindow ids

/-- The duplicate window and the messages passed to `handleMessage`. -/
structure Incoming where
  seen : Seen
  handled : List Message

namespace Incoming

/-- One turn of `incomingLoop`. -/
def receive (a : Incoming) (raw : Bytes) : Incoming :=
  match decode raw with
  | .error _ => a
  | .ok msg =>
      match isDuplicate a.seen msg.id with
      | (seen, true) => { a with seen }
      | (seen, false) => ⟨seen, a.handled ++ [msg]⟩

end Incoming

def incomingLoop (raws : List Bytes) : Incoming := raws.foldl Incoming.receive ⟨newSeen, []⟩

/-! ## The window -/

/-- The ID that a raw message is looked up by. -/
def decodedID (raw : Bytes) : Option UInt64 :=
  match decode raw with
  | .error _ => none
  | .ok msg => some msg.id

/-- What `incomingLoop` does to the window is a sequence of calls. -/
theorem incomingLoop_calls (raws : List Bytes) :
    isDuplicateCalls (raws.filterMap decodedID) =
      ((incomingLoop raws).seen, (incomingLoop raws).handled.map Message.id) := by
  induction raws using List.reverseRecOn with
  | nil => rfl
  | append_singleton raws raw ih =>
      simp only [isDuplicateCalls, RingWindow.after, incomingLoop] at ih
      simp only [isDuplicateCalls, RingWindow.after, incomingLoop, List.filterMap_append,
        List.foldl_append, List.foldl_cons, List.foldl_nil, ih, Incoming.receive]
      cases hraw : decode raw with
      | error e => simp [decodedID, hraw]
      | ok msg =>
          simp only [List.filterMap_cons, decodedID, hraw, List.filterMap_nil, List.foldl_cons,
            List.foldl_nil, RingWindow.record, isDuplicate]
          split <;> simp_all

theorem tracks_calls (ids : List UInt64) :
    RingWindow.Tracks 0 dedupeWindow (isDuplicateCalls ids).1 (isDuplicateCalls ids).2 :=
  RingWindow.tracks_after 0 (by decide) ids

/-- The entries of the ring that were used. -/
def usedEntries (seen : Seen) : List UInt64 := seen.ring.filter (· ≠ 0)

theorem usedEntries_nodup (ids : List UInt64) : (usedEntries (isDuplicateCalls ids).1).Nodup := by
  have h := tracks_calls ids
  rw [usedEntries, List.Nodup, List.pairwise_filter, List.pairwise_iff_getElem]
  intro p q hp hq hpq hused _ heq
  have hplace := h.place_injective (List.getElem?_eq_getElem hp)
    (heq ▸ List.getElem?_eq_getElem hq) (by simpa using hused)
  omega

theorem seen_eq_usedEntries (ids : List UInt64) :
    (isDuplicateCalls ids).1.seen = (usedEntries (isDuplicateCalls ids).1).toFinset := by
  have h := tracks_calls ids
  ext id
  simp only [usedEntries, List.mem_toFinset, List.mem_filter, decide_eq_true_eq]
  by_cases hid : id = 0
  · subst hid
    constructor
    · intro hmem
      obtain ⟨i, -, hi⟩ := (h.seen 0).mp hmem
      exact absurd (List.mem_of_getElem? hi) h.proper
    · intro hmem
      exact absurd rfl hmem.2
  · rw [h.mem_ring hid]
    simp [hid]

theorem length_usedEntries_le (ids : List UInt64) :
    (usedEntries (isDuplicateCalls ids).1).length ≤ dedupeWindow := by
  calc (usedEntries (isDuplicateCalls ids).1).length
      ≤ (isDuplicateCalls ids).1.ring.length := List.length_filter_le _ _
    _ = dedupeWindow := (tracks_calls ids).length

/-- Two handled messages with one ID are the window apart. -/
theorem handled_apart (raws : List Bytes) {i j : Nat} {m m' : Message} (hij : i < j)
    (hi : (incomingLoop raws).handled[i]? = some m)
    (hj : (incomingLoop raws).handled[j]? = some m') (hid : m.id = m'.id) :
    i + dedupeWindow < j := by
  have h := tracks_calls (raws.filterMap decodedID)
  rw [incomingLoop_calls] at h
  apply h.apart i j m.id hij
  · simp [hi]
  · simp [hj, hid]

/-- `isDuplicate` is a sliding window over the accepted IDs, and a message ID
is handled again only after as many other messages as the window holds. -/
theorem duplicate_window_exact :
    (∀ ids : List UInt64,
      (∀ id, (isDuplicate (isDuplicateCalls ids).1 id).2 = false ↔
        id ≠ 0 ∧ id ∉ (isDuplicateCalls ids).2.drop
          ((isDuplicateCalls ids).2.length - dedupeWindow)) ∧
      (isDuplicateCalls ids).1.seen = (usedEntries (isDuplicateCalls ids).1).toFinset ∧
      (usedEntries (isDuplicateCalls ids).1).Nodup ∧
      (usedEntries (isDuplicateCalls ids).1).length ≤ dedupeWindow) ∧
    (∀ (raws : List Bytes) (i j : Nat) (m m' : Message), i < j →
      (incomingLoop raws).handled[i]? = some m → (incomingLoop raws).handled[j]? = some m' →
      m.id = m'.id → i + dedupeWindow < j) := by
  constructor
  · intro ids
    exact ⟨(tracks_calls ids).offer_iff, seen_eq_usedEntries ids, usedEntries_nodup ids,
      length_usedEntries_le ids⟩
  · intro raws i j m m' hij hi hj hid
    exact handled_apart raws hij hi hj hid

/-! ## The IDs of sent messages -/

/-- `random` is the number read from eight random bytes. -/
def randomID (random : UInt64) : UInt64 := if random = 0 then 1 else random

/-- The ID that `App.send` gives to a message: the counter `msgID` after the
increment that wraps around. -/
def sendID (msgID : UInt64) : UInt64 := msgID + 1

/-- The ID of the message numbered `k`, from zero on. -/
def messageID (seed : UInt64) : Nat → UInt64
  | 0 => sendID seed
  | k + 1 => sendID (messageID seed k)

theorem toNat_messageID (seed : UInt64) (k : Nat) :
    (messageID seed k).toNat = (seed.toNat + k + 1) % 2 ^ 64 := by
  induction k with
  | zero => simp [messageID, sendID, UInt64.toNat_add]
  | succ k ih =>
      rw [messageID, sendID, UInt64.toNat_add, ih, UInt64.toNat_one, Nat.mod_add_mod]
      rfl

/-- The calls a receiver makes when copies of messages arrive in some order. -/
def arrivalCalls (seed : UInt64) (arrivals : List Nat) : Seen × List UInt64 :=
  isDuplicateCalls (arrivals.map (messageID seed))

/-- In whatever order and number copies of the first `n` messages arrive at an
empty window, the first copy of each is not taken for a duplicate. -/
def FirstCopiesAccepted (seed : UInt64) (n : Nat) : Prop :=
  ∀ (before : List Nat) (k : Nat), (∀ j ∈ before, j < n) → k < n → k ∉ before →
    (isDuplicate (arrivalCalls seed before).1 (messageID seed k)).2 = false

/-- Until the counter wraps around, it passes neither zero nor an ID twice. -/
theorem toNat_messageID_of_lt {seed : UInt64} {n k : Nat} (h : seed.toNat + n < 2 ^ 64)
    (hk : k < n) : (messageID seed k).toNat = seed.toNat + k + 1 := by
  rw [toNat_messageID, Nat.mod_eq_of_lt (by omega)]

theorem accepted_subset (ids : List UInt64) : (isDuplicateCalls ids).2 ⊆ ids := by
  induction ids using List.reverseRecOn with
  | nil => simp [isDuplicateCalls, RingWindow.after]
  | append_singleton ids id ih =>
      simp only [isDuplicateCalls, RingWindow.after, List.foldl_append, List.foldl_cons,
        List.foldl_nil, RingWindow.record] at ih ⊢
      split
      · exact List.Subset.trans ih (List.subset_append_left _ _)
      · exact List.append_subset.mpr
          ⟨List.Subset.trans ih (List.subset_append_left _ _), List.subset_append_right _ _⟩

/-- First copies are accepted exactly as long as the counter does not wrap
around. -/
theorem first_copies_accepted_iff (seed : UInt64) (n : Nat) :
    FirstCopiesAccepted seed n ↔ seed.toNat + n < 2 ^ 64 := by
  constructor
  · intro h
    by_contra hwrap
    have hseed := seed.toNat_lt
    -- The message at which the counter reaches zero.
    have hzero : messageID seed (2 ^ 64 - 1 - seed.toNat) = 0 := by
      rw [← UInt64.toNat_inj, toNat_messageID]
      have hsum : seed.toNat + (2 ^ 64 - 1 - seed.toNat) + 1 = 2 ^ 64 := by omega
      rw [hsum]
      rfl
    have hfirst := h [] (2 ^ 64 - 1 - seed.toNat) nofun (by omega) nofun
    rw [hzero] at hfirst
    exact ((tracks_calls _).offer_iff 0 |>.mp hfirst).1 rfl
  · intro h before k hbefore hk hnew
    refine ((tracks_calls _).offer_iff _).mpr ⟨?_, ?_⟩
    · intro heq
      have hid := toNat_messageID_of_lt h hk
      rw [heq, UInt64.toNat_zero] at hid
      omega
    · intro hmem
      obtain ⟨j, hj, heq⟩ := List.mem_map.mp (accepted_subset _ (List.mem_of_mem_drop hmem))
      have hid := toNat_messageID_of_lt h hk
      rw [← heq, toNat_messageID_of_lt h (hbefore j hj)] at hid
      obtain rfl : j = k := by omega
      exact hnew hj

/-- The first message of an application whose seed is the largest number has
ID zero and is dropped. -/
theorem first_copy_dropped_at_wrap :
    ¬ FirstCopiesAccepted (randomID 18446744073709551615) 1 := by
  intro h
  have hfirst := h [] 0 nofun Nat.zero_lt_one nofun
  have hid : messageID (randomID 18446744073709551615) 0 = 0 := by decide
  rw [hid] at hfirst
  exact ((tracks_calls _).offer_iff 0 |>.mp hfirst).1 rfl

end UnknownTunnel.App

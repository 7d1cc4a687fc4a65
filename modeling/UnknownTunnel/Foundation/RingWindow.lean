import Mathlib.Data.Finset.Basic
import Mathlib.Data.List.Basic

/-!
# A sliding window kept as a set and a ring

A window of the last accepted items is kept twice: as a set, to look items
up, and as a ring in the order of acceptance, to know which item leaves the
window next. A blank item marks the places of the ring that were never used
and is itself never accepted.

## Implementation notes

The history of accepted items determines the window. The item at position `i`
of the history stands at place `i % c` of a ring of `c` places as long as it
is one of the last `c`.
-/

namespace UnknownTunnel.Foundation

structure RingWindow (α : Type*) where
  seen : Finset α
  ring : List α
  next : Nat

namespace RingWindow

variable {α : Type*} (blank : α)

/-- An empty window of `c` places. -/
def fresh (c : Nat) : RingWindow α := ⟨∅, List.replicate c blank, 0⟩

/-- The window after a new item took the place of the oldest one. -/
def push [DecidableEq α] (w : RingWindow α) (item : α) : RingWindow α :=
  let old := w.ring.getD w.next blank
  let next := w.next + 1
  { seen := insert item (if old ≠ blank then w.seen.erase old else w.seen)
    ring := w.ring.set w.next item
    next := if next = w.ring.length then 0 else next }

/-- The window after an item is offered, and whether the item was refused. -/
def offer [DecidableEq α] (w : RingWindow α) (item : α) : RingWindow α × Bool :=
  if item = blank then (w, true)
  else if item ∈ w.seen then (w, true)
  else (w.push blank item, false)

/-- A window together with the items accepted so far. -/
def record [DecidableEq α] (run : RingWindow α × List α) (item : α) : RingWindow α × List α :=
  match run.1.offer blank item with
  | (w, true) => (w, run.2)
  | (w, false) => (w, run.2 ++ [item])

/-- The window and the history after a sequence of offers. -/
def after [DecidableEq α] (c : Nat) (items : List α) : RingWindow α × List α :=
  items.foldl (record blank) (fresh blank c, [])

/-! ## Histories -/

/-- One of the last `c` accepted items. -/
def Recent (c : Nat) (accepted : List α) (item : α) : Prop :=
  ∃ i, accepted.length ≤ i + c ∧ accepted[i]? = some item

/-- A history of items that are not blank, in which equal items are more than
`c` apart. -/
structure Spaced (c : Nat) (accepted : List α) : Prop where
  proper : blank ∉ accepted
  apart : ∀ (i j : Nat) (item : α), i < j → accepted[i]? = some item →
    accepted[j]? = some item → i + c < j

/-- The window agrees with the history of accepted items. -/
structure Tracks (c : Nat) (w : RingWindow α) (accepted : List α) : Prop
    extends Spaced blank c accepted where
  length : w.ring.length = c
  next : w.next = accepted.length % c
  placed : ∀ i, accepted.length ≤ i + c → i < accepted.length →
    w.ring[i % c]? = accepted[i]?
  vacant : ∀ p, accepted.length ≤ p → p < c → w.ring[p]? = some blank
  seen : ∀ item, item ∈ w.seen ↔ Recent c accepted item

variable {blank} {c : Nat} {w : RingWindow α} {accepted : List α} {item : α}

theorem recent_iff_mem_drop :
    Recent c accepted item ↔ item ∈ accepted.drop (accepted.length - c) := by
  rw [List.mem_iff_getElem?]
  constructor
  · rintro ⟨i, hi, heq⟩
    refine ⟨i - (accepted.length - c), ?_⟩
    rw [List.getElem?_drop, ← heq]
    congr 1
    omega
  · rintro ⟨k, hk⟩
    rw [List.getElem?_drop] at hk
    exact ⟨accepted.length - c + k, by omega, hk⟩

theorem recent_append {new : α} :
    Recent c (accepted ++ [new]) item ↔
      (0 < c ∧ item = new) ∨
        ∃ i, accepted.length + 1 ≤ i + c ∧ accepted[i]? = some item := by
  constructor
  · rintro ⟨i, hi, heq⟩
    rw [List.length_append, List.length_singleton] at hi
    have hlt : i < accepted.length + 1 := by
      simpa using (List.getElem?_eq_some_iff.mp heq).1
    by_cases hlast : i = accepted.length
    · subst hlast
      obtain rfl : new = item := by simpa using heq
      exact .inl ⟨by omega, rfl⟩
    · rw [List.getElem?_append_left (by omega)] at heq
      exact .inr ⟨i, hi, heq⟩
  · rintro (⟨hc, rfl⟩ | ⟨i, hi, heq⟩)
    · refine ⟨accepted.length, ?_, by simp⟩
      rw [List.length_append, List.length_singleton]
      omega
    · refine ⟨i, by simpa using hi, ?_⟩
      rw [List.getElem?_append_left (List.getElem?_eq_some_iff.mp heq).1, heq]

theorem Spaced.append (h : Spaced blank c accepted) (hitem : item ≠ blank)
    (hnew : ¬ Recent c accepted item) : Spaced blank c (accepted ++ [item]) := by
  constructor
  · simp [h.proper, hitem.symm]
  · intro i j x hij hi hj
    have hlt : j < accepted.length + 1 := by
      simpa using (List.getElem?_eq_some_iff.mp hj).1
    rw [List.getElem?_append_left (by omega)] at hi
    by_cases hlast : j = accepted.length
    · subst hlast
      obtain rfl : item = x := by simpa using hj
      by_contra hclose
      exact hnew ⟨i, by omega, hi⟩
    · rw [List.getElem?_append_left (by omega)] at hj
      exact h.apart i j x hij hi hj

/-! ## The ring -/

/-- Two positions less than a full turn apart have different places. -/
theorem place_ne {i n : Nat} (hlt : i < n) (hclose : n < i + c) : i % c ≠ n % c := by
  intro heq
  have hzero : (n - i) % c = 0 := Nat.sub_mod_eq_zero_of_mod_eq heq.symm
  rw [Nat.mod_eq_of_lt (by omega)] at hzero
  omega

theorem succ_place {n : Nat} (hc : 0 < c) :
    (n + 1) % c = if n % c + 1 = c then 0 else n % c + 1 := by
  have hlt := Nat.mod_lt n hc
  rw [← Nat.mod_add_mod]
  split
  · rename_i heq
    rw [heq, Nat.mod_self]
  · exact Nat.mod_eq_of_lt (by omega)

theorem tracks_fresh (blank : α) (c : Nat) : Tracks blank c (fresh blank c) [] := by
  refine ⟨⟨by simp, by simp⟩, by simp [fresh], by simp [fresh], by simp, ?_, ?_⟩
  · intro p _ hp
    simp [fresh, hp]
  · simp [fresh, Recent]

/-- The item that leaves the window when the next one enters. -/
theorem Tracks.oldest (h : Tracks blank c w accepted) (hc : 0 < c) :
    w.ring.getD w.next blank =
      if c ≤ accepted.length then accepted.getD (accepted.length - c) blank else blank := by
  rw [h.next]
  split
  · rename_i hfull
    have hmod : (accepted.length - c) % c = accepted.length % c :=
      (Nat.mod_eq_sub_mod hfull).symm
    have hplaced := h.placed (accepted.length - c) (by omega) (by omega)
    rw [hmod] at hplaced
    rw [List.getD_eq_getElem?_getD, List.getD_eq_getElem?_getD, hplaced]
  · rename_i hpartial
    rw [Nat.mod_eq_of_lt (by omega), List.getD_eq_getElem?_getD,
      h.vacant accepted.length (by omega) (by omega)]
    rfl

section Steps

variable [DecidableEq α]

/-- What is left of the window once its oldest item is out. -/
theorem Tracks.mem_remaining (h : Tracks blank c w accepted) (hc : 0 < c) :
    (item ∈ if w.ring.getD w.next blank ≠ blank then w.seen.erase (w.ring.getD w.next blank)
      else w.seen) ↔ ∃ i, accepted.length + 1 ≤ i + c ∧ accepted[i]? = some item := by
  rw [h.oldest hc]
  by_cases hfull : c ≤ accepted.length
  · have hlt : accepted.length - c < accepted.length := by omega
    obtain ⟨old, hold⟩ : ∃ old, accepted[accepted.length - c]? = some old :=
      ⟨_, List.getElem?_eq_getElem hlt⟩
    have hproper : old ≠ blank := fun heq =>
      h.proper (heq ▸ List.mem_of_getElem? hold)
    rw [if_pos hfull, List.getD_eq_getElem?_getD, hold, Option.getD_some, if_pos hproper,
      Finset.mem_erase, h.seen]
    constructor
    · rintro ⟨hne, i, hi, heq⟩
      refine ⟨i, ?_, heq⟩
      by_contra hout
      obtain rfl : i = accepted.length - c := by omega
      rw [hold] at heq
      exact hne (Option.some.inj heq).symm
    · rintro ⟨i, hi, heq⟩
      refine ⟨?_, i, by omega, heq⟩
      rintro rfl
      have hilt := (List.getElem?_eq_some_iff.mp heq).1
      have := h.apart _ i item (by omega) hold heq
      omega
  · rw [if_neg hfull, if_neg (not_not.mpr rfl), h.seen]
    constructor
    · rintro ⟨i, -, heq⟩
      exact ⟨i, by omega, heq⟩
    · rintro ⟨i, hi, heq⟩
      exact ⟨i, by omega, heq⟩

/-- An accepted item enters the window and the history together. -/
theorem Tracks.push (h : Tracks blank c w accepted) (hc : 0 < c) (hitem : item ≠ blank)
    (hnew : item ∉ w.seen) : Tracks blank c (w.push blank item) (accepted ++ [item]) := by
  have hplace := Nat.mod_lt accepted.length hc
  refine ⟨h.toSpaced.append hitem fun hrecent => hnew ((h.seen item).mpr hrecent), ?_, ?_, ?_, ?_,
    ?_⟩
  · simp [RingWindow.push, h.length]
  · simp only [RingWindow.push, h.next, h.length, List.length_append, List.length_singleton]
    exact (succ_place hc).symm
  · intro i hi hlt
    rw [List.length_append, List.length_singleton] at hi hlt
    simp only [RingWindow.push, h.next]
    by_cases hlast : i = accepted.length
    · subst hlast
      simp [h.length, hplace]
    · rw [List.getElem?_set_ne (place_ne (by omega) (by omega)).symm,
        List.getElem?_append_left (by omega)]
      exact h.placed i (by omega) (by omega)
  · intro p hp hlt
    rw [List.length_append, List.length_singleton] at hp
    simp only [RingWindow.push, h.next]
    rw [Nat.mod_eq_of_lt (by omega), List.getElem?_set_ne (by omega)]
    exact h.vacant p (by omega) hlt
  · intro x
    rw [recent_append, ← h.mem_remaining hc]
    simp [RingWindow.push, hc]

theorem offer_eq_false_iff :
    (w.offer blank item).2 = false ↔ item ≠ blank ∧ item ∉ w.seen := by
  unfold offer
  split
  · simp_all
  · split <;> simp_all

/-- A step of the window and its history. -/
theorem Tracks.record (h : Tracks blank c w accepted) (hc : 0 < c) (item : α) :
    Tracks blank c (RingWindow.record blank (w, accepted) item).1
      (RingWindow.record blank (w, accepted) item).2 := by
  unfold RingWindow.record offer
  by_cases hblank : item = blank
  · simpa [hblank] using h
  · by_cases hseen : item ∈ w.seen
    · simpa [hblank, hseen] using h
    · simpa [hblank, hseen] using h.push hc hblank hseen

/-- The window after any sequence of offers. -/
theorem tracks_after (blank : α) (hc : 0 < c) (items : List α) :
    Tracks blank c (after blank c items).1 (after blank c items).2 := by
  induction items using List.reverseRecOn with
  | nil => exact tracks_fresh blank c
  | append_singleton items item ih =>
      simp only [after, List.foldl_append, List.foldl_cons, List.foldl_nil]
      exact ih.record hc item

/-- An offer is accepted exactly if the item is neither blank nor recent. -/
theorem Tracks.offer_iff (h : Tracks blank c w accepted) (item : α) :
    (w.offer blank item).2 = false ↔
      item ≠ blank ∧ item ∉ accepted.drop (accepted.length - c) := by
  rw [offer_eq_false_iff, h.seen, recent_iff_mem_drop]

end Steps

/-! ## The ring holds exactly the window -/

/-- Every used place holds a recent item, with its position in the history. -/
theorem Tracks.place (h : Tracks blank c w accepted) {p : Nat} (hp : w.ring[p]? = some item)
    (hitem : item ≠ blank) :
    ∃ i, i % c = p ∧ accepted.length ≤ i + c ∧ accepted[i]? = some item := by
  have hpc : p < c := h.length ▸ (List.getElem?_eq_some_iff.mp hp).1
  have hused : p < accepted.length := by
    by_contra hout
    rw [h.vacant p (by omega) hpc] at hp
    exact hitem (Option.some.inj hp).symm
  -- The last position before the end whose place is `p`.
  let turns := (accepted.length - 1 - p) / c
  have hdiv := Nat.div_add_mod (accepted.length - 1 - p) c
  have hmod := Nat.mod_lt (accepted.length - 1 - p) (show 0 < c by omega)
  have hi : (p + c * turns) % c = p := by
    rw [Nat.add_mul_mod_self_left, Nat.mod_eq_of_lt hpc]
  have hle : accepted.length ≤ p + c * turns + c := by
    change c * turns + _ = _ at hdiv
    omega
  have hlt : p + c * turns < accepted.length := by
    change c * turns + _ = _ at hdiv
    omega
  refine ⟨p + c * turns, hi, hle, ?_⟩
  rw [← h.placed _ hle hlt, hi, hp]

theorem Tracks.mem_ring (h : Tracks blank c w accepted) (hitem : item ≠ blank) :
    item ∈ w.ring ↔ item ∈ w.seen := by
  rw [h.seen]
  constructor
  · intro hmem
    obtain ⟨p, hp⟩ := List.getElem?_of_mem hmem
    obtain ⟨i, -, hi, heq⟩ := h.place hp hitem
    exact ⟨i, hi, heq⟩
  · rintro ⟨i, hi, heq⟩
    have hlt := (List.getElem?_eq_some_iff.mp heq).1
    exact List.mem_of_getElem? ((h.placed i hi hlt).trans heq)

theorem Tracks.place_injective (h : Tracks blank c w accepted) {p q : Nat}
    (hp : w.ring[p]? = some item) (hq : w.ring[q]? = some item) (hitem : item ≠ blank) : p = q := by
  obtain ⟨i, hip, hi, hieq⟩ := h.place hp hitem
  obtain ⟨j, hjq, hj, hjeq⟩ := h.place hq hitem
  have hilt := (List.getElem?_eq_some_iff.mp hieq).1
  have hjlt := (List.getElem?_eq_some_iff.mp hjeq).1
  rcases lt_trichotomy i j with hij | hij | hij
  · have := h.apart i j item hij hieq hjeq
    omega
  · rw [← hip, ← hjq, hij]
  · have := h.apart j i item hij hjeq hieq
    omega

end RingWindow

end UnknownTunnel.Foundation

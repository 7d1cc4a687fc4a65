import Mathlib.Order.Interval.Finset.Nat
import UnknownTunnel.Foundation.Table

/-!
# Bounded resequencing buffers

A resequencer delivers numbered items in order. Items ahead of the expected
number wait in a table whose keys lie within a fixed window; an arrival of
the expected number is delivered and the waiting run behind it is drained.

## Implementation notes

A delivery may fail. The failing item has then already left the waiting
table, so a failure ends the resequencer's guarantee of retention but not
that of order.
-/

namespace UnknownTunnel.Foundation

/-- The expected number, the waiting items and everything delivered so far. -/
structure Resequencer (α : Type*) where
  expected : Nat
  reorder : Table Nat α
  output : List α

namespace Resequencer

variable {α : Type*}

/-- What became of an arriving item; a failure names the item not delivered. -/
inductive Outcome (α : Type*)
  | stale
  | beyond
  | held
  | delivered
  | failed (a : α)
  deriving DecidableEq

/-- Whether a delivery failed. -/
def Outcome.isFailed : Outcome α → Bool
  | .failed _ => true
  | _ => false

/-- A resequencer that waits for item one. -/
def fresh : Resequencer α := ⟨1, ∅, []⟩

/-- Deliver the waiting run that starts at the expected number. `ok n` says
whether the delivery of item `n` succeeds. -/
def drain (ok : Nat → Bool) : Nat → Resequencer α → Resequencer α × Outcome α
  | 0, r => (r, .delivered)
  | fuel + 1, r =>
      match Finmap.lookup r.expected r.reorder with
      | none => (r, .delivered)
      | some next =>
          if ok r.expected then
            drain ok fuel ⟨r.expected + 1, r.reorder.erase r.expected, r.output ++ [next]⟩
          else
            ({ r with reorder := r.reorder.erase r.expected }, .failed next)

/-- Take one arriving item. The waiting table bounds the number of drain
rounds, so the drain always stops at a missing number. -/
def accept (window : Nat) (ok : Nat → Bool) (r : Resequencer α) (seq : Nat) (a : α) :
    Resequencer α × Outcome α :=
  if seq < r.expected then (r, .stale)
  else if window < seq - r.expected then (r, .beyond)
  else if r.expected < seq then
    (if seq ∈ r.reorder then r else { r with reorder := r.reorder.insert seq a }, .held)
  else if ok r.expected then
    drain ok r.reorder.size { r with expected := r.expected + 1, output := r.output ++ [a] }
  else (r, .failed a)

section Branches

variable {window : Nat} {ok : Nat → Bool} {r : Resequencer α} {seq : Nat} {a : α}

/-- The four positions an arriving number can take relative to the window. -/
theorem position (window : Nat) (r : Resequencer α) (seq : Nat) :
    seq < r.expected ∨ r.expected + window < seq ∨
      (r.expected < seq ∧ seq ≤ r.expected + window) ∨ seq = r.expected := by
  omega

theorem accept_stale (h : seq < r.expected) :
    accept window ok r seq a = (r, .stale) := by
  simp [accept, h]

theorem accept_beyond (h : r.expected + window < seq) :
    accept window ok r seq a = (r, .beyond) := by
  have h₁ : ¬ seq < r.expected := by omega
  have h₂ : window < seq - r.expected := by omega
  simp [accept, h₁, h₂]

theorem accept_held (h₁ : r.expected < seq) (h₂ : seq ≤ r.expected + window) :
    accept window ok r seq a =
      (if seq ∈ r.reorder then r else { r with reorder := r.reorder.insert seq a }, .held) := by
  have h₃ : ¬ seq < r.expected := by omega
  have h₄ : ¬ window < seq - r.expected := by omega
  simp only [accept, h₁, h₃, h₄, if_true, if_false]

theorem accept_expected :
    accept window ok r r.expected a =
      if ok r.expected then
        drain ok r.reorder.size { r with expected := r.expected + 1, output := r.output ++ [a] }
      else (r, .failed a) := by
  simp [accept]

end Branches

/-- The resequencer has delivered exactly the items before the expected
number, and every waiting item is the sent one and lies in the window. -/
structure Follows (window : Nat) (sent : List α) (r : Resequencer α) : Prop where
  pos : 0 < r.expected
  bound : r.expected ≤ sent.length + 1
  output : r.output = sent.take (r.expected - 1)
  waiting : ∀ k a, Finmap.lookup k r.reorder = some a →
    r.expected < k ∧ k ≤ r.expected + window ∧ sent[k - 1]? = some a

/-- The state inside the drain: the expected item itself may be waiting. -/
structure Draining (window : Nat) (sent : List α) (r : Resequencer α) : Prop where
  pos : 0 < r.expected
  bound : r.expected ≤ sent.length + 1
  output : r.output = sent.take (r.expected - 1)
  waiting : ∀ k a, Finmap.lookup k r.reorder = some a →
    r.expected ≤ k ∧ k ≤ r.expected + window ∧ sent[k - 1]? = some a

theorem fresh_follows (window : Nat) (sent : List α) :
    Follows window sent (fresh : Resequencer α) where
  pos := Nat.one_pos
  bound := Nat.le_add_left 1 sent.length
  output := by simp [fresh]
  waiting := by
    intro k a h
    simp [fresh] at h

variable {window : Nat} {sent : List α} {r : Resequencer α} {ok : Nat → Bool}

/-- Later items do not disturb what has been delivered or is waiting. -/
theorem Follows.append (h : Follows window sent r) (more : List α) :
    Follows window (sent ++ more) r where
  pos := h.pos
  bound := by
    have hb := h.bound
    simp only [List.length_append]
    omega
  output := by
    have hb := h.bound
    rw [h.output, List.take_append_of_le_length (by omega)]
  waiting := by
    intro k a hk
    obtain ⟨h₁, h₂, h₃⟩ := h.waiting k a hk
    refine ⟨h₁, h₂, ?_⟩
    obtain ⟨hlt, -⟩ := List.getElem?_eq_some_iff.mp h₃
    rw [List.getElem?_append_left hlt, h₃]

/-- Delivering the expected item extends the delivered prefix by one. -/
theorem take_expected_succ {n : Nat} {a : α} (hn : 0 < n) (ha : sent[n - 1]? = some a) :
    sent.take (n - 1) ++ [a] = sent.take (n + 1 - 1) ∧ n + 1 ≤ sent.length + 1 := by
  obtain ⟨hlt, -⟩ := List.getElem?_eq_some_iff.mp ha
  refine ⟨?_, by omega⟩
  have hn' : n + 1 - 1 = (n - 1) + 1 := by omega
  rw [hn', List.take_add_one, ha]
  rfl

theorem Draining.deliver (h : Draining window sent r) {next : α}
    (hl : Finmap.lookup r.expected r.reorder = some next) :
    Draining window sent
      ⟨r.expected + 1, r.reorder.erase r.expected, r.output ++ [next]⟩ := by
  obtain ⟨-, -, hs⟩ := h.waiting _ _ hl
  obtain ⟨htake, hlen⟩ := take_expected_succ h.pos hs
  refine ⟨Nat.succ_pos _, hlen, by rw [h.output, htake], ?_⟩
  intro k a hk
  rw [Table.lookup_erase_eq] at hk
  split at hk
  · cases hk
  · obtain ⟨h₁, h₂, h₃⟩ := h.waiting k a hk
    refine ⟨?_, ?_, h₃⟩ <;> simp only <;> omega

theorem Draining.follows (h : Draining window sent r)
    (hl : Finmap.lookup r.expected r.reorder = none) : Follows window sent r where
  pos := h.pos
  bound := h.bound
  output := h.output
  waiting := by
    intro k a hk
    obtain ⟨h₁, h₂, h₃⟩ := h.waiting k a hk
    have hne : k ≠ r.expected := by
      rintro rfl
      rw [hl] at hk
      cases hk
    exact ⟨by omega, h₂, h₃⟩

theorem drain_follows (fuel : Nat) (r : Resequencer α) (hf : r.reorder.size ≤ fuel)
    (h : Draining window sent r) : Follows window sent (drain ok fuel r).1 := by
  induction fuel generalizing r with
  | zero =>
      have hl := Table.lookup_eq_none_of_size_eq_zero (Nat.le_zero.mp hf) r.expected
      exact h.follows hl
  | succ fuel ih =>
      simp only [drain]
      cases hl : Finmap.lookup r.expected r.reorder with
      | none => exact h.follows hl
      | some next =>
          have hmem : r.expected ∈ r.reorder := Finmap.mem_of_lookup_eq_some hl
          have hsize := Table.size_erase_of_mem hmem
          by_cases hok : ok r.expected
          · simp only [hok, if_true]
            exact ih _ (by simp only; omega) (h.deliver hl)
          · simp only [hok, Bool.false_eq_true, if_false]
            apply Draining.follows
            · refine ⟨h.pos, h.bound, h.output, ?_⟩
              intro k a hk
              rw [Table.lookup_erase_eq] at hk
              split at hk
              · cases hk
              · exact h.waiting k a hk
            · simp

/-- Delivering the expected item leaves the drain its run of waiting items. -/
theorem Follows.deliver (h : Follows window sent r) {a : α}
    (ha : sent[r.expected - 1]? = some a) :
    Draining window sent { r with expected := r.expected + 1, output := r.output ++ [a] } := by
  obtain ⟨htake, hlen⟩ := take_expected_succ h.pos ha
  refine ⟨Nat.succ_pos _, hlen, by rw [h.output, htake], ?_⟩
  intro k b hk
  obtain ⟨h₁, h₂, h₃⟩ := h.waiting k b hk
  exact ⟨h₁, by simp only; omega, h₃⟩

/-- The waiting table is no larger than the window. -/
theorem Follows.size_le (h : Follows window sent r) : r.reorder.size ≤ window := by
  have hsub : r.reorder.keys ⊆ Finset.Ioc r.expected (r.expected + window) := by
    intro k hk
    obtain ⟨a, ha⟩ := Finmap.mem_iff.mp (Finmap.mem_keys.mp hk)
    obtain ⟨h₁, h₂, -⟩ := h.waiting k a ha
    exact Finset.mem_Ioc.mpr ⟨h₁, h₂⟩
  calc r.reorder.size ≤ (Finset.Ioc r.expected (r.expected + window)).card :=
        Finset.card_le_card hsub
    _ = window := by simp

/-- Taking an item that was sent under its number keeps the order guarantee,
whether or not its delivery succeeds. -/
theorem Follows.accept (h : Follows window sent r) {seq : Nat} {a : α}
    (ha : sent[seq - 1]? = some a) :
    Follows window sent (accept window ok r seq a).1 := by
  rcases position window r seq with hlt | hgt | ⟨h₁, h₂⟩ | rfl
  · rw [accept_stale hlt]
    exact h
  · rw [accept_beyond hgt]
    exact h
  · rw [accept_held h₁ h₂]
    by_cases hmem : seq ∈ r.reorder
    · simpa only [hmem, if_true] using h
    · simp only [hmem, if_false]
      refine ⟨h.pos, h.bound, h.output, ?_⟩
      intro k b hk
      rw [Table.lookup_insert_eq] at hk
      split at hk
      · rename_i hks
        cases hk
        subst hks
        exact ⟨h₁, h₂, ha⟩
      · exact h.waiting k b hk
  · rw [accept_expected]
    by_cases hok : ok r.expected
    · simp only [hok, if_true]
      exact drain_follows _ _ le_rfl (h.deliver ha)
    · simpa [hok] using h

/-- Every delivered or waiting item is one that may bear its number. -/
structure Sourced (P : Nat → α → Prop) (r : Resequencer α) : Prop where
  expected : r.expected = r.output.length + 1
  output : ∀ i a, r.output[i]? = some a → P (i + 1) a
  waiting : ∀ k a, Finmap.lookup k r.reorder = some a → P k a

variable {P Q : Nat → α → Prop}

theorem fresh_sourced (P : Nat → α → Prop) : Sourced P (fresh : Resequencer α) where
  expected := rfl
  output := by
    intro i a h
    simp [fresh] at h
  waiting := by
    intro k a h
    simp [fresh] at h

theorem Sourced.mono (h : Sourced P r) (hPQ : ∀ k a, P k a → Q k a) : Sourced Q r where
  expected := h.expected
  output := fun i a ha => hPQ _ _ (h.output i a ha)
  waiting := fun k a ha => hPQ _ _ (h.waiting k a ha)

theorem Sourced.deliver (h : Sourced P r) {a : α} (ha : P r.expected a)
    {reorder : Table Nat α} (hsub : ∀ k b, Finmap.lookup k reorder = some b →
      Finmap.lookup k r.reorder = some b) :
    Sourced P ⟨r.expected + 1, reorder, r.output ++ [a]⟩ where
  expected := by simp [h.expected]
  output := by
    intro i b hb
    rw [List.getElem?_append] at hb
    split at hb
    · exact h.output i b hb
    · rename_i hi
      obtain ⟨hlt, hb⟩ := List.getElem?_eq_some_iff.mp hb
      rw [List.length_singleton] at hlt
      have hpos : i + 1 = r.expected := by
        rw [h.expected]
        omega
      rw [hpos, ← hb]
      simpa using ha
  waiting := fun k b hb => h.waiting k b (hsub k b hb)

theorem drain_sourced (fuel : Nat) (r : Resequencer α) (h : Sourced P r) :
    Sourced P (drain ok fuel r).1 := by
  have hsub : ∀ (r : Resequencer α) k b, Finmap.lookup k (r.reorder.erase r.expected) = some b →
      Finmap.lookup k r.reorder = some b := by
    intro r k b hb
    rw [Table.lookup_erase_eq] at hb
    split at hb
    · cases hb
    · exact hb
  induction fuel generalizing r with
  | zero => exact h
  | succ fuel ih =>
      simp only [drain]
      cases hl : Finmap.lookup r.expected r.reorder with
      | none => exact h
      | some next =>
          by_cases hok : ok r.expected
          · simp only [hok, if_true]
            exact ih _ (h.deliver (h.waiting _ _ hl) (hsub r))
          · simp only [hok, Bool.false_eq_true, if_false]
            exact ⟨h.expected, h.output, fun k b hb => h.waiting k b (hsub r k b hb)⟩

/-- Taking an item that may bear its number keeps the sources. -/
theorem Sourced.accept (h : Sourced P r) {seq : Nat} {a : α} (ha : P seq a) :
    Sourced P (accept window ok r seq a).1 := by
  rcases position window r seq with hlt | hgt | ⟨h₁, h₂⟩ | rfl
  · rw [accept_stale hlt]
    exact h
  · rw [accept_beyond hgt]
    exact h
  · rw [accept_held h₁ h₂]
    by_cases hmem : seq ∈ r.reorder
    · simpa only [hmem, if_true] using h
    · simp only [hmem, if_false]
      refine ⟨h.expected, h.output, ?_⟩
      intro k b hk
      rw [Table.lookup_insert_eq] at hk
      split at hk
      · rename_i hks
        cases hk
        rw [hks]
        exact ha
      · exact h.waiting k b hk
  · rw [accept_expected]
    by_cases hok : ok r.expected
    · simp only [hok, if_true]
      exact drain_sourced _ _ (h.deliver ha fun _ _ hb => hb)
    · simpa [hok] using h

/-- An item is retained once it has been delivered or is waiting. -/
def Retains (r : Resequencer α) (k : Nat) : Prop := k < r.expected ∨ k ∈ r.reorder

/-- The expected item is never retained, so a run of retained items from the
first one on has been delivered. -/
theorem Follows.lt_expected (h : Follows window sent r) {n : Nat}
    (hall : ∀ k, 0 < k → k ≤ n → r.Retains k) : n < r.expected := by
  by_contra hle
  rcases hall r.expected h.pos (by omega) with hlt | hmem
  · exact absurd hlt (lt_irrefl _)
  · obtain ⟨a, ha⟩ := Finmap.mem_iff.mp hmem
    exact absurd (h.waiting r.expected a ha).1 (lt_irrefl _)

theorem drain_retains (fuel : Nat) (r : Resequencer α) {k : Nat} (h : r.Retains k)
    (hs : (drain ok fuel r).2.isFailed = false) : (drain ok fuel r).1.Retains k := by
  induction fuel generalizing r with
  | zero => exact h
  | succ fuel ih =>
      simp only [drain] at hs ⊢
      cases hl : Finmap.lookup r.expected r.reorder with
      | none => exact h
      | some next =>
          by_cases hok : ok r.expected
          · simp only [hl, hok, if_true] at hs ⊢
            apply ih _ _ hs
            by_cases hk : k = r.expected
            · exact Or.inl (by simp only; omega)
            · rcases h with h | h
              · exact Or.inl (by simp only; omega)
              · exact Or.inr (by simp [hk, h])
          · simp [hl, hok, Outcome.isFailed] at hs

/-- An arrival that does not fail forgets nothing that was retained. -/
theorem Retains.accept {k : Nat} (h : r.Retains k) {seq : Nat} {a : α}
    (hs : (accept window ok r seq a).2.isFailed = false) :
    (accept window ok r seq a).1.Retains k := by
  rcases position window r seq with hlt | hgt | ⟨h₁, h₂⟩ | rfl
  · rw [accept_stale hlt]
    exact h
  · rw [accept_beyond hgt]
    exact h
  · rw [accept_held h₁ h₂]
    by_cases hmem : seq ∈ r.reorder
    · simpa only [hmem, if_true] using h
    · simp only [hmem, if_false]
      exact h.imp id fun hk => by simp [hk]
  · rw [accept_expected] at hs ⊢
    by_cases hok : ok r.expected
    · simp only [hok, if_true] at hs ⊢
      apply drain_retains _ _ _ hs
      exact h.imp (fun hk => by simp only; omega) id
    · simp [hok, Outcome.isFailed] at hs

/-- An arrival that does not fail is itself retained exactly when it is not
beyond the window. -/
theorem Follows.retains_accept_iff (h : Follows window sent r) {seq : Nat} {a : α}
    (hs : (Resequencer.accept window ok r seq a).2.isFailed = false) :
    (Resequencer.accept window ok r seq a).1.Retains seq ↔ seq ≤ r.expected + window := by
  rcases position window r seq with hlt | hgt | ⟨h₁, h₂⟩ | rfl
  · rw [accept_stale hlt]
    exact iff_of_true (Or.inl hlt) (by omega)
  · rw [accept_beyond hgt]
    refine iff_of_false ?_ (by omega)
    rintro (hlt | hmem)
    · simp only at hlt
      omega
    · obtain ⟨b, hb⟩ := Finmap.mem_iff.mp hmem
      have hle := (h.waiting seq b hb).2.1
      omega
  · rw [accept_held h₁ h₂]
    refine iff_of_true ?_ h₂
    by_cases hmem : seq ∈ r.reorder
    · simp only [hmem, if_true]
      exact Or.inr hmem
    · exact Or.inr (by simp [hmem])
  · refine iff_of_true ?_ (by omega)
    rw [accept_expected] at hs ⊢
    by_cases hok : ok r.expected
    · simp only [hok, if_true] at hs ⊢
      apply drain_retains _ _ _ hs
      exact Or.inl (by simp only; omega)
    · simp [hok, Outcome.isFailed] at hs

theorem Follows.not_retains_expected (h : Follows window sent r) :
    ¬ r.Retains r.expected := by
  rintro (hlt | hmem)
  · exact lt_irrefl _ hlt
  · obtain ⟨a, ha⟩ := Finmap.mem_iff.mp hmem
    exact lt_irrefl _ (h.waiting r.expected a ha).1

/-- A resequencer that retains what another one retained is no further back. -/
theorem Follows.expected_le {r' : Resequencer α} (h : Follows window sent r) {sent' : List α}
    (h' : Follows window sent' r') (hmono : ∀ k, r.Retains k → r'.Retains k) :
    r.expected ≤ r'.expected := by
  have hpos := h.pos
  have hlt : r.expected - 1 < r'.expected :=
    h'.lt_expected fun k _ hk => hmono k (Or.inl (by omega))
  omega

section Deliveries

variable (hok : ∀ n, ok n = true)

include hok

theorem drain_delivers (fuel : Nat) (r : Resequencer α) :
    (drain ok fuel r).2.isFailed = false := by
  induction fuel generalizing r with
  | zero => rfl
  | succ fuel ih =>
      simp only [drain]
      cases Finmap.lookup r.expected r.reorder with
      | none => rfl
      | some next =>
          simp only [hok, if_true]
          exact ih _

/-- An arrival fails only if a delivery does. -/
theorem accept_delivers (window : Nat) (r : Resequencer α) (seq : Nat) (a : α) :
    (accept window ok r seq a).2.isFailed = false := by
  rcases position window r seq with hlt | hgt | ⟨h₁, h₂⟩ | rfl
  · rw [accept_stale hlt]
    rfl
  · rw [accept_beyond hgt]
    rfl
  · rw [accept_held h₁ h₂]
    rfl
  · rw [accept_expected, if_pos (hok _)]
    exact drain_delivers hok _ _

/-- The expected item moves a resequencer on. -/
theorem Follows.expected_lt_accept {a : α} (h : Follows window sent r)
    (ha : sent[r.expected - 1]? = some a) :
    r.expected < (Resequencer.accept window ok r r.expected a).1.expected := by
  have hnf := accept_delivers hok window r r.expected a
  refine (h.accept ha).lt_expected fun k _ hk => ?_
  obtain hlt | rfl := Nat.lt_or_eq_of_le hk
  · exact Retains.accept (Or.inl hlt) hnf
  · exact (h.retains_accept_iff hnf).mpr (Nat.le_add_right _ _)

end Deliveries

end Resequencer

end UnknownTunnel.Foundation

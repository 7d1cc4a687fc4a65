import Mathlib.Algebra.Order.Ring.Nat

/-!
# Crews

The goroutines that run one function, each at its stage, as a list to which
new ones are added at the end and in which one member moves at a time. What the
members hold together is a sum over their stages.
-/

namespace UnknownTunnel.Foundation.Crew

variable {α : Type*} {crew : List α} {i j : Nat} {a b c : α}

theorem getElem?_set (h : (crew.set i b)[j]? = some c) :
    j = i ∧ c = b ∨ j ≠ i ∧ crew[j]? = some c := by
  by_cases hij : i = j
  · subst hij
    rw [List.getElem?_set_self'] at h
    obtain ⟨_, _, hbc⟩ := Option.map_eq_some_iff.mp h
    exact Or.inl ⟨rfl, hbc.symm⟩
  · rw [List.getElem?_set_ne hij] at h
    exact Or.inr ⟨Ne.symm hij, h⟩

theorem getElem?_concat (h : (crew ++ [b])[j]? = some c) :
    j = crew.length ∧ c = b ∨ j < crew.length ∧ crew[j]? = some c := by
  rcases Nat.lt_trichotomy j crew.length with hlt | rfl | hgt
  · rw [List.getElem?_append_left hlt] at h
    exact Or.inr ⟨hlt, h⟩
  · rw [List.getElem?_concat_length] at h
    exact Or.inl ⟨rfl, (Option.some.inj h).symm⟩
  · rw [List.getElem?_eq_none (by simp; omega)] at h
    cases h

theorem set_self (h : crew[i]? = some a) : crew.set i a = crew := by
  obtain ⟨hlt, rfl⟩ := List.getElem?_eq_some_iff.mp h
  exact List.set_getElem_self hlt

/-- What the crew holds when one member moves. -/
theorem sum_set (holds : α → Nat) (h : crew[i]? = some a) (b : α) :
    ((crew.set i b).map holds).sum + holds a = (crew.map holds).sum + holds b := by
  induction crew generalizing i with
  | nil => cases h
  | cons member crew ih =>
      cases i with
      | zero =>
          obtain rfl := Option.some.inj h
          simp only [List.set_cons_zero, List.map_cons, List.sum_cons]
          omega
      | succ i =>
          have hrest := ih h
          simp only [List.set_cons_succ, List.map_cons, List.sum_cons]
          omega

theorem sum_concat (holds : α → Nat) (b : α) :
    ((crew ++ [b]).map holds).sum = (crew.map holds).sum + holds b := by
  simp

/-- Members that hold something are no more than what is held. -/
theorem countP_le_sum {p : α → Bool} {holds : α → Nat} (h : ∀ a, p a = true → 1 ≤ holds a) :
    crew.countP p ≤ (crew.map holds).sum := by
  induction crew with
  | nil => exact Nat.le_refl 0
  | cons member crew ih =>
      rw [List.countP_cons, List.map_cons, List.sum_cons]
      split
      · have hmember := h member ‹_›
        omega
      · omega

/-- A crew that holds something has a member that does. -/
theorem exists_of_sum (holds : α → Nat) (h : (crew.map holds).sum ≠ 0) :
    ∃ (i : Nat) (a : α), crew[i]? = some a ∧ holds a ≠ 0 := by
  induction crew with
  | nil => exact absurd rfl h
  | cons member crew ih =>
      by_cases hmember : holds member = 0
      · obtain ⟨i, a, ha, hholds⟩ := ih (by simpa [hmember] using h)
        exact ⟨i + 1, a, ha, hholds⟩
      · exact ⟨0, member, rfl, hmember⟩

end UnknownTunnel.Foundation.Crew

import Mathlib.Data.Finset.Card
import Mathlib.Data.List.Basic

/-!
# Numbered pieces in the order of their arrival

Pieces arrive in any order and may be repeated. A receiver keeps the first
piece of each number; a number that has not arrived is kept as the empty list.
-/

namespace UnknownTunnel.Foundation.Arrivals

variable {α : Type*}

/-- The numbers that have arrived. -/
def numbers (arrived : List (Nat × List α)) : Finset Nat := (arrived.map Prod.fst).toFinset

/-- The first piece of a number. -/
def first (arrived : List (Nat × List α)) (i : Nat) : List α := (arrived.lookup i).getD []

/-- The first pieces of the numbers below `n`. -/
def places (arrived : List (Nat × List α)) (n : Nat) : List (List α) :=
  (List.range n).map (first arrived)

variable {arrived : List (Nat × List α)} {i j n : Nat} {piece : List α}

theorem mem_numbers : i ∈ numbers arrived ↔ ∃ piece, (i, piece) ∈ arrived := by
  simp [numbers]

@[simp] theorem numbers_nil : numbers ([] : List (Nat × List α)) = ∅ := rfl

theorem numbers_append (i : Nat) (piece : List α) :
    numbers (arrived ++ [(i, piece)]) = insert i (numbers arrived) := by
  ext j
  simp [numbers]

/-- All numbers below a bound have arrived if that many have. -/
theorem mem_numbers_of_card (hbound : ∀ i ∈ numbers arrived, i < n)
    (hcard : (numbers arrived).card = n) (hi : i < n) : i ∈ numbers arrived := by
  have hsub : numbers arrived ⊆ Finset.range n := fun j hj => Finset.mem_range.mpr (hbound j hj)
  rw [Finset.eq_of_subset_of_card_le hsub (by simp [hcard])]
  exact Finset.mem_range.mpr hi

theorem lookup_eq_none_iff : arrived.lookup i = none ↔ i ∉ numbers arrived := by
  rw [List.lookup_eq_none_iff, mem_numbers]
  constructor
  · rintro h ⟨piece, hmem⟩
    simpa using h _ hmem
  · intro h p hp
    rw [bne_iff_ne]
    rintro rfl
    exact h ⟨p.2, hp⟩

theorem first_of_notMem (h : i ∉ numbers arrived) : first arrived i = [] := by
  rw [first, lookup_eq_none_iff.mpr h, Option.getD_none]

/-- Later pieces of a number do not count. -/
theorem first_append_of_mem (h : i ∈ numbers arrived) (more : List (Nat × List α)) :
    first (arrived ++ more) i = first arrived i := by
  obtain ⟨piece, hpiece⟩ := Option.ne_none_iff_exists'.mp (mt lookup_eq_none_iff.mp (not_not.mpr h))
  rw [first, first, List.lookup_append, hpiece, Option.some_or]

theorem first_append_of_notMem (h : i ∉ numbers arrived) (piece : List α) :
    first (arrived ++ [(i, piece)]) i = piece := by
  rw [first, List.lookup_append, lookup_eq_none_iff.mpr h, Option.none_or]
  simp

theorem first_append_of_ne (h : j ≠ i) (piece : List α) :
    first (arrived ++ [(i, piece)]) j = first arrived j := by
  have hother : List.lookup j [(i, piece)] = none := by
    rw [lookup_eq_none_iff, mem_numbers]
    rintro ⟨piece', hmem⟩
    exact h (congrArg Prod.fst (List.mem_singleton.mp hmem))
  rw [first, first, List.lookup_append, hother, Option.or_none]

@[simp] theorem length_places : (places arrived n).length = n := by
  simp [places]

theorem places_nil (n : Nat) : places ([] : List (Nat × List α)) n = List.replicate n [] := by
  rw [places, List.eq_replicate_iff]
  refine ⟨by simp, ?_⟩
  intro piece hmem
  obtain ⟨i, -, rfl⟩ := List.mem_map.mp hmem
  rfl

theorem getElem?_places (h : i < n) : (places arrived n)[i]? = some (first arrived i) := by
  simp [places, h]

theorem places_append_of_mem (h : i ∈ numbers arrived) (piece : List α) :
    places (arrived ++ [(i, piece)]) n = places arrived n := by
  apply List.map_congr_left
  intro j _
  by_cases hji : j = i
  · subst hji
    exact first_append_of_mem h _
  · exact first_append_of_ne hji piece

theorem places_append_of_notMem (h : i ∉ numbers arrived) (piece : List α) :
    places (arrived ++ [(i, piece)]) n = (places arrived n).set i piece := by
  apply List.ext_getElem (by simp)
  intro j hj _
  rw [length_places] at hj
  rw [List.getElem_set]
  split
  · rename_i hij
    subst hij
    simp [places, first_append_of_notMem h]
  · rename_i hij
    simp [places, first_append_of_ne (Ne.symm hij)]

end UnknownTunnel.Foundation.Arrivals

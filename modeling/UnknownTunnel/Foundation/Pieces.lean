import Mathlib.Data.List.Basic
import Mathlib.Tactic.Ring

/-!
# Cutting a list into pieces and joining them again

A list is cut into pieces of a fixed size, of which only the last may be
shorter; the empty list is cut into one empty piece. A receiver keeps one
place per piece, and a place that holds the empty list counts as vacant.
-/

namespace UnknownTunnel.Foundation.Pieces

variable {α : Type*}

/-- The number of pieces of a list of length `n`. -/
def pieceCount (c n : Nat) : Nat :=
  if (n + c - 1) / c = 0 then 1 else (n + c - 1) / c

/-- The piece at position `i`. -/
def piece (c : Nat) (xs : List α) (i : Nat) : List α :=
  (xs.take (min (i * c + c) xs.length)).drop (i * c)

/-- The places that are not vacant. -/
def filled (places : List (List α)) : Nat := places.countP fun place => !place.isEmpty

/-- The places hold pieces of the list and nothing else. -/
structure Holds (c : Nat) (xs : List α) (places : List (List α)) : Prop where
  length : places.length = pieceCount c xs.length
  place : ∀ (i : Nat) (chunk : List α), places[i]? = some chunk → chunk = [] ∨ chunk = piece c xs i

theorem one_le_pieceCount (c n : Nat) : 1 ≤ pieceCount c n := by
  unfold pieceCount
  split
  · exact le_refl 1
  · rename_i hne
    exact Nat.one_le_iff_ne_zero.mpr hne

theorem pieceCount_le {c n k : Nat} (hc : 0 < c) (hk : 1 ≤ k) (h : n ≤ k * c) :
    pieceCount c n ≤ k := by
  unfold pieceCount
  split
  · exact hk
  · rw [Nat.div_le_iff_le_mul_add_pred hc]
    rw [Nat.mul_comm] at h
    omega

theorem le_pieceCount_mul {c : Nat} (hc : 0 < c) (n : Nat) : n ≤ pieceCount c n * c := by
  have hdiv : n ≤ (n + c - 1) / c * c := by
    have := Nat.div_add_mod (n + c - 1) c
    have := Nat.mod_lt (n + c - 1) hc
    rw [Nat.mul_comm]
    omega
  unfold pieceCount
  split
  · rename_i hzero
    rw [hzero] at hdiv
    omega
  · exact hdiv

theorem piece_eq (c : Nat) (xs : List α) (i : Nat) : piece c xs i = (xs.drop (i * c)).take c := by
  rw [piece, ← List.take_take, List.take_length, List.drop_take]
  congr 1
  omega

/-- The first pieces joined are a beginning of the list. -/
theorem flatten_pieces (c : Nat) (xs : List α) (n : Nat) :
    ((List.range n).map (piece c xs)).flatten = xs.take (n * c) := by
  induction n with
  | zero => simp
  | succ n ih =>
      rw [List.range_succ, List.map_append, List.flatten_append, ih, Nat.succ_mul, List.take_add]
      simp [piece_eq]

/-- A piece before the end of the list is not empty. -/
theorem piece_ne_nil {c : Nat} {xs : List α} {i : Nat} (hc : 0 < c) (hxs : xs ≠ [])
    (hi : i < pieceCount c xs.length) : piece c xs i ≠ [] := by
  have hpos : 0 < xs.length := List.length_pos_of_ne_nil hxs
  have hcount : (i + 1) * c ≤ xs.length + c - 1 := by
    have hle : i + 1 ≤ (xs.length + c - 1) / c := by
      unfold pieceCount at hi
      split at hi
      · rename_i hzero
        rw [Nat.div_eq_zero_iff] at hzero
        omega
      · exact hi
    exact (Nat.le_div_iff_mul_le hc).mp hle
  rw [piece_eq, ← List.length_pos_iff]
  rw [Nat.succ_mul] at hcount
  simp only [List.length_take, List.length_drop]
  omega

/-- The places of a list whose pieces are all there. -/
theorem Holds.flatten_of_filled {c : Nat} {xs : List α} {places : List (List α)} (hc : 0 < c)
    (h : Holds c xs places) (hfull : filled places = places.length) : places.flatten = xs := by
  have heq : places = (List.range places.length).map (piece c xs) := by
    apply List.ext_getElem (by simp)
    intro i hi hi'
    have hne : places[i] ≠ [] := by
      have := List.countP_eq_length.mp hfull _ (List.getElem_mem hi)
      simpa using this
    simpa [hne] using h.place i _ (List.getElem?_eq_getElem hi)
  rw [heq, flatten_pieces, h.length, List.take_of_length_le (le_pieceCount_mul hc xs.length)]

/-- Pieces of the empty list join to it, however many places are vacant. -/
theorem Holds.flatten_nil {c : Nat} {places : List (List α)} (h : Holds c [] places) :
    places.flatten = [] := by
  rw [List.flatten_eq_nil_iff]
  intro place hmem
  obtain ⟨i, hi⟩ := List.getElem?_of_mem hmem
  simpa [piece] using h.place i place hi

theorem Holds.set {c : Nat} {xs : List α} {places : List (List α)} (h : Holds c xs places)
    (i : Nat) : Holds c xs (places.set i (piece c xs i)) := by
  constructor
  · simpa using h.length
  · intro j chunk hj
    by_cases hij : i = j
    · subst hij
      rw [List.getElem?_set] at hj
      grind
    · rw [List.getElem?_set_ne hij] at hj
      exact h.place j chunk hj

theorem holds_replicate (c : Nat) (xs : List α) :
    Holds c xs (List.replicate (pieceCount c xs.length) []) := by
  constructor
  · simp
  · intro i chunk hi
    left
    exact List.eq_of_mem_replicate (List.mem_of_getElem? hi)

theorem filled_replicate (n : Nat) : filled (List.replicate n ([] : List α)) = 0 := by
  simp [filled, List.countP_replicate]

/-- A vacant place that receives a piece is filled. -/
theorem filled_set {places : List (List α)} {i : Nat} (hi : places[i]? = some [])
    {chunk : List α} (hchunk : chunk ≠ []) : filled (places.set i chunk) = filled places + 1 := by
  induction places generalizing i with
  | nil => simp at hi
  | cons place rest ih =>
      cases i with
      | zero =>
          obtain rfl : place = [] := by simpa using hi
          simp [filled, hchunk]
      | succ i =>
          have := ih (i := i) (by simpa using hi)
          simp only [filled, List.set_cons_succ, List.countP_cons] at this ⊢
          omega

theorem filled_le (places : List (List α)) : filled places ≤ places.length :=
  List.countP_le_length

end UnknownTunnel.Foundation.Pieces

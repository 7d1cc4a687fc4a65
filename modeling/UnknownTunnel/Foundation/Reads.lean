import Mathlib.Data.List.Basic

/-!
# Streams that arrive in pieces

A stream is handed over in pieces of any sizes, empty ones included. Reading a
fixed number of items takes as many pieces as it needs and leaves what it did
not use of the last one, so its result depends on the joined stream only.
-/

namespace UnknownTunnel.Foundation

variable {α : Type*}

/-- Read exactly `n` items; fails when the stream ends before. -/
def readFull : List (List α) → Nat → Option (List α × List (List α))
  | [], n => if n = 0 then some ([], []) else none
  | piece :: rest, n =>
      if n ≤ piece.length then some (piece.take n, piece.drop n :: rest)
      else (readFull rest (n - piece.length)).map fun out => (piece ++ out.1, out.2)

/-- A stream that begins with the wanted items is read up to their end. -/
theorem readFull_of_flatten {pieces : List (List α)} {front back : List α} {n : Nat}
    (h : pieces.flatten = front ++ back) (hn : front.length = n) :
    ∃ rest, readFull pieces n = some (front, rest) ∧ rest.flatten = back := by
  induction pieces generalizing front n with
  | nil =>
      obtain ⟨rfl, rfl⟩ := List.append_eq_nil_iff.mp h.symm
      subst hn
      exact ⟨[], rfl, rfl⟩
  | cons piece rest ih =>
      rw [List.flatten_cons] at h
      by_cases hle : n ≤ piece.length
      · have htake : piece.take n = front := by
          have := congrArg (List.take n) h
          rwa [List.take_append_of_le_length hle, List.take_left' hn] at this
        have hdrop : piece.drop n ++ rest.flatten = back := by
          have := congrArg (List.drop n) h
          rwa [List.drop_append_of_le_length hle, List.drop_left' hn] at this
        refine ⟨piece.drop n :: rest, ?_, by rw [List.flatten_cons, hdrop]⟩
        rw [readFull, if_pos hle, htake]
      · have hfront : front = piece ++ front.drop piece.length := by
          have := congrArg (List.take piece.length) h
          rw [List.take_left, List.take_append_of_le_length (by omega)] at this
          conv_lhs => rw [← List.take_append_drop piece.length front, ← this]
        have hrest : rest.flatten = front.drop piece.length ++ back := by
          have := congrArg (List.drop piece.length) h
          rwa [List.drop_left, List.drop_append_of_le_length (by omega)] at this
        obtain ⟨left, hread, hleft⟩ := ih hrest (n := n - piece.length) (by simp [hn])
        refine ⟨left, ?_, hleft⟩
        rw [readFull, if_neg hle, hread, Option.map_some, ← hfront]

/-- What is read is the beginning of the joined stream. -/
theorem flatten_of_readFull {pieces rest : List (List α)} {front : List α} {n : Nat}
    (h : readFull pieces n = some (front, rest)) :
    pieces.flatten = front ++ rest.flatten ∧ front.length = n := by
  induction pieces generalizing front n with
  | nil =>
      rw [readFull] at h
      split at h
      · rename_i hn
        cases h
        exact ⟨rfl, hn.symm⟩
      · cases h
  | cons piece pieces ih =>
      rw [readFull] at h
      split at h
      · rename_i hle
        cases h
        rw [List.flatten_cons, List.flatten_cons, ← List.append_assoc, List.take_append_drop]
        exact ⟨rfl, List.length_take_of_le hle⟩
      · rw [Option.map_eq_some_iff] at h
        obtain ⟨⟨front', rest'⟩, hread, hout⟩ := h
        cases hout
        obtain ⟨hflatten, hlen⟩ := ih hread
        refine ⟨by rw [List.flatten_cons, hflatten, List.append_assoc], ?_⟩
        rw [List.length_append, hlen]
        omega

end UnknownTunnel.Foundation

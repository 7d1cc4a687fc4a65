import Mathlib.Data.List.Chain

/-!
# Spaced times

The times at which one thing was tried, newest first. Each is at least `low`
and less than `high` after the one before it, so their number bounds how far
the newest one is from the oldest one, in both directions. Times that are only
kept apart bound how many of them fall in an interval.
-/

namespace UnknownTunnel.Foundation

/-- Neighbours are between `low` and `high` apart. -/
def Spaced (low high : Nat) (times : List Nat) : Prop :=
  times.IsChain fun newer older => older + low ≤ newer ∧ newer < older + high

namespace Spaced

variable {low high first newer older : Nat} {times : List Nat}

theorem single (low high time : Nat) : Spaced low high [time] := List.isChain_singleton time

theorem cons (h : Spaced low high (older :: times)) (hlow : older + low ≤ newer)
    (hhigh : newer < older + high) : Spaced low high (newer :: older :: times) :=
  List.isChain_cons_cons.mpr ⟨⟨hlow, hhigh⟩, h⟩

/-- The newest time against the oldest one. -/
theorem first_newest (h : Spaced low high (newer :: times))
    (hfirst : (newer :: times).getLast? = some first) :
    first + times.length * low ≤ newer ∧ newer ≤ first + times.length * high := by
  induction times generalizing newer with
  | nil =>
      obtain rfl := Option.some.inj hfirst
      simp
  | cons older times ih =>
      obtain ⟨⟨hlow, hhigh⟩, hrest⟩ := List.isChain_cons_cons.mp h
      rw [List.getLast?_cons_cons] at hfirst
      obtain ⟨hle, hge⟩ := ih hrest hfirst
      rw [List.length_cons, Nat.succ_mul, Nat.succ_mul]
      omega

/-- The oldest time against a newer one. -/
theorem first_add_le (h : Spaced low high times) (hfirst : times.getLast? = some first)
    (hmem : newer ∈ times.dropLast) : first + low ≤ newer := by
  induction times with
  | nil => cases hmem
  | cons time times ih =>
      cases times with
      | nil => cases hmem
      | cons older times =>
          have hrest : Spaced low high (older :: times) := (List.isChain_cons_cons.mp h).2
          rw [List.getLast?_cons_cons] at hfirst
          rw [List.dropLast_cons_cons] at hmem
          obtain rfl | hmem := List.mem_cons.mp hmem
          · have hchain := (h.first_newest (by rwa [List.getLast?_cons_cons])).1
            rw [List.length_cons, Nat.succ_mul] at hchain
            omega
          · exact ih hrest hfirst hmem

end Spaced

/-- Neighbours are at least `gap` apart. -/
def Apart (gap : Nat) (times : List Nat) : Prop :=
  times.IsChain fun newer older => older + gap ≤ newer

namespace Apart

variable {gap newer : Nat} {times : List Nat}

theorem add_le (h : Apart gap (newer :: times)) {older : Nat} (hmem : older ∈ times) :
    older + gap ≤ newer := by
  induction times generalizing newer with
  | nil => cases hmem
  | cons next times ih =>
      obtain ⟨hnext, hrest⟩ := List.isChain_cons_cons.mp h
      obtain rfl | hmem := List.mem_cons.mp hmem
      · exact hnext
      · have hlater := ih hrest hmem
        omega

/-- At most `n` of the times fall in an interval of `n` gaps. -/
theorem countP_le (h : Apart gap times) (start n : Nat) :
    times.countP (fun t => decide (start ≤ t ∧ t < start + n * gap)) ≤ n := by
  induction times generalizing n with
  | nil => exact Nat.zero_le n
  | cons newer times ih =>
      have hrest : Apart gap times := (List.isChain_cons.mp h).2
      by_cases hin : start ≤ newer ∧ newer < start + n * gap
      · cases n with
        | zero => omega
        | succ n =>
            -- The older times end one gap earlier.
            have hearlier : times.countP (fun t => decide (start ≤ t ∧ t < start + (n + 1) * gap)) ≤
                times.countP (fun t => decide (start ≤ t ∧ t < start + n * gap)) := by
              apply List.countP_mono_left
              intro t ht hlate
              have hgap := h.add_le ht
              rw [Nat.succ_mul] at hin
              simp only [decide_eq_true_eq] at hlate ⊢
              omega
            rw [List.countP_cons_of_pos (by simpa using hin)]
            exact Nat.succ_le_succ (hearlier.trans (ih hrest n))
      · rw [List.countP_cons_of_neg (by simpa using hin)]
        exact ih hrest n

end Apart

end UnknownTunnel.Foundation

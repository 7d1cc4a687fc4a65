import UnknownTunnel.Foundation.Text

/-!
# Trimmed texts

`strings.TrimSpace` takes white space from both ends until there is none. What
it returns is trimmed, and a trimmed text is read back from a line that holds
nothing else.
-/

namespace UnknownTunnel.Foundation.Text

/-- No white space stands at either end. -/
structure Trimmed (s : Bytes) : Prop where
  left : ∀ space ∈ spaces, ¬ space <+: s
  right : ∀ space ∈ spaces, ¬ space <:+ s

theorem ne_nil_of_mem_spaces {space : Bytes} (h : space ∈ spaces) : space ≠ [] := by
  rintro rfl
  exact absurd h (by decide)

/-! ## Trimming ends where no white space is left -/

theorem not_prefix_trimLeft {fuel : Nat} {s : Bytes} (hfuel : s.length ≤ fuel) :
    ∀ space ∈ spaces, ¬ space <+: trimLeft fuel s := by
  induction fuel generalizing s with
  | zero =>
      intro space hspace hbeginning
      have hs : s = [] := List.eq_nil_of_length_eq_zero (Nat.le_zero.mp hfuel)
      rw [trimLeft, hs, List.prefix_nil] at hbeginning
      exact ne_nil_of_mem_spaces hspace hbeginning
  | succ fuel ih =>
      rw [trimLeft]
      split
      case h_1 space hfind =>
        have hpos : 0 < space.length :=
          List.length_pos_iff.mpr (ne_nil_of_mem_spaces (List.mem_of_find?_eq_some hfind))
        apply ih
        rw [List.length_drop]
        omega
      case h_2 hfind =>
        intro space hspace hbeginning
        exact List.find?_eq_none.mp hfind space hspace (List.isPrefixOf_iff_prefix.mpr hbeginning)

theorem not_suffix_trimRight {fuel : Nat} {s : Bytes} (hfuel : s.length ≤ fuel) :
    ∀ space ∈ spaces, ¬ space <:+ trimRight fuel s := by
  induction fuel generalizing s with
  | zero =>
      intro space hspace hsuffix
      have hs : s = [] := List.eq_nil_of_length_eq_zero (Nat.le_zero.mp hfuel)
      rw [trimRight, hs, List.suffix_nil] at hsuffix
      exact ne_nil_of_mem_spaces hspace hsuffix
  | succ fuel ih =>
      rw [trimRight]
      split
      case h_1 space hfind =>
        have hpos : 0 < space.length :=
          List.length_pos_iff.mpr (ne_nil_of_mem_spaces (List.mem_of_find?_eq_some hfind))
        apply ih
        rw [List.length_take]
        omega
      case h_2 hfind =>
        intro space hspace hsuffix
        exact List.find?_eq_none.mp hfind space hspace (List.isSuffixOf_iff_suffix.mpr hsuffix)

theorem trimRight_beginning (fuel : Nat) (s : Bytes) : trimRight fuel s <+: s := by
  induction fuel generalizing s with
  | zero => exact List.prefix_rfl
  | succ fuel ih =>
      rw [trimRight]
      split
      · exact (ih _).trans (List.take_prefix _ _)
      · exact List.prefix_rfl

theorem trimmed_trimSpace (s : Bytes) : Trimmed (trimSpace s) := by
  constructor
  · intro space hspace hbeginning
    exact not_prefix_trimLeft (Nat.le_refl s.length) space hspace
      (hbeginning.trans (trimRight_beginning _ _))
  · exact not_suffix_trimRight (Nat.le_refl _)

/-! ## A line -/

theorem trimLeft_eq_self {s : Bytes} (h : ∀ space ∈ spaces, ¬ space <+: s) (fuel : Nat) :
    trimLeft fuel s = s := by
  cases fuel with
  | zero => rfl
  | succ fuel =>
      have hnone : (spaces.find? fun space => space.isPrefixOf s) = none := by
        rw [List.find?_eq_none]
        intro space hspace hbeginning
        exact h space hspace (List.isPrefixOf_iff_prefix.mp hbeginning)
      rw [trimLeft, hnone]

theorem trimRight_eq_self {s : Bytes} (h : ∀ space ∈ spaces, ¬ space <:+ s) (fuel : Nat) :
    trimRight fuel s = s := by
  cases fuel with
  | zero => rfl
  | succ fuel =>
      have hnone : (spaces.find? fun space => space.isSuffixOf s) = none := by
        rw [List.find?_eq_none]
        intro space hspace hsuffix
        exact h space hspace (List.isSuffixOf_iff_suffix.mp hsuffix)
      rw [trimRight, hnone]

/-- White space that a line begins with is in front of its end, unless the line
is empty. -/
theorem Trimmed.not_prefix_line {s : Bytes} (h : Trimmed s) (hne : s ≠ []) :
    ∀ space ∈ spaces, ¬ space <+: s ++ [10] := by
  intro space hspace hbeginning
  rcases List.prefix_concat_iff.mp hbeginning with heq | hshort
  · have honly : ∀ space ∈ spaces, 10 ∈ space → space = [10] := by decide
    have hten : space = [10] := honly space hspace (by simp [heq])
    rw [hten] at heq
    exact hne (List.append_cancel_right heq).symm
  · exact h.left space hspace hshort

theorem find?_suffix_line (s : Bytes) :
    (spaces.find? fun space => space.isSuffixOf (s ++ [10])) = some [10] := by
  have htab : ([9] : Bytes).isSuffixOf (s ++ [10]) = false := by
    rw [Bool.eq_false_iff]
    intro hsuffix
    obtain ⟨front, hfront⟩ := List.isSuffixOf_iff_suffix.mp hsuffix
    exact absurd (List.append_inj_right' hfront rfl) (by decide)
  have hline : ([10] : Bytes).isSuffixOf (s ++ [10]) = true :=
    List.isSuffixOf_iff_suffix.mpr (List.suffix_append s [10])
  rw [spaces, List.find?_cons, htab, List.find?_cons, hline]

/-- A trimmed text is read back from a line. -/
theorem Trimmed.trimSpace_line {s : Bytes} (h : Trimmed s) : trimSpace (s ++ [10]) = s := by
  by_cases hne : s = []
  · subst hne
    decide
  · have hleft : trimLeft (s ++ [10]).length (s ++ [10]) = s ++ [10] :=
      trimLeft_eq_self (h.not_prefix_line hne) _
    have hlength : (s ++ [10]).length = s.length + 1 := List.length_append
    calc trimSpace (s ++ [10])
        = trimRight (s ++ [10]).length (s ++ [10]) := by simp only [trimSpace, hleft]
      _ = trimRight (s.length + 1) (s ++ [10]) := by rw [hlength]
      _ = trimRight s.length s := by
          rw [trimRight, find?_suffix_line]
          simp
      _ = s := trimRight_eq_self h.right _

end UnknownTunnel.Foundation.Text

import UnknownTunnel.Foundation.TextRoundTrip

/-!
# Cleaned paths

`Clean` keeps the elements of a path on a stack, and writes them out again. An
element that stands for itself stays the last one, so that the directory of a
joined path is the directory it was joined with.
-/

namespace UnknownTunnel.Foundation.Text

/-- `filepath.Dir`. -/
def dir (path : Bytes) : Bytes :=
  match lastIndexByte 47 path with
  | none => clean []
  | some i => clean (path.take (i + 1))

/-- A name that stands for itself in a path. -/
structure Element (e : Bytes) : Prop where
  noSlash : 47 ∉ e
  nonempty : e ≠ []
  notDot : e ≠ [46]
  notDots : e ≠ [46, 46]

/-- A path whose last element is the given one. -/
def Ends (e path : Bytes) : Prop := path = e ∨ ∃ front, path = front ++ 47 :: e

/-! ## The stack of elements -/

def elements (path : Bytes) : List Bytes :=
  (path.splitOn 47).foldl (pushElement (path.head? = some 47)) []

/-- The path with the elements of a stack. -/
def render (rooted : Bool) (stack : List Bytes) : Bytes :=
  let body := List.intercalate [47] stack.reverse
  if rooted then 47 :: body else if body = [] then [46] else body

/-- Each element was pushed on those below it. -/
inductive Stack (rooted : Bool) : List Bytes → Prop
  | nil : Stack rooted []
  | cons {e : Bytes} {rest : List Bytes} (below : Stack rooted rest) (noSlash : 47 ∉ e)
      (nonempty : e ≠ []) (pushed : pushElement rooted rest e = e :: rest) :
      Stack rooted (e :: rest)

theorem clean_eq (path : Bytes) :
    clean path = render (path.head? = some 47) (elements path) := rfl

theorem notMem_of_mem_splitOn {a : UInt8} {s part : Bytes} (h : part ∈ s.splitOn a) :
    a ∉ part := by
  induction s generalizing part with
  | nil =>
      rw [List.splitOn_nil, List.mem_singleton] at h
      rw [h]
      exact List.not_mem_nil
  | cons b rest ih =>
      rw [List.splitOn_cons_eq_if_modifyHead] at h
      split at h
      · rcases List.mem_cons.mp h with rfl | h
        · exact List.not_mem_nil
        · exact ih h
      · rename_i hb
        cases hparts : rest.splitOn a with
        | nil => exact absurd hparts (List.splitOn_ne_nil a rest)
        | cons first parts =>
            rw [hparts, List.modifyHead_cons] at h
            rcases List.mem_cons.mp h with rfl | h
            · have hfirst : a ∉ first := ih (by rw [hparts]; exact List.mem_cons_self)
              simp only [List.mem_cons, not_or]
              exact ⟨fun hab => hb (by rw [hab]; exact beq_self_eq_true _), hfirst⟩
            · exact ih (by rw [hparts]; exact List.mem_cons_of_mem _ h)

/-- Pushing keeps a stack. -/
theorem Stack.push {rooted : Bool} {stack : List Bytes} (h : Stack rooted stack) {e : Bytes}
    (he : 47 ∉ e) : Stack rooted (pushElement rooted stack e) := by
  unfold pushElement
  split
  · exact h
  rename_i hskip
  have hnonempty : e ≠ [] := fun hnil => hskip (Or.inl hnil)
  split
  · rename_i hdots
    -- the element takes the last one off, unless there is none or it is such an element too
    subst hdots
    cases h with
    | nil =>
        cases rooted with
        | true => exact .nil
        | false => exact .cons .nil he hnonempty rfl
    | @cons last rest below noSlash nonempty pushed =>
        simp only
        split
        · rename_i hlast
          subst hlast
          exact .cons (.cons below noSlash nonempty pushed) he hnonempty rfl
        · exact below
  · rename_i hdots
    refine .cons h he hnonempty ?_
    unfold pushElement
    rw [if_neg hskip, if_neg hdots]

theorem Stack.foldl {rooted : Bool} {parts stack : List Bytes} (h : Stack rooted stack)
    (hparts : ∀ part ∈ parts, 47 ∉ part) :
    Stack rooted (parts.foldl (pushElement rooted) stack) := by
  induction parts generalizing stack with
  | nil => exact h
  | cons part rest ih =>
      exact ih (h.push (hparts part List.mem_cons_self)) fun p hp =>
        hparts p (List.mem_cons_of_mem _ hp)

theorem stack_elements (path : Bytes) : Stack (path.head? = some 47) (elements path) :=
  Stack.nil.foldl fun _ hpart => notMem_of_mem_splitOn hpart

/-- A stack is read back from its elements. -/
theorem Stack.foldl_reverse {rooted : Bool} {stack : List Bytes} (h : Stack rooted stack) :
    stack.reverse.foldl (pushElement rooted) [] = stack := by
  induction h with
  | nil => rfl
  | @cons e rest below noSlash nonempty pushed ih =>
      rw [List.reverse_cons, List.foldl_append, ih]
      exact pushed

theorem Stack.mem {rooted : Bool} {stack : List Bytes} (h : Stack rooted stack) {e : Bytes}
    (he : e ∈ stack) : 47 ∉ e ∧ e ≠ [] := by
  induction h with
  | nil => exact absurd he List.not_mem_nil
  | @cons last rest below noSlash nonempty pushed ih =>
      rcases List.mem_cons.mp he with rfl | he
      · exact ⟨noSlash, nonempty⟩
      · exact ih he

/-! ## Writing a stack out -/

theorem intercalate_append {parts : List Bytes} (hne : parts ≠ []) (e : Bytes) :
    List.intercalate [47] (parts ++ [e]) = List.intercalate [47] parts ++ 47 :: e := by
  induction parts with
  | nil => exact absurd rfl hne
  | cons part rest ih =>
      cases rest with
      | nil => simp
      | cons next rest =>
          rw [List.cons_append, List.cons_append, List.intercalate_cons_cons,
            List.intercalate_cons_cons, ← List.cons_append, ih (List.cons_ne_nil _ _)]
          simp only [List.append_assoc]

theorem render_cons {rooted : Bool} {stack : List Bytes} (h : Stack rooted stack)
    (hne : stack ≠ []) (e : Bytes) :
    render rooted (e :: stack) = render rooted stack ++ 47 :: e := by
  have hreverse : stack.reverse ≠ [] := List.reverse_ne_nil_iff.mpr hne
  have hbody : List.intercalate [47] stack.reverse ≠ [] :=
    intercalate_ne_nil hreverse fun hnil => (h.mem (List.mem_reverse.mp hnil)).2 rfl
  cases rooted with
  | true => simp only [render, List.reverse_cons, intercalate_append hreverse, if_true,
      List.cons_append]
  | false =>
      rw [render, render, List.reverse_cons, intercalate_append hreverse, if_neg Bool.false_ne_true,
        if_neg Bool.false_ne_true, if_neg hbody,
        if_neg (List.append_ne_nil_of_right_ne_nil _ (List.cons_ne_nil _ _))]

theorem render_singleton (rooted : Bool) {e : Bytes} (he : e ≠ []) :
    render rooted [e] = if rooted then 47 :: e else e := by
  simp [render, List.intercalate, he]

/-- A stack is read back from the path that was written. -/
theorem elements_render {rooted : Bool} {stack : List Bytes} (h : Stack rooted stack)
    (hne : stack ≠ []) :
    ((render rooted stack ++ [47]).head? = some 47 ↔ rooted = true) ∧
      elements (render rooted stack ++ [47]) = stack := by
  have hreverse : stack.reverse ≠ [] := List.reverse_ne_nil_iff.mpr hne
  have hbody : List.intercalate [47] stack.reverse ≠ [] :=
    intercalate_ne_nil hreverse fun hnil => (h.mem (List.mem_reverse.mp hnil)).2 rfl
  have hsplit : (List.intercalate [47] stack.reverse).splitOn 47 = stack.reverse :=
    List.splitOn_intercalate 47 (fun e he => (h.mem (List.mem_reverse.mp he)).1) hreverse
  have hend : pushElement rooted stack [] = stack := by
    unfold pushElement
    rw [if_pos (Or.inl rfl)]
  cases rooted with
  | true =>
      have hrender : render true stack ++ [47] =
          [] ++ 47 :: (List.intercalate [47] stack.reverse ++ 47 :: []) := rfl
      refine ⟨iff_of_true rfl rfl, ?_⟩
      rw [elements, hrender, List.splitOn_append_cons_self, List.splitOn_append_cons_self, hsplit]
      simp only [List.splitOn_nil, List.foldl_append]
      calc pushElement true (stack.reverse.foldl (pushElement true) []) []
          = pushElement true stack [] := by rw [h.foldl_reverse]
        _ = stack := hend
  | false =>
      have hrender : render false stack ++ [47] =
          List.intercalate [47] stack.reverse ++ 47 :: [] := by
        rw [render, if_neg Bool.false_ne_true, if_neg hbody]
      -- the first element of the path does not begin with a slash
      have hhead : (render false stack ++ [47]).head? ≠ some 47 := by
        obtain ⟨e, rest, hparts⟩ := List.exists_cons_of_ne_nil hreverse
        obtain ⟨hslash, hnonempty⟩ :=
          h.mem (List.mem_reverse.mp (by rw [hparts]; exact List.mem_cons_self))
        obtain ⟨b, tail, rfl⟩ := List.exists_cons_of_ne_nil hnonempty
        have hb : b ≠ 47 := fun hb => hslash (hb ▸ List.mem_cons_self)
        rw [hrender, hparts]
        cases rest with
        | nil => simpa using hb
        | cons next rest => simpa [List.intercalate_cons_cons] using hb
      refine ⟨iff_of_false hhead Bool.false_ne_true, ?_⟩
      rw [elements, decide_eq_false hhead, hrender, List.splitOn_append_cons_self, hsplit,
        List.splitOn_nil, List.foldl_append, h.foldl_reverse]
      exact hend

/-- A cleaned path with a slash behind it is cleaned to itself. -/
theorem clean_render {rooted : Bool} {stack : List Bytes} (h : Stack rooted stack)
    (hne : stack ≠ []) : clean (render rooted stack ++ [47]) = render rooted stack := by
  obtain ⟨hrooted, helements⟩ := elements_render h hne
  rw [clean_eq, helements]
  congr 1
  exact Bool.eq_iff_iff.mpr (by rw [decide_eq_true_iff]; exact hrooted)

/-! ## The last element -/

variable {e : Bytes}

theorem Element.push (he : Element e) (rooted : Bool) (stack : List Bytes) :
    pushElement rooted stack e = e :: stack := by
  unfold pushElement
  rw [if_neg (not_or.mpr ⟨he.nonempty, he.notDot⟩), if_neg he.notDots]

theorem Element.head?_ne (he : Element e) : e.head? ≠ some 47 := fun h =>
  he.noSlash (List.mem_of_mem_head? h)

theorem Element.elements_append (he : Element e) {front : Bytes} (hfront : front ≠ []) :
    ((front ++ 47 :: e).head? = some 47 ↔ front.head? = some 47) ∧
      elements (front ++ 47 :: e) = e :: elements front := by
  have hhead : (front ++ 47 :: e).head? = front.head? := by
    obtain ⟨b, rest, rfl⟩ := List.exists_cons_of_ne_nil hfront
    rfl
  refine ⟨by rw [hhead], ?_⟩
  rw [elements, hhead, List.splitOn_append_cons_self, List.splitOn_eq_singleton he.noSlash,
    List.foldl_append]
  exact he.push _ _

theorem Element.clean_self (he : Element e) : clean e = e := by
  rw [clean_eq, elements, List.splitOn_eq_singleton he.noSlash, decide_eq_false he.head?_ne]
  calc render false (pushElement false [] e)
      = render false [e] := by rw [he.push]
    _ = e := by rw [render_singleton false he.nonempty, if_neg Bool.false_ne_true]

theorem dir_append (he : 47 ∉ e) (front : Bytes) :
    dir (front ++ 47 :: e) = clean (front ++ [47]) := by
  have htake : (front ++ 47 :: e).take (front.length + 1) = front ++ [47] := by
    rw [List.append_cons, List.take_left']
    simp
  rw [dir, lastIndexByte_append he]
  exact congrArg clean htake

theorem Element.dir_self (he : Element e) : dir e = clean [] := by
  have hnone : lastIndexByte 47 e = none := by
    cases h : lastIndexByte 47 e with
    | none => rfl
    | some i =>
        obtain ⟨front, rest, rfl, -⟩ := lastIndexByte_eq_some h
        exact absurd (List.mem_append_right _ List.mem_cons_self) he.noSlash
  rw [dir, hnone]

/-- The directory of a joined path is the one it was joined with. -/
theorem Element.dir_join (he : Element e) (front : Bytes) : dir (join front e) = clean front := by
  by_cases hfront : front = []
  · rw [join, if_pos hfront, if_neg he.nonempty, he.clean_self, he.dir_self, hfront]
  have happend : front ++ [47] ++ e = front ++ 47 :: e := by simp
  obtain ⟨hhead, helements⟩ := he.elements_append hfront
  have hstack := stack_elements front
  rw [join, if_neg hfront, if_neg he.nonempty, happend, clean_eq, clean_eq, helements,
    decide_eq_decide.mpr hhead]
  by_cases hne : elements front = []
  · rw [hne, render_singleton _ he.nonempty]
    split
    · rename_i hrooted
      rw [hrooted]
      exact dir_append he.noSlash []
    · rename_i hrooted
      rw [Bool.not_eq_true] at hrooted
      rw [hrooted, he.dir_self]
      rfl
  · rw [render_cons hstack hne, dir_append he.noSlash, clean_render hstack hne]

theorem Element.ends_clean (he : Element e) {path : Bytes} (h : Ends e path) :
    Ends e (clean path) := by
  have hrender : ∀ (rooted : Bool) (stack : List Bytes), Stack rooted stack →
      Ends e (render rooted (e :: stack)) := by
    intro rooted stack hstack
    by_cases hne : stack = []
    · rw [hne, render_singleton _ he.nonempty]
      cases rooted with
      | true => exact Or.inr ⟨[], rfl⟩
      | false => exact Or.inl rfl
    · rw [render_cons hstack hne]
      exact Or.inr ⟨_, rfl⟩
  rcases h with rfl | ⟨front, rfl⟩
  · rw [he.clean_self]
    exact Or.inl rfl
  by_cases hfront : front = []
  · subst hfront
    have helements : elements (47 :: e) = [e] := by
      have hsplit : ((47 : UInt8) :: e).splitOn 47 = [[], e] := by
        rw [← List.nil_append (47 :: e), List.splitOn_append_cons_self, List.splitOn_nil,
          List.splitOn_eq_singleton he.noSlash]
        rfl
      rw [elements, hsplit]
      exact he.push _ _
    rw [List.nil_append, clean_eq, helements]
    exact hrender _ _ .nil
  · obtain ⟨hhead, helements⟩ := he.elements_append hfront
    rw [clean_eq, helements, decide_eq_decide.mpr hhead]
    exact hrender _ _ (stack_elements front)

theorem Ends.append {path : Bytes} (h : Ends e path) (front : Bytes) :
    Ends e (front ++ [47] ++ path) := by
  rcases h with rfl | ⟨middle, rfl⟩
  · exact Or.inr ⟨front, by simp⟩
  · exact Or.inr ⟨front ++ [47] ++ middle, by simp⟩

theorem Element.ends_join (he : Element e) (front : Bytes) : Ends e (join front e) := by
  by_cases hfront : front = []
  · rw [join, if_pos hfront, if_neg he.nonempty]
    exact he.ends_clean (Or.inl rfl)
  · rw [join, if_neg hfront, if_neg he.nonempty]
    exact he.ends_clean (Ends.append (Or.inl rfl) front)

theorem Ends.getLastD_splitOn (he : 47 ∉ e) {path : Bytes} (h : Ends e path) :
    (path.splitOn 47).getLastD [] = e := by
  rcases h with rfl | ⟨front, rfl⟩
  · rw [List.splitOn_eq_singleton he]
    rfl
  · rw [List.splitOn_append_cons_self, List.splitOn_eq_singleton he, List.getLastD_concat]

end UnknownTunnel.Foundation.Text

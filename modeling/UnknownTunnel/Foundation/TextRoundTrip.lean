import UnknownTunnel.Foundation.Text

/-!
# Texts that are read back

Decimal numbers, lists with commas between their elements and addresses of host
and port are written as texts. Reading such a text gives back what was written,
under the conditions on the parts that reading itself ensures.
-/

namespace UnknownTunnel.Foundation.Text

/-- A function that fixes the elements of a list fixes the list. -/
theorem map_eq_self {α : Type} {f : α → α} {l : List α} (h : ∀ a ∈ l, f a = a) : l.map f = l := by
  calc l.map f
      = l.map id := List.map_congr_left h
    _ = l := List.map_id l

/-! ## Decimal numbers -/

theorem toNat_of_isDigit {c : Char} (h : c.isDigit = true) :
    (UInt8.ofNat c.toNat).toNat = c.toNat ∧ 48 ≤ c.toNat ∧ c.toNat ≤ 57 := by
  simp only [Char.isDigit, Bool.and_eq_true, decide_eq_true_eq] at h
  have hlow : 48 ≤ c.toNat := h.1
  have hhigh : c.toNat ≤ 57 := h.2
  refine ⟨?_, hlow, hhigh⟩
  rw [UInt8.toNat_ofNat']
  exact Nat.mod_eq_of_lt (by omega)

/-- The bytes of digits. -/
def digitBytes (cs : List Char) : Bytes := cs.map fun c => UInt8.ofNat c.toNat

theorem foldl_digitBytes {cs : List Char} (h : ∀ c ∈ cs, c.isDigit = true) (acc : Nat) :
    (digitBytes cs).foldl (fun acc b => acc * 10 + (b.toNat - 48)) acc =
      Nat.ofDigitChars 10 cs acc := by
  induction cs generalizing acc with
  | nil => rfl
  | cons c rest ih =>
      have hbyte := (toNat_of_isDigit (h c List.mem_cons_self)).1
      rw [Nat.ofDigitChars_cons, ← ih fun c hc => h c (List.mem_cons_of_mem _ hc)]
      simp only [digitBytes, List.map_cons, List.foldl_cons, hbyte, Nat.mul_comm]
      rfl

/-- The bytes of a number in decimal digits. -/
def decimal (n : Nat) : Bytes := digitBytes (Nat.toDigits 10 n)

theorem isDigit_of_mem {n : Nat} {c : Char} (h : c ∈ Nat.toDigits 10 n) : c.isDigit = true :=
  Nat.isDigit_of_mem_toDigits (by decide) (by decide) h

theorem decimal_ne_nil (n : Nat) : decimal n ≠ [] := by
  rw [decimal, digitBytes, Nat.toDigits_eq_if (by decide)]
  split <;> simp

theorem digit_of_mem_decimal {n : Nat} {b : UInt8} (h : b ∈ decimal n) : 48 ≤ b ∧ b ≤ 57 := by
  obtain ⟨c, hc, rfl⟩ := List.mem_map.mp h
  obtain ⟨hbyte, hlow, hhigh⟩ := toNat_of_isDigit (isDigit_of_mem hc)
  rw [UInt8.le_iff_toNat_le, UInt8.le_iff_toNat_le, hbyte]
  exact ⟨hlow, hhigh⟩

theorem digits_decimal (n : Nat) : digits (decimal n) = some n := by
  have hdigits : ¬ (decimal n = [] ∨ (decimal n).any (fun b => b < 48 ∨ 57 < b) = true) := by
    rintro (hnil | hany)
    · exact decimal_ne_nil n hnil
    · obtain ⟨b, hb, hout⟩ := List.any_eq_true.mp hany
      obtain ⟨hlow, hhigh⟩ := digit_of_mem_decimal hb
      rcases of_decide_eq_true hout with hlt | hgt
      · exact absurd hlow (UInt8.not_le.mpr hlt)
      · exact absurd hhigh (UInt8.not_le.mpr hgt)
  rw [digits, if_neg hdigits, decimal, foldl_digitBytes (fun c hc => isDigit_of_mem hc),
    Nat.ofDigitChars_toDigits (by decide) (by decide)]

/-- A number is read back from what is written. -/
theorem atoi_itoa {n : Nat} (h : n < 2 ^ 63) : atoi (itoa n) = some (n : Int) := by
  have hitoa : itoa n = decimal n := rfl
  -- No sign stands before the digits.
  have hvalue : atoi (decimal n) =
      ((digits (decimal n)).map Int.ofNat).filter fun n => -2 ^ 63 ≤ n ∧ n < 2 ^ 63 := by
    unfold atoi
    split
    · rename_i rest hs
      have hsign := digit_of_mem_decimal (n := n) (b := 43) (by rw [hs]; exact List.mem_cons_self)
      exact absurd hsign.1 (by decide)
    · rename_i rest hs
      have hsign := digit_of_mem_decimal (n := n) (b := 45) (by rw [hs]; exact List.mem_cons_self)
      exact absurd hsign.1 (by decide)
    · rfl
  rw [hitoa, hvalue, digits_decimal, Option.map_some, Option.filter_some, if_pos]
  · rfl
  · simp only [decide_eq_true_eq]
    constructor
    · exact le_trans (by decide) (Int.natCast_nonneg n)
    · show (n : Int) < 2 ^ 63
      exact_mod_cast h

/-! ## White space -/

/-- A printing byte of ASCII. -/
def isGraphic (b : UInt8) : Bool := 33 ≤ b && b ≤ 126

theorem not_subset_of_mem_spaces {space s : Bytes} (hspace : space ∈ spaces)
    (hs : ∀ b ∈ s, isGraphic b = true) : ¬ space ⊆ s := by
  have hbyte : ∀ space ∈ spaces, ∃ b ∈ space, isGraphic b = false := by decide
  obtain ⟨b, hb, hgraphic⟩ := hbyte space hspace
  intro hsub
  rw [hs b (hsub hb)] at hgraphic
  cases hgraphic

/-- Nothing is trimmed from printing bytes. -/
theorem trimSpace_of_graphic {s : Bytes} (hs : ∀ b ∈ s, isGraphic b = true) :
    trimSpace s = s := by
  have hleft : ∀ fuel, trimLeft fuel s = s := by
    intro fuel
    cases fuel with
    | zero => rfl
    | succ fuel =>
        have hnone : (spaces.find? fun space => space.isPrefixOf s) = none := by
          rw [List.find?_eq_none]
          intro space hspace hprefix
          exact not_subset_of_mem_spaces hspace hs (List.isPrefixOf_iff_prefix.mp hprefix).subset
        rw [trimLeft, hnone]
  have hright : ∀ fuel, trimRight fuel s = s := by
    intro fuel
    cases fuel with
    | zero => rfl
    | succ fuel =>
        have hnone : (spaces.find? fun space => space.isSuffixOf s) = none := by
          rw [List.find?_eq_none]
          intro space hspace hsuffix
          exact not_subset_of_mem_spaces hspace hs (List.isSuffixOf_iff_suffix.mp hsuffix).subset
        rw [trimRight, hnone]
  rw [trimSpace, hleft, hright]

/-! ## Lists with commas -/

theorem graphic_intercalate {parts : List Bytes}
    (h : ∀ part ∈ parts, ∀ b ∈ part, isGraphic b = true) :
    ∀ b ∈ List.intercalate [44] parts, isGraphic b = true := by
  induction parts with
  | nil => nofun
  | cons part rest ih =>
      have hpart := h part List.mem_cons_self
      have hrest := ih fun other hother => h other (List.mem_cons_of_mem _ hother)
      cases rest with
      | nil => simpa using hpart
      | cons next rest =>
          intro b hb
          rw [List.intercalate_cons_cons, List.mem_append, List.mem_append] at hb
          rcases hb with (hb | hb) | hb
          · exact hpart b hb
          · rw [List.mem_singleton.mp hb]
            rfl
          · exact hrest b hb

theorem intercalate_ne_nil {sep : Bytes} {parts : List Bytes} (hne : parts ≠ [])
    (h : [] ∉ parts) : List.intercalate sep parts ≠ [] := by
  cases parts with
  | nil => exact absurd rfl hne
  | cons part rest =>
      have hpart : part ≠ [] := fun hnil => h (hnil ▸ List.mem_cons_self)
      cases rest with
      | nil => simpa using hpart
      | cons next rest =>
          rw [List.intercalate_cons_cons]
          exact List.append_ne_nil_of_left_ne_nil (List.append_ne_nil_of_left_ne_nil hpart _) _

/-- The elements of a list are read back from their text. -/
theorem splitCommas_intercalate {parts : List Bytes} (hne : parts ≠ []) (hnil : [] ∉ parts)
    (hgraphic : ∀ part ∈ parts, ∀ b ∈ part, isGraphic b = true)
    (hcomma : ∀ part ∈ parts, 44 ∉ part) :
    splitCommas (List.intercalate [44] parts) = parts := by
  have htrim : parts.map trimSpace = parts :=
    map_eq_self fun part hpart => trimSpace_of_graphic (hgraphic part hpart)
  rw [splitCommas, List.splitOn_intercalate 44 hcomma hne, htrim, List.filter_eq_self]
  intro part hpart
  simp only [ne_eq, decide_not, Bool.not_eq_true', decide_eq_false_iff_not]
  rintro rfl
  exact hnil hpart

/-! ## Addresses of host and port -/

theorem idxOf?_append {b : UInt8} {front : Bytes} (h : b ∉ front) (rest : Bytes) :
    (front ++ b :: rest).idxOf? b = some front.length := by
  induction front with
  | nil => simp [List.idxOf?_cons]
  | cons a front ih =>
      rw [List.mem_cons, not_or] at h
      obtain ⟨hne, hfront⟩ := h
      rw [List.cons_append, List.idxOf?_cons, ih hfront]
      simp [Ne.symm hne]

theorem idxOf?_eq_some {b : UInt8} {s : Bytes} {i : Nat} (h : s.idxOf? b = some i) :
    ∃ front rest, s = front ++ b :: rest ∧ front.length = i ∧ b ∉ front := by
  have hmem : b ∈ s := by
    by_contra hnot
    rw [List.idxOf?_eq_none_iff.mpr hnot] at h
    cases h
  obtain ⟨front, rest, rfl, hfront⟩ := List.eq_append_cons_of_mem hmem
  rw [idxOf?_append hfront, Option.some_inj] at h
  exact ⟨front, rest, rfl, h, hfront⟩

theorem lastIndexByte_append {b : UInt8} {rest : Bytes} (h : b ∉ rest) (front : Bytes) :
    lastIndexByte b (front ++ b :: rest) = some front.length := by
  have hreverse : (front ++ b :: rest).reverse = rest.reverse ++ b :: front.reverse := by simp
  rw [lastIndexByte, hreverse, idxOf?_append (by simpa using h), Option.map_some, Option.some_inj]
  simp only [List.length_append, List.length_cons, List.length_reverse]
  omega

theorem lastIndexByte_eq_some {b : UInt8} {s : Bytes} {i : Nat}
    (h : lastIndexByte b s = some i) :
    ∃ front rest, s = front ++ b :: rest ∧ front.length = i ∧ b ∉ rest := by
  obtain ⟨j, hj, -⟩ := Option.map_eq_some_iff.mp h
  obtain ⟨rest, front, hreverse, -, hrest⟩ := idxOf?_eq_some hj
  have hs : s = front.reverse ++ b :: rest.reverse := by
    rw [← s.reverse_reverse, hreverse]
    simp
  subst hs
  have hnot : b ∉ rest.reverse := by simpa using hrest
  rw [lastIndexByte_append hnot, Option.some_inj] at h
  exact ⟨front.reverse, rest.reverse, rfl, h, hnot⟩

/-- No bracket stands in either part and no colon in the port. -/
structure Plain (host port : Bytes) : Prop where
  host : 91 ∉ host ∧ 93 ∉ host
  port : 58 ∉ port ∧ 91 ∉ port ∧ 93 ∉ port

theorem splitAt_eq_ok {s host host' port : Bytes} {i opened closed : Nat}
    (h : splitAt s host' i opened closed = .ok (host, port)) :
    91 ∉ s.drop opened ∧ 93 ∉ s.drop closed ∧ host = host' ∧ port = s.drop (i + 1) := by
  unfold splitAt at h
  split at h
  · cases h
  rename_i hopen
  split at h
  · cases h
  rename_i hclose
  cases h
  exact ⟨hopen, hclose, rfl, rfl⟩

theorem drop_front (front : Bytes) (b : UInt8) (rest : Bytes) :
    (front ++ b :: rest).drop (front.length + 1) = rest := by
  simp

/-- Reading an address ensures the conditions under which it can be written. -/
theorem plain_of_splitHostPort {s host port : Bytes}
    (h : splitHostPort s = .ok (host, port)) : Plain host port := by
  unfold splitHostPort at h
  split at h
  · cases h
  rename_i i hi
  obtain ⟨front, rest, rfl, rfl, hcolon⟩ := lastIndexByte_eq_some hi
  split at h
  · split at h
    · cases h
    rename_i close hclose
    split at h
    · cases h
    split at h
    · -- The host stands in brackets.
      rename_i hlen
      obtain ⟨hopen, hclosed, rfl, rfl⟩ := splitAt_eq_ok h
      obtain ⟨inner, after, heq, rfl, hinner⟩ := idxOf?_eq_some hclose
      have hport : ∀ n ≤ front.length + 1, rest ⊆ (front ++ 58 :: rest).drop n := by
        intro n hn
        have hsub := (List.drop_sublist_drop_left (front ++ 58 :: rest) hn).subset
        rwa [drop_front] at hsub
      rw [drop_front]
      refine ⟨⟨?_, ?_⟩, hcolon, fun hb => hopen (hport 1 (by omega) hb),
        fun hb => hclosed (hport _ (by omega) hb)⟩
      · intro hb
        rw [List.drop_take] at hb
        exact hopen (List.mem_of_mem_take hb)
      · intro hb
        have hb := List.mem_of_mem_drop hb
        rw [heq, List.take_left] at hb
        exact hinner hb
    · split at h <;> cases h
  · split at h
    · cases h
    obtain ⟨hopen, hclosed, rfl, rfl⟩ := splitAt_eq_ok h
    rw [drop_front]
    simp only [List.drop_zero, List.mem_append, List.mem_cons, not_or] at hopen hclosed
    rw [List.take_left]
    exact ⟨⟨hopen.1, hclosed.1⟩, hcolon, hopen.2.2, hclosed.2.2⟩

theorem splitHostPort_joinHostPort {host port : Bytes} (h : Plain host port) :
    splitHostPort (joinHostPort host port) = .ok (host, port) := by
  obtain ⟨⟨hopen, hclose⟩, hcolon, hopen', hclose'⟩ := h
  unfold joinHostPort
  split
  · have hs : [91] ++ host ++ [93, 58] ++ port = ([91] ++ host ++ [93]) ++ 58 :: port := by simp
    have hlast := lastIndexByte_append hcolon ([91] ++ host ++ [93])
    have hbracket : (([91] ++ host ++ [93]) ++ 58 :: port).idxOf? 93 = some (host.length + 1) := by
      have hidx : (91 :: host ++ 93 :: 58 :: port).idxOf? 93 = some (91 :: host).length :=
        idxOf?_append (by simp [hclose]) _
      simpa using hidx
    have hlen : host.length + 1 + 1 ≠ (([91] ++ host ++ [93]) ++ 58 :: port).length := by
      simp only [List.length_append, List.length_cons, List.length_nil]
      omega
    have hcolons : host.length + 1 + 1 = ([91] ++ host ++ [93]).length := by simp
    have htake : ((([91] ++ host ++ [93]) ++ 58 :: port).take (host.length + 1)).drop 1 = host := by
      simp
    have hafter : (([91] ++ host ++ [93]) ++ 58 :: port).drop (host.length + 1 + 1) =
        58 :: port := by simp
    have hbefore : 91 ∉ (([91] ++ host ++ [93]) ++ 58 :: port).drop 1 := by
      simp [hopen, hopen']
    rw [hs, splitHostPort, hlast]
    simp only [List.head?_append, List.head?_cons, Option.some_or, if_true, hbracket,
      if_neg hlen, if_pos hcolons, htake, splitAt, hafter, if_neg hbefore, drop_front]
    rw [if_neg (by simp [hclose'])]
  · rename_i hnot
    have hs : host ++ [58] ++ port = host ++ 58 :: port := by simp
    have hhead : (host ++ 58 :: port).head? ≠ some 91 := by
      cases host with
      | nil => simp
      | cons b host =>
          intro hb
          exact hopen (by simpa using Or.inl (Option.some_inj.mp hb).symm)
    rw [hs, splitHostPort, lastIndexByte_append hcolon]
    simp only [hhead, if_false, List.take_left, hnot, splitAt, List.drop_zero, List.mem_append,
      List.mem_cons, hopen, hopen', hclose, hclose', drop_front]
    rw [if_neg (by decide), if_neg (by decide)]

end UnknownTunnel.Foundation.Text

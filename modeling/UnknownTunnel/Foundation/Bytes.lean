import Mathlib.Algebra.Order.Ring.Nat
import Mathlib.Tactic.Ring

/-!
# Byte strings, slices and big-endian numbers

Fixed-width big-endian encoding keeps the low-order digits of a number, so
reading back gives its residue. Slices follow half-open index ranges.
-/

namespace UnknownTunnel.Foundation

/-- A finite string of bytes. -/
abbrev Bytes := List UInt8

/-- Membership in lists of byte strings is decided through this instance. -/
instance instLawfulBEqBytes : LawfulBEq Bytes := List.instLawfulBEq

/-- The bytes of a string constant. -/
def ofString (s : String) : Bytes := s.toUTF8.data.toList

namespace Bytes

/-- The `w` low-order base-256 digits of `n`, most significant first. -/
def bePut : Nat → Nat → Bytes
  | 0, _ => []
  | w + 1, n => UInt8.ofNat (n / 256 ^ w) :: bePut w n

/-- The number whose base-256 digits are the given bytes. -/
def beGet (bs : Bytes) : Nat := bs.foldl (fun acc b => acc * 256 + b.toNat) 0

@[simp] theorem length_bePut (w n : Nat) : (bePut w n).length = w := by
  induction w with
  | zero => rfl
  | succ w ih => simp [bePut, ih]

theorem foldl_bePut (w n acc : Nat) :
    (bePut w n).foldl (fun acc b => acc * 256 + b.toNat) acc =
      acc * 256 ^ w + n % 256 ^ w := by
  induction w generalizing acc with
  | zero => simp [bePut, Nat.mod_one]
  | succ w ih =>
      have hbyte : (UInt8.ofNat (n / 256 ^ w)).toNat = n / 256 ^ w % 256 := by simp
      simp only [bePut, List.foldl_cons, ih, hbyte]
      have hsplit : n % 256 ^ (w + 1) = n / 256 ^ w % 256 * 256 ^ w + n % 256 ^ w := by
        rw [pow_succ, Nat.mod_mul]
        ring
      rw [hsplit, pow_succ]
      ring

/-- Reading a big-endian field gives the encoded number's residue. -/
theorem beGet_bePut (w n : Nat) : beGet (bePut w n) = n % 256 ^ w := by
  simpa [beGet] using foldl_bePut w n 0

theorem beGet_bePut_of_lt {w n : Nat} (h : n < 256 ^ w) : beGet (bePut w n) = n := by
  rw [beGet_bePut, Nat.mod_eq_of_lt h]

/-- Numbers that fit the width are determined by their encoding. -/
theorem bePut_inj {w m n : Nat} (hm : m < 256 ^ w) (hn : n < 256 ^ w)
    (h : bePut w m = bePut w n) : m = n := by
  rw [← beGet_bePut_of_lt hm, h, beGet_bePut_of_lt hn]

theorem foldl_beGet (bs : Bytes) (acc : Nat) :
    bs.foldl (fun acc b => acc * 256 + b.toNat) acc = acc * 256 ^ bs.length + beGet bs := by
  induction bs generalizing acc with
  | nil => simp [beGet]
  | cons b bs ih =>
      have hhead : beGet (b :: bs) = b.toNat * 256 ^ bs.length + beGet bs := by
        rw [beGet, List.foldl_cons, ih, Nat.zero_mul, Nat.zero_add]
      rw [List.foldl_cons, ih, hhead, List.length_cons, pow_succ]
      ring

theorem beGet_cons (b : UInt8) (bs : Bytes) :
    beGet (b :: bs) = b.toNat * 256 ^ bs.length + beGet bs := by
  rw [beGet, List.foldl_cons, foldl_beGet, Nat.zero_mul, Nat.zero_add]

theorem beGet_lt (bs : Bytes) : beGet bs < 256 ^ bs.length := by
  induction bs with
  | nil => simp [beGet]
  | cons b bs ih =>
      calc beGet (b :: bs)
          = b.toNat * 256 ^ bs.length + beGet bs := beGet_cons b bs
        _ < b.toNat * 256 ^ bs.length + 256 ^ bs.length := by omega
        _ = (b.toNat + 1) * 256 ^ bs.length := by ring
        _ ≤ 256 * 256 ^ bs.length := Nat.mul_le_mul_right _ b.toNat_lt
        _ = 256 ^ (b :: bs).length := by rw [List.length_cons, pow_succ, Nat.mul_comm]

/-- Strings of one length are determined by the number they stand for. -/
theorem beGet_inj {bs cs : Bytes} (hlen : bs.length = cs.length) (h : beGet bs = beGet cs) :
    bs = cs := by
  induction bs generalizing cs with
  | nil => exact (List.length_eq_zero_iff.mp hlen.symm).symm
  | cons b bs ih =>
      cases cs with
      | nil => cases hlen
      | cons c cs =>
          have htail : bs.length = cs.length := Nat.succ.inj hlen
          have hb := beGet_lt bs
          have hc := beGet_lt cs
          rw [beGet_cons, beGet_cons, htail] at h
          rw [htail] at hb
          have hpos : 0 < 256 ^ cs.length := Nat.pow_pos (by decide)
          have hdiv := congrArg (· / 256 ^ cs.length) h
          have hmod := congrArg (· % 256 ^ cs.length) h
          simp only [Nat.mul_add_mod_self_right, Nat.mod_eq_of_lt hb, Nat.mod_eq_of_lt hc] at hmod
          simp only [Nat.mul_comm _ (256 ^ cs.length), Nat.mul_add_div hpos,
            Nat.div_eq_of_lt hb, Nat.div_eq_of_lt hc, Nat.add_zero] at hdiv
          rw [UInt8.toNat_inj.mp hdiv, ih htail hmod]

/-- Writing what was read from a field gives the field back. -/
theorem bePut_beGet {w : Nat} {bs : Bytes} (h : bs.length = w) : bePut w (beGet bs) = bs := by
  subst h
  apply beGet_inj (length_bePut _ _)
  exact beGet_bePut_of_lt (beGet_lt bs)

/-- A part without the separator can be told from what follows it. -/
theorem append_separator_inj {a b r s : Bytes} {sep : UInt8} (ha : sep ∉ a) (hb : sep ∉ b)
    (h : a ++ (sep :: r) = b ++ (sep :: s)) : a = b ∧ r = s := by
  induction a generalizing b with
  | nil =>
      cases b with
      | nil => exact ⟨rfl, (List.cons.inj h).2⟩
      | cons y b => exact absurd ((List.cons.inj h).1 ▸ List.mem_cons_self) hb
  | cons x a ih =>
      cases b with
      | nil => exact absurd ((List.cons.inj h).1 ▸ List.mem_cons_self) ha
      | cons y b =>
          obtain ⟨rfl, htail⟩ := List.cons.inj h
          obtain ⟨rfl, hrest⟩ := ih (List.not_mem_of_not_mem_cons ha)
            (List.not_mem_of_not_mem_cons hb) htail
          exact ⟨rfl, hrest⟩

/-- The bytes at positions `i` to `j - 1`. -/
def slice (i j : Nat) (bs : Bytes) : Bytes := (bs.take j).drop i

/-- A slice that covers one part of a concatenation is that part. -/
theorem slice_append {i j : Nat} {pre mid : Bytes} (post : Bytes) (hi : pre.length = i)
    (hj : pre.length + mid.length = j) : slice i j (pre ++ (mid ++ post)) = mid := by
  subst hi
  subst hj
  rw [slice, ← List.append_assoc, List.take_left' (by simp), List.drop_left]

theorem length_slice {i j : Nat} {bs : Bytes} (h : j ≤ bs.length) :
    (slice i j bs).length = j - i := by
  rw [slice, List.length_drop, List.length_take, Nat.min_eq_left h]

/-- Adjacent slices join. -/
theorem slice_append_slice {i j k : Nat} (bs : Bytes) (hij : i ≤ j) (hjk : j ≤ k) :
    slice i j bs ++ slice j k bs = slice i k bs := by
  have hj : bs.take j = (bs.take k).take j := by rw [List.take_take, Nat.min_eq_left hjk]
  have hk : slice j k bs = ((bs.take k).drop i).drop (j - i) := by
    rw [slice, List.drop_drop, Nat.add_sub_cancel' hij]
  rw [hk, slice, slice, hj, List.drop_take, List.take_append_drop]

/-- A place that exists, as a slice of one byte. -/
theorem slice_succ {i : Nat} {bs : Bytes} (h : i < bs.length) :
    slice i (i + 1) bs = [bs.getD i 0] := by
  rw [slice, List.drop_take, Nat.add_sub_cancel_left, List.getD_eq_getElem?_getD,
    List.getElem?_eq_getElem h, Option.getD_some, List.drop_eq_getElem_cons h, List.take_succ_cons,
    List.take_zero]

/-- The byte that follows a beginning of known length. -/
theorem getD_append_cons {i : Nat} {pre : Bytes} (b : UInt8) (post : Bytes)
    (hi : pre.length = i) : (pre ++ b :: post).getD i 0 = b := by
  subst hi
  simp

theorem getD_append_left {i : Nat} {pre : Bytes} (post : Bytes) (h : i < pre.length) :
    (pre ++ post).getD i 0 = pre.getD i 0 := by
  simp [List.getD_eq_getElem?_getD, List.getElem?_append_left h]

/-- A byte within a beginning of the string. -/
theorem getD_take {i n : Nat} (bs : Bytes) (h : i < n) : (bs.take n).getD i 0 = bs.getD i 0 := by
  simp [List.getD_eq_getElem?_getD, h]

/-- Two strings with the same long enough beginning agree on its slices. -/
theorem slice_take {i j n : Nat} (bs : Bytes) (h : j ≤ n) :
    slice i j (bs.take n) = slice i j bs := by
  rw [slice, slice, List.take_take, Nat.min_eq_left h]

end Bytes

end UnknownTunnel.Foundation

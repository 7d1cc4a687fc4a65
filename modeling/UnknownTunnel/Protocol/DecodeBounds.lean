import UnknownTunnel.Protocol.Codec

/-!
# Decoding with range checks

`Decode` with the accesses it makes and with lengths that are signed integers
of the width the program is built for. A length of 32 bits becomes negative on
a machine with integers of that width, passes the test against its limit, and
leads to a slice that ends before it begins.

## Implementation notes

The result is `none` if an index or a slice expression is out of range. The
sum of the lengths stays within 32 bits: each is at most its limit, and the
payload's is at least `-2 ^ 31`.
-/

namespace UnknownTunnel.Protocol

open Foundation

/-- The end of `Decode`, with the lengths converted to integers. -/
def decodeFields (data : Bytes) (type : UInt8) (id connID seq : Bytes)
    (nameLen errLen payloadLen : Int) : Option (Except DecodeError Message) :=
  let total := 40 + nameLen + errLen + payloadLen
  if maxNameLen < nameLen ∨ maxErrorLen < errLen ∨ maxPayloadLen < payloadLen then
    some (.error .fieldLimit)
  else if total ≠ data.length then some (.error (.length total data.length))
  else do
    let name ← checkedSlice data 40 (40 + nameLen)
    let error ← checkedSlice data (40 + nameLen) (40 + nameLen + errLen)
    let payload ← checkedSlice data (40 + nameLen + errLen) (40 + nameLen + errLen + payloadLen)
    pure (.ok
      { id := UInt64.ofNat (Bytes.beGet id), type
        connID := UInt64.ofNat (Bytes.beGet connID), seq := UInt64.ofNat (Bytes.beGet seq)
        name, error, payload })

/-- `Decode` on a machine with the given integers. -/
def decodeAt (size : IntSize) (data : Bytes) : Option (Except DecodeError Message) :=
  if data.length < 40 then some (.error .unexpectedEOF)
  else do
    let magic ← checkedSlice data 0 4
    if magic ≠ messageMagic then pure (.error .magic)
    else
      let version ← data[4]?
      if version ≠ messageVersion then pure (.error (.version version))
      else
        let type ← data[5]?
        let id ← checkedSlice data 8 16
        let connID ← checkedSlice data 16 24
        let seq ← checkedSlice data 24 32
        let nameLen ← checkedSlice data 32 34
        let errLen ← checkedSlice data 34 36
        let payloadLen ← checkedSlice data 36 40
        decodeFields data type id connID seq (size.ofUnsigned (Bytes.beGet nameLen))
          (size.ofUnsigned (Bytes.beGet errLen)) (size.ofUnsigned (Bytes.beGet payloadLen))

/-! ## The header is read inside the data -/

section Header

variable {data : Bytes}

theorem decodeAt_of_short (size : IntSize) (h : data.length < 40) :
    decodeAt size data = some (decode data) := by
  rw [decodeAt, if_pos h, decode, if_pos h]

/-- With a valid header only the lengths matter. -/
theorem decodeAt_of_headerOk (size : IntSize) (h : HeaderOk data) :
    decodeAt size data = decodeFields data (data.getD 5 0) (Bytes.slice 8 16 data)
      (Bytes.slice 16 24 data) (Bytes.slice 24 32 data) (size.ofUnsigned (nameField data))
      (size.ofUnsigned (errorField data)) (size.ofUnsigned (payloadField data)) := by
  have hlong := h.long
  have hslice (i j : Nat) (hij : i ≤ j) (hj : j ≤ 40) :
      checkedSlice data i j = some (Bytes.slice i j data) := checkedSlice_of_le i j hij (by omega)
  have hindex (i : Nat) (hi : i < 40) : data[i]? = some (data.getD i 0) :=
    getElem?_eq_some_getD (by omega)
  have hmagic : checkedSlice data 0 4 = some messageMagic := by
    rw [← h.magic]
    exact hslice 0 4 (by decide) (by decide)
  have hversion : data[4]? = some messageVersion := by
    rw [hindex 4 (by decide), h.version]
  have hid := hslice 8 16 (by decide) (by decide)
  have hconn := hslice 16 24 (by decide) (by decide)
  have hseq := hslice 24 32 (by decide) (by decide)
  have hname := hslice 32 34 (by decide) (by decide)
  have herror := hslice 34 36 (by decide) (by decide)
  have hpayload := hslice 36 40 (by decide) (by decide)
  simp only [Nat.cast_ofNat] at hid hconn hseq hname herror hpayload
  simp only [decodeAt, if_neg hlong.not_gt, hmagic, hversion, hindex 5 (by decide), hid, hconn,
    hseq, hname, herror, hpayload, Option.bind_eq_bind, Option.bind_some, ne_eq, not_true_eq_false,
    if_false, nameField, errorField, payloadField]

/-- A header that is refused is refused whatever the width of integers. -/
theorem decodeAt_of_not_headerOk (size : IntSize) (hlong : 40 ≤ data.length)
    (h : ¬ HeaderOk data) : decodeAt size data = some (decode data) := by
  have hmagic : checkedSlice data 0 4 = some (data.take 4) :=
    checkedSlice_of_le 0 4 (by decide) (by omega)
  have hversion : data[4]? = some (data.getD 4 0) := getElem?_eq_some_getD (by omega)
  simp only [decodeAt, decode, if_neg hlong.not_gt, hmagic, hversion, Option.bind_eq_bind,
    Option.bind_some]
  by_cases hm : data.take 4 = messageMagic
  · have hv : data.getD 4 0 ≠ messageVersion := fun hv => h ⟨hlong, hm, hv⟩
    rw [if_neg (not_not.mpr hm), if_neg (not_not.mpr hm), if_pos hv, if_pos hv]
    rfl
  · rw [if_pos hm, if_pos hm]
    rfl

theorem beGet_slice_lt (low : Nat) {high : Nat} (h : high ≤ data.length) :
    Bytes.beGet (Bytes.slice low high data) < 256 ^ (high - low) := by
  have hlt := Bytes.beGet_lt (Bytes.slice low high data)
  rw [Bytes.length_slice h] at hlt
  exact hlt

theorem nameField_lt (h : HeaderOk data) : nameField data < 2 ^ 16 :=
  beGet_slice_lt 32 (le_trans (by decide) h.long)

theorem errorField_lt (h : HeaderOk data) : errorField data < 2 ^ 16 :=
  beGet_slice_lt 34 (le_trans (by decide) h.long)

theorem payloadField_lt (h : HeaderOk data) : payloadField data < 2 ^ 32 :=
  beGet_slice_lt 36 (le_trans (by decide) h.long)

end Header

/-! ## The fields -/

/-- Lengths that keep their sign are used inside the data. -/
theorem decodeFields_of_nonneg {data : Bytes} (h : HeaderOk data) :
    decodeFields data (data.getD 5 0) (Bytes.slice 8 16 data) (Bytes.slice 16 24 data)
      (Bytes.slice 24 32 data) (nameField data) (errorField data) (payloadField data) =
      some (decode data) := by
  have hdecode : decode data =
      if maxNameLen < nameField data ∨ maxErrorLen < errorField data ∨
          maxPayloadLen < payloadField data then .error .fieldLimit
      else if 40 + nameField data + errorField data + payloadField data ≠ data.length then
        .error (.length (40 + nameField data + errorField data + payloadField data : Nat)
          data.length)
      else .ok (messageFields data) := by
    rw [decode, if_neg h.long.not_gt, if_neg (not_not.mpr h.magic),
      if_neg (not_not.mpr h.version)]
    rfl
  rw [hdecode, decodeFields]
  simp only [Nat.cast_lt]
  split
  · rfl
  · by_cases htotal : 40 + nameField data + errorField data + payloadField data = data.length
    · have hname : checkedSlice data 40 (40 + (nameField data : Int)) =
          some (messageFields data).name :=
        checkedSlice_of_le 40 (40 + nameField data) (Nat.le_add_right _ _) (by omega)
      have herror : checkedSlice data (40 + (nameField data : Int))
          (40 + (nameField data : Int) + (errorField data : Int)) =
          some (messageFields data).error :=
        checkedSlice_of_le (40 + nameField data) (40 + nameField data + errorField data)
          (Nat.le_add_right _ _) (by omega)
      have hpayload : checkedSlice data (40 + (nameField data : Int) + (errorField data : Int))
          (40 + (nameField data : Int) + (errorField data : Int) + (payloadField data : Int)) =
          some (messageFields data).payload :=
        checkedSlice_of_le (40 + nameField data + errorField data)
          (40 + nameField data + errorField data + payloadField data) (Nat.le_add_right _ _)
          (by omega)
      rw [if_neg (not_not.mpr (by omega)), if_neg (not_not.mpr htotal), hname, herror, hpayload]
      rfl
    · rw [if_pos (by omega), if_pos htotal]
      rfl

/-- With integers of 64 bits no access is out of range, and the lengths are
the numbers that stand in the header. -/
theorem decodeAt_bits64 (data : Bytes) : decodeAt .bits64 data = some (decode data) := by
  by_cases hlong : 40 ≤ data.length
  · by_cases hok : HeaderOk data
    · have hn := nameField_lt hok
      have he := errorField_lt hok
      rw [decodeAt_of_headerOk _ hok, IntSize.ofUnsigned_bits64 (by omega),
        IntSize.ofUnsigned_bits64 (by omega), IntSize.ofUnsigned_bits64 (payloadField_lt hok),
        decodeFields_of_nonneg hok]
    · exact decodeAt_of_not_headerOk _ hlong hok
  · exact decodeAt_of_short _ (not_le.mp hlong)

theorem decodeAt_of_payloadField_lt (size : IntSize) {data : Bytes} (hok : HeaderOk data)
    (hpayload : payloadField data < 2 ^ 31) : decodeAt size data = some (decode data) := by
  have hn := nameField_lt hok
  have he := errorField_lt hok
  rw [decodeAt_of_headerOk _ hok, IntSize.ofUnsigned_of_lt _ (by omega),
    IntSize.ofUnsigned_of_lt _ (by omega), IntSize.ofUnsigned_of_lt _ hpayload,
    decodeFields_of_nonneg hok]

/-! ## Negative lengths -/

/-- A length that a conversion has made negative passes the tests against the
limits. -/
def SlipsPast (size : IntSize) (data : Bytes) : Prop :=
  HeaderOk data ∧
    (size.ofUnsigned (nameField data) < 0 ∨ size.ofUnsigned (errorField data) < 0 ∨
      size.ofUnsigned (payloadField data) < 0) ∧
    size.ofUnsigned (nameField data) ≤ maxNameLen ∧
    size.ofUnsigned (errorField data) ≤ maxErrorLen ∧
    size.ofUnsigned (payloadField data) ≤ maxPayloadLen

/-- All accesses are in range, and no negative length passes. -/
structure DecodesSafely (size : IntSize) (data : Bytes) : Prop where
  inRange : ∃ result, decodeAt size data = some result
  lengths : ¬ SlipsPast size data

/-- `Decode` stops at the header or at the limits of the two short lengths. -/
def RefusedEarly (data : Bytes) : Prop :=
  ¬ HeaderOk data ∨ maxNameLen < nameField data ∨ maxErrorLen < errorField data

theorem slipsPast_iff (size : IntSize) (data : Bytes) :
    SlipsPast size data ↔
      size = .bits32 ∧ ¬ RefusedEarly data ∧ 2 ^ 31 ≤ payloadField data := by
  by_cases hok : HeaderOk data
  · have hn := nameField_lt hok
    have he := errorField_lt hok
    have hp := payloadField_lt hok
    have hname := IntSize.ofUnsigned_of_lt size (show nameField data < 2 ^ 31 by omega)
    have herror := IntSize.ofUnsigned_of_lt size (show errorField data < 2 ^ 31 by omega)
    have hearly : ¬ RefusedEarly data ↔
        nameField data ≤ maxNameLen ∧ errorField data ≤ maxErrorLen := by
      simp only [RefusedEarly, hok, not_true_eq_false, false_or, not_or, not_lt]
    rw [hearly]
    unfold SlipsPast
    rw [hname, herror]
    by_cases hlow : payloadField data < 2 ^ 31
    · rw [IntSize.ofUnsigned_of_lt size hlow]
      constructor
      · rintro ⟨-, hneg, -⟩
        omega
      · rintro ⟨-, -, hhigh⟩
        omega
    · cases size with
      | bits64 =>
          rw [IntSize.ofUnsigned_bits64 hp]
          constructor
          · rintro ⟨-, hneg, -⟩
            omega
          · rintro ⟨hsize, -⟩
            cases hsize
      | bits32 =>
          rw [IntSize.ofUnsigned_bits32 (not_lt.mp hlow) hp]
          constructor
          · rintro ⟨-, -, hn', he', -⟩
            exact ⟨rfl, ⟨by omega, by omega⟩, not_lt.mp hlow⟩
          · rintro ⟨-, ⟨hn', he'⟩, -⟩
            exact ⟨hok, by omega, by omega, by omega, by omega⟩
  · constructor
    · rintro ⟨hheader, -⟩
      exact absurd hheader hok
    · rintro ⟨-, hearly, -⟩
      exact absurd (Or.inl hok) hearly

/-- Without a negative length that passes, every access is in range. -/
theorem inRange_of_not_slipsPast {size : IntSize} {data : Bytes} (h : ¬ SlipsPast size data) :
    ∃ result, decodeAt size data = some result := by
  by_cases hlong : 40 ≤ data.length
  · by_cases hok : HeaderOk data
    · by_cases hlow : payloadField data < 2 ^ 31
      · exact ⟨_, decodeAt_of_payloadField_lt size hok hlow⟩
      · cases size with
        | bits64 => exact ⟨_, decodeAt_bits64 data⟩
        | bits32 =>
            have hearly : RefusedEarly data := by
              by_contra hearly
              exact h ((slipsPast_iff _ _).mpr ⟨rfl, hearly, not_lt.mp hlow⟩)
            have hn := nameField_lt hok
            have he := errorField_lt hok
            refine ⟨.error .fieldLimit, ?_⟩
            rw [decodeAt_of_headerOk _ hok, IntSize.ofUnsigned_of_lt _ (by omega),
              IntSize.ofUnsigned_of_lt _ (by omega), decodeFields]
            apply if_pos
            rcases hearly with hnot | hname | herror
            · exact absurd hok hnot
            · exact Or.inl (by exact_mod_cast hname)
            · exact Or.inr (Or.inl (by exact_mod_cast herror))
    · exact ⟨_, decodeAt_of_not_headerOk size hlong hok⟩
  · exact ⟨_, decodeAt_of_short size (not_le.mp hlong)⟩

/-- Decoding is safe exactly with integers of 64 bits, for payload lengths
below `2 ^ 31`, and for strings that are refused before that length counts. -/
theorem decode_safe_iff (size : IntSize) (data : Bytes) :
    DecodesSafely size data ↔
      size = .bits64 ∨ payloadField data < 2 ^ 31 ∨ RefusedEarly data := by
  have hslips := slipsPast_iff size data
  constructor
  · intro hsafe
    by_contra hnot
    obtain ⟨hsize, hrest⟩ := not_or.mp hnot
    obtain ⟨hhigh, hearly⟩ := not_or.mp hrest
    have hsmall : size = .bits32 := by
      cases size with
      | bits32 => rfl
      | bits64 => exact absurd rfl hsize
    exact hsafe.lengths (hslips.mpr ⟨hsmall, hearly, not_lt.mp hhigh⟩)
  · intro hcond
    have hnot : ¬ SlipsPast size data := by
      rw [hslips]
      rintro ⟨rfl, hearly, hhigh⟩
      rcases hcond with hsize | hlow | hrefused
      · cases hsize
      · omega
      · exact hearly hrefused
    exact ⟨inRange_of_not_slipsPast hnot, hnot⟩

/-- A header of forty bytes whose name has ten bytes and whose payload has
`-10` ends with a slice from place 50 to place 40. -/
theorem decode_out_of_range_on_32_bits :
    decodeAt .bits32 (messageMagic ++ [messageVersion, typePing, 0, 0] ++ List.replicate 24 0 ++
      [0, 10, 0, 0, 255, 255, 255, 246]) = none := by
  decide

end UnknownTunnel.Protocol

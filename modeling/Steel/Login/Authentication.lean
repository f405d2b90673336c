import Mathlib.Data.List.Basic
import Mathlib.Data.List.Induction
import Mathlib.Data.Nat.Bitwise
import Steel.Lib.LittleEndian

/-!
# The hash of the server

The hash that both sides of a login compare, as the text of a signed number. The bytes are a number
in two's complement with the most significant byte first.
-/

namespace Steel

open List

/-! ### The conversion -/

variable (bytes : List UInt8)

/-- `hex::encode` of the library: two lower-case digits for a byte. -/
def hexEncode : List Char :=
  bytes.flatMap fun byte => [(byte.toNat / 16).digitChar, (byte.toNat % 16).digitChar]

def trimStartMatches (pattern : Char) (text : List Char) : List Char :=
  text.dropWhile (· == pattern)

/-- The loop that adds one, from the least significant byte to the first one without a carry. -/
def addOne : List UInt8 → List UInt8
  | [] => []
  | byte :: rest => if byte = 0xff then (byte + 1) :: addOne rest else (byte + 1) :: rest

def signedBytesBeToHex : List UInt8 → List Char
  | [] => ['0']
  | first :: rest =>
    if first &&& 0x80 ≠ 0 then
      let magnitude := (addOne ((first :: rest).map (~~~ ·)).reverse).reverse
      '-' :: trimStartMatches '0' (hexEncode magnitude)
    else
      let trimmed := trimStartMatches '0' (hexEncode (first :: rest))
      if trimmed.isEmpty then ['0'] else trimmed

/-! ### The number and its text -/

def unsignedBe : ℕ := fromLeBytes bytes.reverse

/-- The number in two's complement: the remainder that is closest to zero. -/
def signedBe : Int := (unsignedBe bytes : Int).bmod (256 ^ bytes.length)

/-- A number in base 16, after a minus sign if it is negative. -/
def hexText (value : Int) : List Char :=
  if value < 0 then '-' :: Nat.toDigits 16 value.natAbs else Nat.toDigits 16 value.natAbs

/-! ### Digits -/

theorem digitChar_eq_zero_iff {digit : ℕ} (h : digit < 16) : digit.digitChar = '0' ↔ digit = 0 := by
  revert digit
  decide

/-- The digits without leading zeros, which are none for zero. -/
def significantDigits (value : ℕ) : List Char :=
  if value = 0 then [] else Nat.toDigits 16 value

/-- One more digit on the right. -/
theorem trimStartMatches_append {text : List Char} {value digit : ℕ} (hdigit : digit < 16)
    (h : trimStartMatches '0' text = significantDigits value) :
    trimStartMatches '0' (text ++ [digit.digitChar]) = significantDigits (16 * value + digit) := by
  unfold trimStartMatches at h ⊢
  rw [dropWhile_append, h]
  unfold significantDigits
  by_cases hvalue : value = 0
  · rw [if_pos hvalue, hvalue, Nat.mul_zero, Nat.zero_add]
    by_cases hzero : digit = 0
    · rw [hzero]
      rfl
    · have hchar : (digit.digitChar == '0') = false :=
        beq_eq_false_iff_ne.mpr (mt (digitChar_eq_zero_iff hdigit).mp hzero)
      rw [if_neg hzero, Nat.toDigits_of_lt_base hdigit]
      simp [hchar]
  · have hsum : 16 * value + digit ≠ 0 := by omega
    rw [if_neg hvalue, if_neg hsum, ← Nat.toDigits_append_toDigits (by decide) (by omega) hdigit,
      Nat.toDigits_of_lt_base hdigit]
    simp [Nat.toDigits_ne_nil]

theorem unsignedBe_append (byte : UInt8) :
    unsignedBe (bytes ++ [byte]) = 256 * unsignedBe bytes + byte.toNat := by
  rw [unsignedBe, reverse_append, reverse_singleton, singleton_append, fromLeBytes, Nat.add_comm]
  rfl

theorem trimStartMatches_hexEncode :
    trimStartMatches '0' (hexEncode bytes) = significantDigits (unsignedBe bytes) := by
  induction bytes using List.reverseRecOn with
  | nil => rfl
  | append_singleton bytes byte ih =>
    have hbyte := byte.toNat_lt
    have hhigh := trimStartMatches_append (show byte.toNat / 16 < 16 by omega) ih
    have hlow := trimStartMatches_append (show byte.toNat % 16 < 16 by omega) hhigh
    have hvalue : 16 * (16 * unsignedBe bytes + byte.toNat / 16) + byte.toNat % 16 =
        unsignedBe (bytes ++ [byte]) := by
      rw [unsignedBe_append]
      omega
    have htext : hexEncode (bytes ++ [byte]) = hexEncode bytes ++
        [(byte.toNat / 16).digitChar] ++ [(byte.toNat % 16).digitChar] := by
      unfold hexEncode
      rw [flatMap_append, append_assoc]
      rfl
    rw [htext, hlow, hvalue]

/-! ### The magnitude of a negative number -/

theorem fromLeBytes_map_not :
    fromLeBytes (bytes.map (~~~ ·)) + fromLeBytes bytes + 1 = 256 ^ bytes.length := by
  induction bytes with
  | nil => rfl
  | cons byte rest ih =>
    have hbyte := byte.toNat_lt
    have hnot : (~~~ byte).toNat = 255 - byte.toNat := UInt8.toNat_not byte
    rw [map_cons, fromLeBytes, fromLeBytes, length_cons, pow_succ', ← ih, hnot]
    omega

/-- The carry is lost only if every byte is full. -/
theorem fromLeBytes_addOne {bytes : List UInt8} (h : fromLeBytes bytes + 1 < 256 ^ bytes.length) :
    fromLeBytes (addOne bytes) = fromLeBytes bytes + 1 := by
  induction bytes with
  | nil => exact absurd h (by decide)
  | cons byte rest ih =>
    have hbyte := byte.toNat_lt
    rw [length_cons, pow_succ', fromLeBytes] at h
    rw [addOne]
    split_ifs with hfull
    · have hbyte : byte.toNat = 255 := congrArg UInt8.toNat hfull
      have hsum : (byte + 1).toNat = 0 := congrArg (fun byte => (byte + 1).toNat) hfull
      have hrest : fromLeBytes rest + 1 < 256 ^ rest.length := by omega
      rw [fromLeBytes, fromLeBytes, ih hrest, hsum, hbyte]
      omega
    · have hnot : byte.toNat ≠ 255 := fun heq => hfull (UInt8.toNat_inj.mp heq)
      have hsum : (byte + 1).toNat = byte.toNat + 1 := by
        have hlt : byte.toNat + 1 < 256 := by omega
        exact Nat.mod_eq_of_lt hlt
      rw [fromLeBytes, fromLeBytes, hsum]
      omega

/-! ### The sign -/

theorem and_0x80_ne_zero_iff (byte : UInt8) : byte &&& 0x80 ≠ 0 ↔ 128 ≤ byte.toNat := by
  have hbyte := byte.toNat_lt
  have hand : byte.toNat &&& 128 = (byte.toNat.testBit 7).toNat * 128 := Nat.and_two_pow _ 7
  rw [Ne, ← UInt8.toNat_inj, UInt8.toNat_and, show (0x80 : UInt8).toNat = 128 from rfl,
    show (0 : UInt8).toNat = 0 from rfl, hand, Nat.testBit_eq_decide_div_mod_eq]
  by_cases hhigh : 128 ≤ byte.toNat
  · have hbit : byte.toNat / 128 % 2 = 1 := by omega
    simp [hbit, hhigh]
  · have hbit : byte.toNat / 128 % 2 = 0 := by omega
    simp [hbit, hhigh]

theorem unsignedBe_cons (first : UInt8) (rest : List UInt8) :
    unsignedBe (first :: rest) = first.toNat * 256 ^ rest.length + unsignedBe rest := by
  induction rest using List.reverseRecOn with
  | nil => exact (Nat.mul_one _).symm
  | append_singleton rest byte ih =>
    rw [← cons_append, unsignedBe_append, unsignedBe_append, ih, length_append, length_singleton,
      pow_succ]
    ring

theorem unsignedBe_lt : unsignedBe bytes < 256 ^ bytes.length := by
  have hlt := fromLeBytes_lt bytes.reverse
  rwa [length_reverse] at hlt

/-- The first byte tells the sign. -/
theorem signedBe_cons (first : UInt8) (rest : List UInt8) :
    signedBe (first :: rest) =
      if 128 ≤ first.toNat then (unsignedBe (first :: rest) : Int) - (256 ^ (rest.length + 1) : ℕ)
      else (unsignedBe (first :: rest) : Int) := by
  have hfirst := first.toNat_lt
  have hrest := unsignedBe_lt rest
  have hhalf : 128 ≤ first.toNat ↔ 128 * 256 ^ rest.length ≤ unsignedBe (first :: rest) := by
    rw [unsignedBe_cons]
    constructor
    · intro hhigh
      have := Nat.mul_le_mul_right (256 ^ rest.length) hhigh
      omega
    · intro hvalue
      by_contra hlow
      have := Nat.mul_le_mul_right (256 ^ rest.length) (show first.toNat + 1 ≤ 128 by omega)
      rw [Nat.add_mul] at this
      omega
  have hbound := unsignedBe_lt (first :: rest)
  have hpower : 256 ^ (rest.length + 1) = 256 * 256 ^ rest.length := pow_succ' 256 rest.length
  rw [length_cons] at hbound
  rw [signedBe, length_cons, Int.bmod_def]
  have hmod : (unsignedBe (first :: rest) : Int) % (256 ^ (rest.length + 1) : ℕ) =
      unsignedBe (first :: rest) := Int.emod_eq_of_lt (by omega) (by omega)
  rw [hmod]
  split_ifs <;> omega

/-- Complement and carry are the absolute value of a negative number. -/
theorem unsignedBe_magnitude {bytes : List UInt8} (h : unsignedBe bytes ≠ 0) :
    unsignedBe (addOne (bytes.map (~~~ ·)).reverse).reverse =
      256 ^ bytes.length - unsignedBe bytes := by
  have hnot := fromLeBytes_map_not bytes.reverse
  rw [length_reverse] at hnot
  have hvalue : fromLeBytes bytes.reverse = unsignedBe bytes := rfl
  rw [unsignedBe, reverse_reverse, ← map_reverse, fromLeBytes_addOne]
  · omega
  · rw [length_map, length_reverse]
    omega

/-- The text is that of the number in two's complement, for every number of bytes. -/
theorem signedBytesBeToHex_eq (bytes : List UInt8) :
    signedBytesBeToHex bytes = hexText (signedBe bytes) := by
  cases bytes with
  | nil => rfl
  | cons first rest =>
    have hbound := unsignedBe_lt (first :: rest)
    rw [length_cons] at hbound
    rw [signedBytesBeToHex, signedBe_cons]
    dsimp only
    rw [trimStartMatches_hexEncode, trimStartMatches_hexEncode]
    by_cases hhigh : 128 ≤ first.toNat
    · have hpos : 0 < unsignedBe (first :: rest) := by
        have hpower : 0 < 256 ^ rest.length := Nat.pow_pos (by decide)
        have hproduct := Nat.mul_pos (show 0 < first.toNat by omega) hpower
        rw [unsignedBe_cons]
        omega
      have hnegative : (unsignedBe (first :: rest) : Int) - (256 ^ (rest.length + 1) : ℕ) < 0 := by
        omega
      have habs : ((unsignedBe (first :: rest) : Int) - (256 ^ (rest.length + 1) : ℕ)).natAbs =
          256 ^ (rest.length + 1) - unsignedBe (first :: rest) := by omega
      rw [if_pos ((and_0x80_ne_zero_iff first).mpr hhigh), if_pos hhigh, hexText,
        if_pos hnegative, habs, unsignedBe_magnitude hpos.ne', length_cons, significantDigits,
        if_neg (by omega)]
    · have hnonneg : ¬ (unsignedBe (first :: rest) : Int) < 0 := by omega
      rw [if_neg (mt (and_0x80_ne_zero_iff first).mp hhigh), if_neg hhigh, hexText,
        if_neg hnonneg, Int.natAbs_natCast, significantDigits]
      by_cases hzero : unsignedBe (first :: rest) = 0
      · rw [if_pos hzero, hzero]
        rfl
      · rw [if_neg hzero]
        rw [if_neg]
        rw [List.isEmpty_iff]
        exact Nat.toDigits_ne_nil

end Steel

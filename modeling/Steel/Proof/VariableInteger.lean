import Mathlib.Tactic.IntervalCases
import Steel.Lib.Leb128
import Steel.Utils.VariableInteger

/-!
# Variable-length integers are read back

The branch-free writers produce the bytes of the plain loop, the size is known beforehand, and the
readers take exactly these bytes from any input that starts with them.
-/

namespace Steel

open Leb128 List

/-! ### Reading -/

theorem marked_byte (digit : ℕ) :
    (UInt8.ofNat digit ||| 0x80) &&& 0x80 ≠ 0 ∧
      (UInt8.ofNat digit ||| 0x80).toNat &&& 127 = digit % 128 := by
  have hbyte : (UInt8.ofNat digit ||| 0x80).toNat = digit % 256 ||| 128 := by
    rw [UInt8.toNat_or, UInt8.toNat_ofNat']
    rfl
  constructor
  · intro h
    have hzero := congrArg UInt8.toNat h
    rw [UInt8.toNat_and, hbyte, Nat.and_or_distrib_right] at hzero
    exact absurd (Nat.or_eq_zero_iff.mp hzero).2 (by decide)
  · rw [hbyte, Nat.and_two_pow_sub_one_eq_mod _ 7, Nat.or_mod_two_pow]
    simp

theorem last_byte {digit : ℕ} (h : digit < 128) :
    UInt8.ofNat digit &&& 0x80 = 0 ∧ (UInt8.ofNat digit).toNat &&& 127 = digit := by
  have hbyte : (UInt8.ofNat digit).toNat = digit := by
    rw [UInt8.toNat_ofNat']
    omega
  constructor
  · apply UInt8.toNat_inj.mp
    have hmark := Nat.and_two_pow digit 7
    rw [Nat.testBit_lt_two_pow h] at hmark
    rw [UInt8.toNat_and, hbyte]
    exact hmark
  · rw [hbyte, Nat.and_two_pow_sub_one_eq_mod _ 7, Nat.mod_eq_of_lt h]

variable {width : ℕ}

theorem or_digits {low digit shift : ℕ} {byte : UInt8} (hlow : low < 2 ^ shift)
    (hbyte : byte.toNat &&& 127 = digit) :
    BitVec.ofNat width low ||| ((BitVec.ofNat width byte.toNat &&& 0x7F) <<< shift) =
      BitVec.ofNat width (low + 2 ^ shift * digit) := by
  have hmask : BitVec.ofNat width byte.toNat &&& 0x7F = BitVec.ofNat width digit := by
    rw [← hbyte]
    exact (BitVec.ofNat_and ..).symm
  have hshift : BitVec.ofNat width digit <<< shift = BitVec.ofNat width (digit <<< shift) := by
    apply BitVec.eq_of_toNat_eq
    rw [BitVec.toNat_shiftLeft, BitVec.toNat_ofNat, BitVec.toNat_ofNat, Nat.shiftLeft_eq,
      Nat.shiftLeft_eq, Nat.mod_mul_mod]
  rw [hmask, hshift, ← BitVec.ofNat_or, Nat.shiftLeft_eq, Nat.mul_comm, Nat.or_comm,
    ← Nat.two_pow_add_eq_or_of_lt hlow, Nat.add_comm]

theorem readDigits_encodeWidth {left i low k n : ℕ} (tooLong : IoError)
    (hleft : k < left) (hshift : (i + k) * 7 < width) (hlow : low < 2 ^ (i * 7))
    (hn : n < 128 ^ (k + 1)) (suffix : List UInt8) :
    readDigits width tooLong left i (BitVec.ofNat width low) (encodeWidth k n ++ suffix) =
      some (.ok (BitVec.ofNat width (low + 2 ^ (i * 7) * n), suffix)) := by
  induction k generalizing left i low n with
  | zero =>
    obtain ⟨left, rfl⟩ : ∃ l, left = l + 1 := ⟨left - 1, by omega⟩
    obtain ⟨hmark, hbits⟩ := last_byte (by simpa using hn)
    rw [encodeWidth, singleton_append, readDigits, if_neg (by omega)]
    simp only
    rw [if_pos hmark, or_digits hlow hbits]
  | succ k ih =>
    obtain ⟨left, rfl⟩ : ∃ l, left = l + 1 := ⟨left - 1, by omega⟩
    obtain ⟨hmark, hbits⟩ := marked_byte (n % 128)
    rw [Nat.mod_mod] at hbits
    have hdiv : n / 128 < 128 ^ (k + 1) := by
      rw [Nat.div_lt_iff_lt_mul (by decide), ← pow_succ]
      exact hn
    have hpow : 2 ^ ((i + 1) * 7) = 2 ^ (i * 7) * 128 := by
      rw [Nat.succ_mul, pow_add]
      rfl
    have hdigit : n % 128 + 1 ≤ 128 := Nat.mod_lt _ (by decide)
    have hnext : low + 2 ^ (i * 7) * (n % 128) < 2 ^ ((i + 1) * 7) := by
      calc low + 2 ^ (i * 7) * (n % 128) < 2 ^ (i * 7) * (n % 128 + 1) := by
            rw [Nat.mul_add]
            omega
        _ ≤ 2 ^ (i * 7) * 128 := Nat.mul_le_mul_left _ hdigit
        _ = 2 ^ ((i + 1) * 7) := hpow.symm
    have htotal : low + 2 ^ (i * 7) * (n % 128) + 2 ^ ((i + 1) * 7) * (n / 128) =
        low + 2 ^ (i * 7) * n := by
      rw [hpow, Nat.add_assoc, Nat.mul_assoc, ← Nat.mul_add, Nat.mod_add_div]
    rw [encodeWidth, cons_append, readDigits, if_neg (by omega)]
    simp only
    rw [if_neg hmark, or_digits hlow hbits, ih (by omega) (by omega) hnext hdiv, htotal]

theorem readDigits_encode {maxSize n : ℕ} {tooLong : IoError} (hsize : marked n < maxSize)
    (hshift : marked n * 7 < width) (suffix : List UInt8) :
    readDigits width tooLong maxSize 0 0 (encode n ++ suffix) =
      some (.ok (BitVec.ofNat width n, suffix)) := by
  have hread := readDigits_encodeWidth tooLong hsize (by rwa [Nat.zero_add]) Nat.one_pos
    (lt_marked n) suffix
  rw [Nat.zero_mul, pow_zero, Nat.one_mul, Nat.zero_add] at hread
  rw [encode_eq_marked]
  exact hread

theorem readDigits_unterminated {tooLong : IoError} (left i : ℕ) (val : BitVec width)
    {bytes : List UInt8} (hfits : ∀ j < left, (i + j) * 7 < width)
    (h : ∀ byte ∈ bytes.take left, byte &&& 0x80 ≠ 0) :
    ∃ error, readDigits width tooLong left i val bytes = Outcome.error error := by
  induction left generalizing i val bytes with
  | zero => exact ⟨tooLong, rfl⟩
  | succ left ih =>
    cases bytes with
    | nil => exact ⟨.unexpectedEof, rfl⟩
    | cons byte rest =>
      have hmark := h byte mem_cons_self
      have hshift := hfits 0 (Nat.succ_pos left)
      have hnext : ∀ j < left, (i + 1 + j) * 7 < width := by
        intro j hj
        have hlater := hfits (j + 1) (Nat.succ_lt_succ hj)
        omega
      rw [readDigits, if_neg (by omega)]
      simp only
      rw [if_neg hmark]
      exact ih (i + 1) _ hnext fun other hother => h other (mem_cons_of_mem byte hother)

/-- No shift is too far, so that there is a result; what is left is the end of the input. -/
theorem readDigits_total (tooLong : IoError) (left i : ℕ) (val : BitVec width)
    (bytes : List UInt8) (hfits : ∀ j < left, (i + j) * 7 < width) :
    (∃ error, readDigits width tooLong left i val bytes = Outcome.error error) ∨
      ∃ result rest, readDigits width tooLong left i val bytes = some (.ok (result, rest)) ∧
        rest <:+ bytes := by
  induction left generalizing i val bytes with
  | zero => exact .inl ⟨tooLong, rfl⟩
  | succ left ih =>
    cases bytes with
    | nil => exact .inl ⟨.unexpectedEof, rfl⟩
    | cons byte rest =>
      have hshift := hfits 0 (Nat.succ_pos left)
      have hnext : ∀ j < left, (i + 1 + j) * 7 < width := by
        intro j hj
        have hlater := hfits (j + 1) (Nat.succ_lt_succ hj)
        omega
      rw [readDigits, if_neg (by omega)]
      simp only
      split
      · exact .inr ⟨_, rest, rfl, suffix_cons byte rest⟩
      · obtain herror | ⟨result, left, hread, hsuffix⟩ := ih (i + 1) _ rest hnext
        · exact .inl herror
        · exact .inr ⟨result, left, hread, hsuffix.trans (suffix_cons byte rest)⟩

theorem or_digit_lt {i : ℕ} {val : BitVec width} (hval : val.toNat < 2 ^ (i * 7)) (byte : UInt8) :
    (val ||| ((BitVec.ofNat width byte.toNat &&& 0x7F) <<< (i * 7))).toNat <
      2 ^ ((i + 1) * 7) := by
  have hpow : 2 ^ ((i + 1) * 7) = 128 * 2 ^ (i * 7) := by
    rw [Nat.add_mul, Nat.pow_add, Nat.mul_comm]
  have hdigit : (BitVec.ofNat width byte.toNat &&& 0x7F).toNat ≤ 127 :=
    (BitVec.toNat_and .. ▸ Nat.and_le_right).trans (Nat.mod_le 127 _)
  rw [BitVec.toNat_or]
  apply Nat.or_lt_two_pow
  · exact hval.trans_le (Nat.pow_le_pow_right Nat.two_pos (by omega))
  · rw [BitVec.toNat_shiftLeft, Nat.shiftLeft_eq]
    refine (Nat.mod_le _ _).trans_lt ?_
    rw [hpow]
    exact Nat.mul_lt_mul_of_pos_right (Nat.lt_succ_of_le hdigit) (Nat.two_pow_pos _)

/-- Every byte that was read gives seven bits. -/
theorem readDigits_lt {tooLong : IoError} {left i : ℕ} {val result : BitVec width}
    {bytes rest : List UInt8} (hval : val.toNat < 2 ^ (i * 7))
    (h : readDigits width tooLong left i val bytes = some (.ok (result, rest))) :
    ∃ consumed, bytes.length = rest.length + (consumed + 1) ∧
      result.toNat < 2 ^ ((i + (consumed + 1)) * 7) := by
  induction left generalizing i val bytes with
  | zero => cases h
  | succ left ih =>
    cases bytes with
    | nil => cases h
    | cons byte bytes =>
      rw [readDigits] at h
      have hnext := or_digit_lt hval byte
      split_ifs at h with hwidth hlast
      · cases h
        exact ⟨0, rfl, hnext⟩
      · obtain ⟨consumed, hlength, hresult⟩ := ih hnext h
        refine ⟨consumed + 1, ?_, ?_⟩
        · rw [length_cons, hlength]
          rfl
        · rwa [Nat.add_comm (consumed + 1), ← Nat.add_assoc]

/-! ### Writing -/

theorem packPayload_eq_spread (value : ℕ) : VarInt.packPayload value = spread 8 value := by
  rw [spread_succ, spread_succ, spread_succ, spread_succ, spread_succ, spread_succ, spread_succ,
    spread_succ]
  have hzero : spread 0 value = 0 := rfl
  rw [hzero, Nat.zero_or]
  rfl

theorem mark_ofNat (value : ℕ) :
    UInt8.ofNat value ||| 0x80 = UInt8.ofNat (value % 128) ||| 0x80 := by
  apply UInt8.toNat_inj.mp
  rw [UInt8.toNat_or, UInt8.toNat_or, UInt8.toNat_ofNat', UInt8.toNat_ofNat']
  apply Nat.eq_of_testBit_eq
  intro i
  have hmark : UInt8.toNat 0x80 = 2 ^ 7 := rfl
  rw [Nat.testBit_or, Nat.testBit_or, Nat.testBit_mod_two_pow, Nat.testBit_mod_two_pow,
    Nat.testBit_mod_two_pow value 7, hmark, Nat.testBit_two_pow]
  by_cases hi : 7 = i
  · rw [decide_eq_true hi, Bool.or_true, Bool.or_true]
  · by_cases hlt : i < 7
    · rw [decide_eq_true hlt, Bool.true_and]
    · have hge : ¬ i < 8 := by omega
      rw [decide_eq_false hge, Bool.false_and, Bool.false_and]

theorem ofNat_eq_marked {value : ℕ} (hlow : 128 ≤ value) (hhigh : value < 256) :
    UInt8.ofNat value = UInt8.ofNat (value % 128) ||| 0x80 := by
  apply UInt8.toNat_inj.mp
  have hdigit : value % 128 < 2 ^ 7 := Nat.mod_lt _ (by decide)
  have hmark : UInt8.toNat 0x80 = 2 ^ 7 * 1 := rfl
  rw [UInt8.toNat_or, UInt8.toNat_ofNat', UInt8.toNat_ofNat', hmark, Nat.or_comm,
    Nat.mod_eq_of_lt (hdigit.trans (by decide)), ← Nat.two_pow_add_eq_or_of_lt hdigit]
  omega

namespace VarInt

theorem bytes_eq_encode {value : ℕ} (h : value < 2 ^ 32) : bytes value = encode value := by
  unfold bytes
  split_ifs with hone htwo hthree hfour
  · rw [encode, if_pos hone]
  · rw [encode_eq_encodeWidth (Or.inr (by omega)) (show value < 128 ^ (1 + 1) by omega), mark_ofNat,
      Nat.shiftRight_eq_div_pow]
    rfl
  · rw [encode_eq_encodeWidth (Or.inr (by omega)) (show value < 128 ^ (2 + 1) by omega), mark_ofNat,
      mark_ofNat (value >>> 7), Nat.shiftRight_eq_div_pow, Nat.shiftRight_eq_div_pow]
    have hdiv : value / 128 / 128 = value / 2 ^ 14 := Nat.div_div_eq_div_mul value 128 128
    rw [encodeWidth, encodeWidth, encodeWidth, hdiv]
  · rw [encode_eq_encodeWidth (Or.inr (by omega)) (show value < 128 ^ (3 + 1) by omega),
      toLeBytes_take (by decide), packPayload_eq_spread]
    exact toLeBytes_spread_or (by decide) (by omega) (by decide)
  · rw [encode_eq_encodeWidth (Or.inr (by omega)) (show value < 128 ^ (4 + 1) by omega),
      toLeBytes_take (by decide), packPayload_eq_spread]
    exact toLeBytes_spread_or (by decide) (by omega) (by decide)

variable (value : Int32)

theorem unsigned_lt : value.toUInt32.toNat < 2 ^ 32 := value.toUInt32.toNat_lt

/-- The word that is spread and marked at once has the bytes of the loop. -/
theorem write_eq_encode : write value = encode value.toUInt32.toNat :=
  bytes_eq_encode (unsigned_lt value)

theorem unsigned_eq_zero {value : Int32} : value.toUInt32.toNat = 0 ↔ value = 0 := by
  constructor
  · intro h
    have hzero : value.toUInt32 = 0 := UInt32.toNat_inj.mp h
    rw [← Int32.toInt32_toUInt32 value, hzero]
    rfl
  · rintro rfl
    rfl

theorem writtenSize_eq : writtenSize value = marked value.toUInt32.toNat + 1 := by
  unfold writtenSize marked
  have hsize : value.toUInt32.toNat.size ≤ 32 := Nat.size_le.mpr (unsigned_lt value)
  split_ifs with hzero
  · subst hzero
    rfl
  · have hpos : 0 < value.toUInt32.toNat.size :=
      Nat.size_pos.mpr (Nat.pos_of_ne_zero fun h => hzero (unsigned_eq_zero.mp h))
    rw [leadingZeros]
    congr 2
    omega

theorem writtenSize_le : writtenSize value ≤ maxSize := by
  have hsize : value.toUInt32.toNat.size ≤ 32 := Nat.size_le.mpr (unsigned_lt value)
  have hmarked := marked_le hsize
  rw [writtenSize_eq, maxSize]
  omega

theorem length_write : (write value).length = writtenSize value := by
  rw [write_eq_encode, encode_eq_marked, length_encodeWidth, writtenSize_eq]

theorem setInFront_eq (vec : FrontVec) :
    setInFront value vec (writtenSize value) = vec.setInFront (write value) := by
  have hle := writtenSize_le value
  have hpos : 1 ≤ writtenSize value := by
    rw [writtenSize_eq]
    omega
  have hn := lt_marked value.toUInt32.toNat
  rw [← writtenSize_eq] at hn
  have hbytes : ((toLeBytes 8 (packPayload value.toUInt32.toNat |||
      0x0080808080808080 >>> ((8 - writtenSize value) * 8))).take maxSize).take
        (writtenSize value) = write value := by
    rw [write_eq_encode, encode_eq_marked, take_take, Nat.min_eq_left hle,
      toLeBytes_take (hle.trans (by decide)), packPayload_eq_spread]
    rw [writtenSize_eq, maxSize] at hle
    rw [writtenSize_eq] at hn ⊢
    refine toLeBytes_spread_or (by omega) hn ?_
    generalize marked value.toUInt32.toNat = k at hle
    have hk : k ≤ 4 := by omega
    interval_cases k <;> rfl
  unfold setInFront
  rw [if_neg (fun h => h rfl), if_neg (by rw [maxSize] at hle; omega)]
  simp only
  rw [if_neg (not_lt.mpr hle), hbytes]

theorem read_write (suffix : List UInt8) :
    read (write value ++ suffix) = some (.ok (value, suffix)) := by
  have hle := marked_le (Nat.size_le.mpr (unsigned_lt value))
  have hvalue : BitVec.ofNat 32 value.toUInt32.toNat = value.toBitVec := by
    rw [UInt32.toNat, BitVec.ofNat_toNat, BitVec.setWidth_eq, Int32.toBitVec_toUInt32]
  rw [read, write_eq_encode, readDigits_encode (by rw [maxSize]; omega) (by omega),
    Outcome.ok_bind]
  simp only [hvalue, Int32.ofBitVec_toBitVec]
  rfl

theorem read_unterminated {bytes : List UInt8}
    (h : ∀ byte ∈ bytes.take maxSize, byte &&& 0x80 ≠ 0) :
    ∃ error, read bytes = Outcome.error error := by
  have hfits : ∀ j < maxSize, (0 + j) * 7 < 32 := by decide
  obtain ⟨error, hread⟩ := readDigits_unterminated maxSize 0 0 hfits h
  exact ⟨error, by rw [read, hread]; rfl⟩

theorem read_total (bytes : List UInt8) :
    (∃ error, read bytes = Outcome.error error) ∨
      ∃ value rest, read bytes = some (.ok (value, rest)) ∧ rest <:+ bytes := by
  have hfits : ∀ j < maxSize, (0 + j) * 7 < 32 := by decide
  obtain ⟨error, hread⟩ | ⟨result, rest, hread, hsuffix⟩ :=
    readDigits_total (.other "VarInt to long") maxSize 0 0 bytes hfits
  · exact .inl ⟨error, by rw [read, hread]; rfl⟩
  · exact .inr ⟨Int32.ofBitVec result, rest, by rw [read, hread]; rfl, hsuffix⟩

/-- A value is never written with more bytes than it was read from. -/
theorem writtenSize_le_of_read {bytes rest : List UInt8} {value : Int32}
    (h : read bytes = some (.ok (value, rest))) :
    writtenSize value + rest.length ≤ bytes.length := by
  rw [read] at h
  cases hdigits : readDigits 32 (.other "VarInt to long") maxSize 0 0 bytes with
  | none =>
    rw [hdigits] at h
    cases h
  | some result =>
    rw [hdigits] at h
    cases result with
    | error error => cases h
    | ok result =>
      cases h
      obtain ⟨consumed, hlength, hlt⟩ := readDigits_lt Nat.one_pos hdigits
      have hmarked := marked_le (Nat.size_le.mpr hlt)
      rw [writtenSize_eq]
      change marked result.1.toNat + 1 + result.2.length ≤ bytes.length
      omega

end VarInt

namespace VarLong

theorem unsigned_lt (value : Int64) : value.toUInt64.toNat < 2 ^ 64 := value.toUInt64.toNat_lt

theorem nonneg_iff (value : Int64) : 0 ≤ value ↔ value.toUInt64.toNat < 2 ^ 63 := by
  have hnat : value.toUInt64.toNat = value.toBitVec.toNat := by
    rw [UInt64.toNat, Int64.toBitVec_toUInt64]
  have hlt := unsigned_lt value
  have hint : value.toInt =
      if 2 * value.toBitVec.toNat < 2 ^ 64 then (value.toBitVec.toNat : Int)
      else (value.toBitVec.toNat : Int) - (2 ^ 64 : ℕ) := BitVec.toInt_eq_toNat_cond _
  have hzero : (0 : Int64).toInt = 0 := rfl
  rw [Int64.le_iff_toInt_le, hint, hzero, hnat]
  rw [hnat] at hlt
  split_ifs <;> omega

theorem short_bytes_eq {n k : ℕ} (hk : marked n = k) (hlow : 4 ≤ k) (hhigh : k ≤ 7) :
    (match k + 1 with
      | 5 => (toLeBytes 8
          (VarInt.packPayload n ||| 0x0080808080808080 >>> ((8 - (k + 1)) * 8))).take 5
      | 6 => (toLeBytes 8
          (VarInt.packPayload n ||| 0x0080808080808080 >>> ((8 - (k + 1)) * 8))).take 6
      | 7 => (toLeBytes 8
          (VarInt.packPayload n ||| 0x0080808080808080 >>> ((8 - (k + 1)) * 8))).take 7
      | _ => toLeBytes 8 (VarInt.packPayload n ||| 0x0080808080808080 >>> ((8 - (k + 1)) * 8))) =
      encode n := by
  have hn := lt_marked n
  rw [encode_eq_marked, packPayload_eq_spread]
  rw [hk] at hn ⊢
  interval_cases k
  · exact (toLeBytes_take (by decide) _).trans (toLeBytes_spread_or (by decide) hn (by decide))
  · exact (toLeBytes_take (by decide) _).trans (toLeBytes_spread_or (by decide) hn (by decide))
  · exact (toLeBytes_take (by decide) _).trans (toLeBytes_spread_or (by decide) hn (by decide))
  · exact toLeBytes_spread_or (by decide) hn (by decide)

theorem write_eq_encode (value : Int64) : write value = encode value.toUInt64.toNat := by
  have hlt := unsigned_lt value
  have hnonneg := nonneg_iff value
  unfold write
  simp only
  generalize value.toUInt64.toNat = n at hlt hnonneg ⊢
  split_ifs with hone htwo hlong hpositive
  · rw [encode, if_pos hone]
  · rw [VarInt.write_eq_encode, UInt32.toUInt32_toInt32, UInt32.toNat_ofNat',
      Nat.mod_eq_of_lt htwo]
  · -- nine bytes
    have hwidth : n < 128 ^ (8 + 1) := hnonneg.mp hpositive
    have hlast : encodeWidth 8 n = _ := encodeWidth_add 8 0 n
    rw [packPayload_eq_spread, toLeBytes_spread_or_all (by decide),
      encode_eq_encodeWidth (Or.inr hlong) hwidth, hlast, encodeWidth, Nat.shiftRight_eq_div_pow]
    rfl
  · -- ten bytes, the last of which holds the sign
    have hbig : 2 ^ 63 ≤ n := not_lt.mp fun h => hpositive (hnonneg.mpr h)
    have hwidth : n < 128 ^ (9 + 1) := hlt.trans (by decide)
    have hbyte : UInt8.ofNat (n >>> 56) = UInt8.ofNat (n / 128 ^ 8 % 128) ||| 0x80 := by
      rw [Nat.shiftRight_eq_div_pow]
      exact ofNat_eq_marked (by omega) (by omega)
    have hsign : n / 128 ^ 8 / 128 = 1 := by omega
    have hlast : encodeWidth 9 n = _ := encodeWidth_add 8 1 n
    rw [packPayload_eq_spread, toLeBytes_spread_or_all (by decide),
      encode_eq_encodeWidth (Or.inr hbig) hwidth, hlast, encodeWidth, encodeWidth, hsign, hbyte]
    rfl
  · have hsize : n.size ≤ 56 := Nat.size_le.mpr (by omega)
    have hlow : 32 < n.size := Nat.lt_size.mpr (by omega)
    have hcount : divCeil (64 - leadingZeros 64 n) 7 = marked n + 1 := by
      rw [divCeil, leadingZeros, marked]
      omega
    rw [hcount]
    exact short_bytes_eq rfl (by rw [marked]; omega) (by rw [marked]; omega)

theorem read_write (value : Int64) (suffix : List UInt8) :
    read (write value ++ suffix) = some (.ok (value, suffix)) := by
  have hle := marked_le (Nat.size_le.mpr (unsigned_lt value))
  have hvalue : BitVec.ofNat 64 value.toUInt64.toNat = value.toBitVec := by
    rw [UInt64.toNat, BitVec.ofNat_toNat, BitVec.setWidth_eq, Int64.toBitVec_toUInt64]
  rw [read, write_eq_encode, readDigits_encode (by rw [maxSize]; omega) (by omega),
    Outcome.ok_bind]
  simp only [hvalue, Int64.ofBitVec_toBitVec]
  rfl

theorem read_unterminated {bytes : List UInt8}
    (h : ∀ byte ∈ bytes.take maxSize, byte &&& 0x80 ≠ 0) :
    ∃ error, read bytes = Outcome.error error := by
  have hfits : ∀ j < maxSize, (0 + j) * 7 < 64 := by decide
  obtain ⟨error, hread⟩ := readDigits_unterminated maxSize 0 0 hfits h
  exact ⟨error, by rw [read, hread]; rfl⟩

end VarLong

/-- Both kinds of integers are written as the loop would, in the announced number of bytes and
directly before a payload, and are read back from in front of anything; input without a last byte
is refused. -/
theorem variableInteger_codec :
    (∀ value : Int32,
      VarInt.write value = encode value.toUInt32.toNat ∧
      VarInt.writtenSize value = (VarInt.write value).length ∧
      (∀ vec : FrontVec, VarInt.writtenSize value ≤ vec.frontSpace →
        ∃ result, VarInt.setInFront value vec (VarInt.writtenSize value) = some result ∧
          result.asSlice = VarInt.write value ++ vec.asSlice) ∧
      ∀ suffix, VarInt.read (VarInt.write value ++ suffix) = some (.ok (value, suffix))) ∧
    (∀ value : Int64,
      VarLong.write value = encode value.toUInt64.toNat ∧
      ∀ suffix, VarLong.read (VarLong.write value ++ suffix) = some (.ok (value, suffix))) ∧
    (∀ bytes : List UInt8, (∀ byte ∈ bytes.take VarInt.maxSize, byte &&& 0x80 ≠ 0) →
      ∃ error, VarInt.read bytes = Outcome.error error) ∧
    (∀ bytes : List UInt8, (∀ byte ∈ bytes.take VarLong.maxSize, byte &&& 0x80 ≠ 0) →
      ∃ error, VarLong.read bytes = Outcome.error error) := by
  refine ⟨fun value => ⟨VarInt.write_eq_encode value, (VarInt.length_write value).symm, ?_,
    VarInt.read_write value⟩, fun value => ⟨VarLong.write_eq_encode value,
      VarLong.read_write value⟩, fun _ => VarInt.read_unterminated,
    fun _ => VarLong.read_unterminated⟩
  intro vec hspace
  rw [← VarInt.length_write] at hspace
  obtain ⟨result, hset, hslice, -⟩ := FrontVec.setInFront_eq_some hspace
  exact ⟨result, by rw [VarInt.setInFront_eq, hset], hslice⟩

theorem variableInteger_codec_minusOne :
    (∃ result, VarInt.setInFront (-1) (FrontVec.new 5) (VarInt.writtenSize (-1)) = some result ∧
      result.asSlice = VarInt.write (-1) ++ (FrontVec.new 5).asSlice) ∧
    VarLong.read (VarLong.write (-1) ++ [7]) = some (.ok (-1, [7])) ∧
    (∃ error, VarInt.read [0x80, 0x81, 0xff, 0x80, 0x80, 0] = Outcome.error error) ∧
    ∃ error, VarLong.read [0x80] = Outcome.error error := by
  obtain ⟨hint, hlong, hintBytes, hlongBytes⟩ := variableInteger_codec
  refine ⟨(hint (-1)).2.2.1 (FrontVec.new 5) (VarInt.writtenSize_le (-1)), (hlong (-1)).2 [7],
    hintBytes _ ?_, hlongBytes _ (by simp [VarLong.maxSize])⟩
  simp only [VarInt.maxSize, take_succ_cons, take_zero, forall_mem_cons,
    not_mem_nil, false_imp_iff, implies_true, and_true]
  decide

end Steel

import Mathlib.Data.Nat.Size
import Steel.Lib.LittleEndian
import Steel.Lib.WordPacking

/-!
# Variable-length numbers

Seven bits of a number per byte, least significant first, with the high bit set in every byte but
the last. A number can be encoded by a loop, or by spreading its digits over the bytes of a word and
or-ing the marks into it.
-/

namespace Steel.Leb128

open List

def encode (n : ℕ) : List UInt8 :=
  if n < 128 then [UInt8.ofNat n]
  else (UInt8.ofNat (n % 128) ||| 0x80) :: encode (n / 128)

/-- The given number of marked bytes, then a last one. -/
def encodeWidth : ℕ → ℕ → List UInt8
  | 0, n => [UInt8.ofNat n]
  | width + 1, n => (UInt8.ofNat (n % 128) ||| 0x80) :: encodeWidth width (n / 128)

def digits : ℕ → ℕ → List ℕ
  | 0, _ => []
  | width + 1, n => n % 128 :: digits width (n / 128)

@[simp]
theorem length_encodeWidth (width n : ℕ) : (encodeWidth width n).length = width + 1 := by
  induction width generalizing n with
  | zero => rfl
  | succ width ih => rw [encodeWidth, length_cons, ih]

@[simp]
theorem length_digits (width n : ℕ) : (digits width n).length = width := by
  induction width generalizing n with
  | zero => rfl
  | succ width ih => rw [digits, length_cons, ih]

variable {width n : ℕ}

theorem digit_lt {digit : ℕ} (h : digit ∈ digits width n) : digit < 128 := by
  induction width generalizing n with
  | zero => exact absurd h not_mem_nil
  | succ width ih =>
    rcases mem_cons.mp h with rfl | hrest
    · exact Nat.mod_lt _ (by decide)
    · exact ih hrest

variable {keep : ℕ}

theorem digits_take (h : keep ≤ width) (n : ℕ) :
    (digits width n).take keep = digits keep n := by
  induction keep generalizing width n with
  | zero => rw [take_zero, digits]
  | succ keep ih =>
    obtain ⟨width, rfl⟩ : ∃ w, width = w + 1 := ⟨width - 1, by omega⟩
    rw [digits, take_succ_cons, ih (by omega), digits]

theorem encode_eq_encodeWidth (hlow : width = 0 ∨ 128 ^ width ≤ n)
    (hhigh : n < 128 ^ (width + 1)) : encode n = encodeWidth width n := by
  induction width generalizing n with
  | zero =>
    rw [encode, if_pos (by simpa using hhigh)]
    rfl
  | succ width ih =>
    have hle : 128 ^ (width + 1) ≤ n := hlow.resolve_left (Nat.succ_ne_zero width)
    have hpow : 128 ^ (width + 1) = 128 * 128 ^ width := pow_succ' 128 width
    have hpos : 1 ≤ 128 ^ width := Nat.one_le_pow _ _ (by decide)
    have hnot : ¬ n < 128 := by omega
    have hdiv : 128 ^ width ≤ n / 128 := by omega
    have hlt : n / 128 < 128 ^ (width + 1) := by
      rw [Nat.div_lt_iff_lt_mul (by decide), ← pow_succ]
      exact hhigh
    rw [encode, if_neg hnot, ih (Or.inr hdiv) hlt]
    rfl

def marked (n : ℕ) : ℕ := (n.size - 1) / 7

theorem marked_le {bits : ℕ} (h : n.size ≤ bits) : marked n ≤ (bits - 1) / 7 :=
  Nat.div_le_div_right (Nat.sub_le_sub_right h 1)

theorem lt_marked (n : ℕ) : n < 128 ^ (marked n + 1) := by
  rw [← Nat.pow_mul 2 7]
  apply Nat.size_le.mp
  rw [marked]
  omega

theorem encode_eq_marked (n : ℕ) : encode n = encodeWidth (marked n) n := by
  refine encode_eq_encodeWidth ?_ (lt_marked n)
  by_cases hzero : marked n = 0
  · exact Or.inl hzero
  · right
    rw [← Nat.pow_mul 2 7]
    apply Nat.lt_size.mp
    rw [marked] at hzero ⊢
    omega

theorem encodeWidth_add (first second n : ℕ) :
    encodeWidth (first + second) n =
      (digits first n).map (fun digit => UInt8.ofNat digit ||| 0x80) ++
        encodeWidth second (n / 128 ^ first) := by
  induction first generalizing n with
  | zero => rw [Nat.zero_add, digits, map_nil, nil_append, pow_zero, Nat.div_one]
  | succ first ih =>
    rw [Nat.succ_add, encodeWidth, ih, digits, map_cons, cons_append,
      Nat.div_div_eq_div_mul, pow_succ']

/-! ### Spreading digits over a word -/

theorem ofNat_or (a b : ℕ) : UInt8.ofNat (a ||| b) = UInt8.ofNat a ||| UInt8.ofNat b := by
  apply UInt8.toNat_inj.mp
  rw [UInt8.toNat_or, UInt8.toNat_ofNat', UInt8.toNat_ofNat', UInt8.toNat_ofNat',
    Nat.or_mod_two_pow]

theorem toLeBytes_or (width a b : ℕ) :
    toLeBytes width (a ||| b) = List.zipWith (· ||| ·) (toLeBytes width a) (toLeBytes width b) := by
  induction width generalizing a b with
  | zero => rfl
  | succ width ih =>
    have hdiv : (a ||| b) / 256 = a / 256 ||| b / 256 := Nat.or_div_two_pow (n := 8)
    rw [toLeBytes, toLeBytes, toLeBytes, zipWith_cons_cons, hdiv, ih, ofNat_or]

theorem toLeBytes_packWord {entries : List ℕ} (h : ∀ entry ∈ entries, entry < 256) :
    toLeBytes entries.length (WordPacking.packWord 8 entries) = entries.map UInt8.ofNat := by
  induction entries with
  | nil => rfl
  | cons entry rest ih =>
    have hentry := h entry mem_cons_self
    have hlow : UInt8.ofNat (entry + 2 ^ 8 * WordPacking.packWord 8 rest) = UInt8.ofNat entry := by
      apply UInt8.toNat_inj.mp
      rw [UInt8.toNat_ofNat', UInt8.toNat_ofNat', Nat.add_mul_mod_self_left]
    have hhigh : (entry + 2 ^ 8 * WordPacking.packWord 8 rest) / 256 =
        WordPacking.packWord 8 rest := by omega
    rw [length_cons, WordPacking.packWord, toLeBytes, hlow, hhigh,
      ih fun e he => h e (mem_cons_of_mem _ he), map_cons]

/-- The digits of a number, one in each byte of a word. -/
def spread (width n : ℕ) : ℕ := WordPacking.packWord 8 (digits width n)

theorem toLeBytes_spread (h : keep ≤ width) (n : ℕ) :
    toLeBytes keep (spread width n) = (digits keep n).map UInt8.ofNat := by
  have hbyte : ∀ digit ∈ digits width n, digit < 256 :=
    fun digit hdigit => (digit_lt hdigit).trans (by decide)
  have hbytes := toLeBytes_packWord hbyte
  rw [length_digits] at hbytes
  rw [← toLeBytes_take h, spread, hbytes, ← map_take, digits_take h]

theorem toLeBytes_spread_or {marks : ℕ} (h : keep + 1 ≤ width)
    (hn : n < 128 ^ (keep + 1))
    (hmarks : toLeBytes (keep + 1) marks = List.replicate keep 0x80 ++ [0]) :
    toLeBytes (keep + 1) (spread width n ||| marks) = encodeWidth keep n := by
  rw [toLeBytes_or, toLeBytes_spread h, hmarks]
  clear hmarks h
  induction keep generalizing n with
  | zero =>
    have hdigit : n % 128 = n := Nat.mod_eq_of_lt (by simpa using hn)
    simp [digits, encodeWidth, hdigit]
  | succ keep ih =>
    have hdiv : n / 128 < 128 ^ (keep + 1) := by
      rw [Nat.div_lt_iff_lt_mul (by decide), ← pow_succ]
      exact hn
    rw [digits, map_cons, replicate_succ, cons_append, zipWith_cons_cons,
      ih hdiv, encodeWidth]

theorem toLeBytes_spread_or_all {marks : ℕ}
    (hmarks : toLeBytes width marks = List.replicate width 0x80) :
    toLeBytes width (spread width n ||| marks) =
      (digits width n).map fun digit => UInt8.ofNat digit ||| 0x80 := by
  rw [toLeBytes_or, toLeBytes_spread le_rfl, hmarks, zipWith_map_left]
  generalize hdigits : digits width n = ds
  have hlength : ds.length = width := by rw [← hdigits, length_digits]
  subst hlength
  clear hdigits hmarks
  induction ds with
  | nil => rfl
  | cons digit rest ih =>
    rw [length_cons, replicate_succ, zipWith_cons_cons, ih, map_cons]

theorem and_shiftLeft_digit (n shift : ℕ) :
    n &&& (127 <<< shift) = (n / 2 ^ shift % 128) <<< shift := by
  have hlow : n / 2 ^ shift % 128 = (n >>> shift) &&& 127 := by
    rw [Nat.and_two_pow_sub_one_eq_mod _ 7, Nat.shiftRight_eq_div_pow]
  rw [hlow]
  apply Nat.eq_of_testBit_eq
  intro i
  rw [Nat.testBit_and, Nat.testBit_shiftLeft, Nat.testBit_shiftLeft, Nat.testBit_and,
    Nat.testBit_shiftRight]
  by_cases hi : shift ≤ i
  · rw [Nat.add_sub_cancel' hi, decide_eq_true hi, Bool.true_and, Bool.true_and]
  · rw [decide_eq_false hi, Bool.false_and, Bool.and_false, Bool.false_and]

theorem digits_succ_last (width n : ℕ) :
    digits (width + 1) n = digits width n ++ [n / 128 ^ width % 128] := by
  induction width generalizing n with
  | zero => rw [digits, digits, digits, pow_zero, Nat.div_one, nil_append]
  | succ width ih =>
    rw [digits, ih, digits, cons_append, Nat.div_div_eq_div_mul, ← pow_succ']

theorem spread_succ (width n : ℕ) :
    spread (width + 1) n = spread width n ||| ((n &&& (127 <<< (7 * width))) <<< width) := by
  have hbyte : ∀ digit ∈ digits width n, digit < 2 ^ 8 :=
    fun digit hdigit => (digit_lt hdigit).trans (by decide)
  have hlt := WordPacking.packWord_lt hbyte
  have hshift : 7 * width + width = width * 8 := by omega
  rw [and_shiftLeft_digit, ← Nat.shiftLeft_add, hshift, Nat.pow_mul 2 7, spread, spread,
    digits_succ_last, WordPacking.packWord_append, length_digits, WordPacking.packWord,
    WordPacking.packWord, Nat.mul_zero, Nat.add_zero, Nat.shiftLeft_eq, Nat.or_comm,
    Nat.mul_comm (_ % _)]
  rw [length_digits] at hlt
  rw [← Nat.two_pow_add_eq_or_of_lt hlt, Nat.add_comm]

end Steel.Leb128

import Mathlib.Tactic.Ring

/-!
# Little-endian bytes

A number as a given number of bytes, least significant first. Decoding what was encoded gives the
number back up to what the bytes can hold.
-/

namespace Steel

def toLeBytes : ℕ → ℕ → List UInt8
  | 0, _ => []
  | width + 1, n => UInt8.ofNat n :: toLeBytes width (n / 256)

def fromLeBytes : List UInt8 → ℕ
  | [] => 0
  | byte :: rest => byte.toNat + 256 * fromLeBytes rest

@[simp]
theorem length_toLeBytes (width n : ℕ) : (toLeBytes width n).length = width := by
  induction width generalizing n with
  | zero => rfl
  | succ width ih => rw [toLeBytes, List.length_cons, ih]

theorem fromLeBytes_toLeBytes (width n : ℕ) :
    fromLeBytes (toLeBytes width n) = n % 256 ^ width := by
  induction width generalizing n with
  | zero => rw [toLeBytes, fromLeBytes, pow_zero, Nat.mod_one]
  | succ width ih =>
    have hbyte : (UInt8.ofNat n).toNat = n % 256 := by simp
    rw [toLeBytes, fromLeBytes, ih, hbyte, pow_succ', Nat.mod_mul]

theorem fromLeBytes_lt (bytes : List UInt8) : fromLeBytes bytes < 256 ^ bytes.length := by
  induction bytes with
  | nil => exact Nat.one_pos
  | cons byte rest ih =>
    have hbyte := byte.toNat_lt
    rw [fromLeBytes, List.length_cons, pow_succ']
    omega

theorem toLeBytes_take {width : ℕ} {keep : ℕ} (h : keep ≤ width) (n : ℕ) :
    (toLeBytes width n).take keep = toLeBytes keep n := by
  induction keep generalizing width n with
  | zero => rw [List.take_zero, toLeBytes]
  | succ keep ih =>
    obtain ⟨width, rfl⟩ : ∃ w, width = w + 1 := ⟨width - 1, by omega⟩
    rw [toLeBytes, List.take_succ_cons, ih (by omega), toLeBytes]

end Steel

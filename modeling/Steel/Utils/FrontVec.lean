import Mathlib.Data.List.TakeDrop

/-!
# Vectors with reserved space at the front
-/

namespace Steel

open List

/-- Bytes behind reserved space, which is part of the buffer. -/
structure FrontVec where
  buf : List UInt8
  frontSpace : ℕ
  frontSpace_le : frontSpace ≤ buf.length

namespace FrontVec

def new (reserve : ℕ) : FrontVec :=
  { buf := List.replicate reserve 0, frontSpace := reserve, frontSpace_le := by simp }

variable (vec : FrontVec)

def extendFromSlice (other : List UInt8) : FrontVec :=
  { vec with
    buf := vec.buf ++ other
    frontSpace_le := by
      rw [length_append]
      exact Nat.le_trans vec.frontSpace_le (Nat.le_add_right _ _) }

def len : ℕ := vec.buf.length - vec.frontSpace

def asSlice : List UInt8 := vec.buf.drop vec.frontSpace

/-- Overwrite the end of the reserved space. Too little of it is a panic. -/
def setInFront (other : List UInt8) : Option FrontVec :=
  if h : other.length ≤ vec.frontSpace then
    some
      { buf := vec.buf.take (vec.frontSpace - other.length) ++ other ++ vec.buf.drop vec.frontSpace
        frontSpace := vec.frontSpace - other.length
        frontSpace_le := by
          have hspace := vec.frontSpace_le
          rw [length_append, length_append, length_take]
          omega }
  else none

theorem setInFront_eq_some {vec : FrontVec} {other : List UInt8}
    (h : other.length ≤ vec.frontSpace) :
    ∃ result, vec.setInFront other = some result ∧ result.asSlice = other ++ vec.asSlice ∧
      result.frontSpace = vec.frontSpace - other.length := by
  refine ⟨_, dif_pos h, ?_, rfl⟩
  have hspace := vec.frontSpace_le
  have hlength : (vec.buf.take (vec.frontSpace - other.length)).length =
      vec.frontSpace - other.length := by
    rw [length_take]
    omega
  change (vec.buf.take (vec.frontSpace - other.length) ++ other ++ vec.asSlice).drop
    (vec.frontSpace - other.length) = other ++ vec.asSlice
  rw [append_assoc, drop_left' hlength]

theorem len_eq : vec.len = vec.asSlice.length := (length_drop ..).symm

theorem asSlice_new (reserve : ℕ) : (new reserve).asSlice = [] := by
  rw [asSlice, drop_eq_nil_iff]
  exact Nat.le_of_eq length_replicate

theorem asSlice_extendFromSlice (other : List UInt8) :
    (vec.extendFromSlice other).asSlice = vec.asSlice ++ other :=
  drop_append_of_le_length vec.frontSpace_le

end FrontVec

end Steel

import Mathlib.Data.Finset.Card
import Mathlib.Order.Bounds.Basic
import Mathlib.Order.WellFounded

/-!
# Chunk and block positions

Coordinates are integers. The source stores them as `i32`; an operation that wraps says so where it
is defined, and `ChunkPos.InRange` is the range of the machine type.
-/

namespace Steel

open List

structure ChunkPos where
  x : Int
  y : Int
deriving DecidableEq, Repr

def wrapI32 (n : Int) : Int := Int.bmod n 4294967296

def wrapI64 (n : Int) : Int := Int.bmod n 18446744073709551616

theorem wrapI32_eq_self {n : Int} (h : -2147483648 ≤ n ∧ n < 2147483648) : wrapI32 n = n := by
  unfold wrapI32
  rw [Int.bmod_def]
  split_ifs <;> omega

theorem wrapI32_wrapI32_add (n m : Int) : wrapI32 (wrapI32 n + m) = wrapI32 (n + m) :=
  Int.bmod_add_bmod

theorem wrapI32_mem (n : Int) : -2147483648 ≤ wrapI32 n ∧ wrapI32 n < 2147483648 := by
  unfold wrapI32
  rw [Int.bmod_def]
  split_ifs <;> omega

theorem wrapI32_add_injective {n a a' : Int} (h : wrapI32 (n + a) = wrapI32 (n + a'))
    (hsmall : (a - a').natAbs < 4294967296) : a = a' := by
  simp only [wrapI32, Int.bmod_def] at h
  omega

namespace ChunkPos

def InRange (pos : ChunkPos) : Prop :=
  (-2147483648 ≤ pos.x ∧ pos.x < 2147483648) ∧ (-2147483648 ≤ pos.y ∧ pos.y < 2147483648)

instance (pos : ChunkPos) : Decidable pos.InRange :=
  inferInstanceAs (Decidable ((-2147483648 ≤ pos.x ∧ pos.x < 2147483648) ∧
    (-2147483648 ≤ pos.y ∧ pos.y < 2147483648)))

def keyLe (left right : ChunkPos) : Bool :=
  decide (left.x < right.x ∨ left.x = right.x ∧ left.y ≤ right.y)

def chebyshev (p q : ChunkPos) : ℕ := max (p.x - q.x).natAbs (p.y - q.y).natAbs

end ChunkPos

structure BlockPos where
  x : Int
  y : Int
  z : Int
deriving DecidableEq, Repr

inductive Direction where
  | down
  | up
  | north
  | south
  | west
  | east
deriving DecidableEq, Repr

def Direction.offset : Direction → Int × Int × Int
  | down => (0, -1, 0)
  | up => (0, 1, 0)
  | north => (0, 0, -1)
  | south => (0, 0, 1)
  | west => (-1, 0, 0)
  | east => (1, 0, 0)

inductive Axis where
  | x
  | y
  | z
deriving DecidableEq, Repr

def Direction.getAxis : Direction → Axis
  | down | up => .y
  | north | south => .z
  | west | east => .x

def Direction.opposite : Direction → Direction
  | down => up
  | up => down
  | north => south
  | south => north
  | west => east
  | east => west

def Direction.all : List Direction :=
  [down, up, north, south, west, east]

def Direction.horizontal : List Direction :=
  [north, east, south, west]

def BlockPos.relative (pos : BlockPos) (direction : Direction) : BlockPos :=
  { x := wrapI32 (pos.x + direction.offset.1)
    y := wrapI32 (pos.y + direction.offset.2.1)
    z := wrapI32 (pos.z + direction.offset.2.2) }

/-- The range of the machine type. -/
def BlockPos.InRange (pos : BlockPos) : Prop :=
  (-2147483648 ≤ pos.x ∧ pos.x < 2147483648) ∧ (-2147483648 ≤ pos.y ∧ pos.y < 2147483648) ∧
    (-2147483648 ≤ pos.z ∧ pos.z < 2147483648)

theorem BlockPos.InRange.relative_relative_opposite {pos : BlockPos} (h : pos.InRange)
    (direction : Direction) : (pos.relative direction).relative direction.opposite = pos := by
  obtain ⟨hx, hy, hz⟩ := h
  cases pos
  cases direction <;>
    simp only [relative, Direction.opposite, Direction.offset, wrapI32_wrapI32_add, mk.injEq] <;>
    refine ⟨?_, ?_, ?_⟩ <;>
    exact (congrArg wrapI32 (by omega)).trans (wrapI32_eq_self ‹_›)

end Steel

import Mathlib.Algebra.Group.Nat.Defs
import Mathlib.Data.Nat.Size

/-!
# Machine integers, errors, ids and block states

Counters are natural numbers. Where the source checks a counter against the end of its type, the
model does too; where a value can wrap, the operation says so.
-/

namespace Steel

def u64Max : ℕ := 2 ^ 64 - 1

def usizeMax : ℕ := 2 ^ 64 - 1

def addU32 (a b : ℕ) : ℕ := (a + b) % 4294967296

def addU16 (a b : ℕ) : ℕ := (a + b) % 65536

def predU16 (a : ℕ) : ℕ := (a + 65535) % 65536

def divCeil (n d : ℕ) : ℕ := (n + d - 1) / d

theorem div_lt_divCeil {index length d : ℕ} (hd : 0 < d) (h : index < length) :
    index / d < divCeil length d := by
  have hlt : index / d * d < length := Nat.lt_of_le_of_lt (Nat.div_mul_le_self index d) h
  rw [divCeil, Nat.lt_iff_add_one_le, Nat.le_div_iff_mul_le hd, Nat.add_mul, Nat.one_mul]
  omega

def ceilLog2 (n : ℕ) : ℕ := if n ≤ 1 then 0 else (n - 1).size

inductive IoError where
  | invalidData (message : String)
  | invalidInput (message : String)
  | other (message : String)
  | unexpectedEof
  | failed
deriving DecidableEq, Repr

/-! ### Unique ids, identifiers and block states -/

abbrev Uuid := BitVec 128

structure Identifier where
  nameSpace : String
  path : String
deriving DecidableEq, Repr

def Identifier.le (left right : Identifier) : Bool :=
  if left.path = right.path then decide (left.nameSpace ≤ right.nameSpace)
  else decide (left.path < right.path)

structure BlockStateId where
  id : UInt16
deriving DecidableEq, Repr

/-! ### Results that can also be panics -/

abbrev Outcome (α : Type) := ExceptT IoError Option α

namespace Outcome

variable {α β : Type}

def error (e : IoError) : Outcome α := some (.error e)

theorem ok_bind (a : α) (f : α → Outcome β) :
    @bind (ExceptT IoError Option) _ α β (some (.ok a)) f = f a := rfl

end Outcome

end Steel

import Mathlib.Data.Int.Order.Basic

/-!
# Item stacks

A stack is an item with a count and a patch of the item's components. What the registry says about
items is given by `Items`: patched components are compared by their effective values.
-/

namespace Steel

/-- The registered items, where `I` are the items, `P` the patches, `C` the effective components and
`T` the tags. -/
structure Items (I P C T : Type) where
  air : I
  emptyPatch : P
  effective : I → P → C
  /-- The component `MAX_STACK_SIZE`, which is registered with a range, or 1. -/
  maxStackSize : C → ℤ
  maxStackSize_range : ∀ components, 1 ≤ maxStackSize components ∧ maxStackSize components ≤ 99
  /-- A damageable item that has taken damage. -/
  isDamaged : C → Bool
  isInTag : I → T → Bool
  craftRemainder : I → Option I
  /-- The component `BANNER_PATTERNS` with a layer. -/
  hasBannerLayers : C → Bool
  hasWrittenBookContent : C → Bool

/-- Air and one other item, without components. -/
def Items.one : Items Bool Unit Unit Unit :=
  { air := false
    emptyPatch := ()
    effective := fun _ _ => ()
    maxStackSize := fun _ => 64
    maxStackSize_range := fun _ => by decide
    isDamaged := fun _ => false
    isInTag := fun _ _ => false
    craftRemainder := fun _ => none
    hasBannerLayers := fun _ => false
    hasWrittenBookContent := fun _ => false }

@[ext]
structure ItemStack (I P : Type) where
  item : I
  count : ℤ
  patch : P
  deriving DecidableEq

namespace ItemStack

variable {I P C T : Type} [DecidableEq I] [DecidableEq C] (items : Items I P C T)

def empty : ItemStack I P := { item := items.air, count := 0, patch := items.emptyPatch }

def new (item : I) : ItemStack I P := { item, count := 1, patch := items.emptyPatch }

variable (stack : ItemStack I P)

def isEmpty : Bool := stack.item = items.air || stack.count ≤ 0

/-- The method `item`, which is air for an empty stack. -/
def itemOrAir : I := if stack.isEmpty items then items.air else stack.item

/-- The method `count`, which is 0 for an empty stack. -/
def countOrZero : ℤ := if stack.isEmpty items then 0 else stack.count

def grow (amount : ℤ) : ItemStack I P :=
  { stack with count := stack.count + amount }

def shrink (amount : ℤ) : ItemStack I P :=
  { stack with count := stack.count - amount }

def split (amount : ℤ) : ItemStack I P × ItemStack I P :=
  let take := min amount stack.count
  ({ stack with count := take }, stack.shrink take)

def copyWithCount (count : ℤ) : ItemStack I P :=
  if stack.isEmpty items then empty items else { stack with count }

def componentsEqual (left right : ItemStack I P) : Bool :=
  items.effective left.item left.patch = items.effective right.item right.patch

def isSameItemSameComponents (left right : ItemStack I P) : Bool :=
  left.itemOrAir items = right.itemOrAir items &&
    (left.isEmpty items && right.isEmpty items || left.componentsEqual items right)

def maxStackSize : ℤ :=
  if stack.isEmpty items then 1 else items.maxStackSize (items.effective stack.item stack.patch)

def isDamaged : Bool :=
  !stack.isEmpty items && items.isDamaged (items.effective stack.item stack.patch)

def isStackable : Bool :=
  1 < stack.maxStackSize items && !stack.isDamaged items

omit [DecidableEq C] in
theorem isEmpty_eq_false {stack : ItemStack I P} :
    stack.isEmpty items = false ↔ stack.item ≠ items.air ∧ 0 < stack.count := by
  simp [isEmpty]

end ItemStack

end Steel

import Mathlib.Algebra.GroupWithZero.Nat
import Mathlib.Logic.Function.Basic
import Steel.Registry.ItemStack

/-!
# Adding to the inventory of a player

The main slots come first, then the armor, the offhand and the other equipment. A stack goes to what
it can be merged with and after that to the empty main slots.
-/

namespace Steel

open List

variable {I P C T : Type} [DecidableEq I] [DecidableEq C] (items : Items I P C T)

structure PlayerInventory (I P : Type) where
  items : Fin 43 → ItemStack I P
  selected : Fin 9
  timesChanged : ℕ

namespace PlayerInventory

def slotOffhand : Fin 43 := ⟨40, by decide⟩

def mainSlots : List (Fin 43) := (finRange 36).map (Fin.castLE (by decide))

variable (inventory : PlayerInventory I P)

def selectedSlot : Fin 43 :=
  inventory.selected.castLE (by decide)

def getMaxStackSize : ℤ := 99

def getMaxStackSizeForItem (stack : ItemStack I P) : ℤ :=
  min getMaxStackSize (stack.maxStackSize items)

/-- The slots, what is left of the stack, and whether something has changed. -/
structure Adding (I P : Type) where
  items : Fin 43 → ItemStack I P
  stack : ItemStack I P
  changed : Bool

def mergeSlot (maxSize : ℤ) (adding : Adding I P) (slot : Fin 43) : Adding I P :=
  let existing := adding.items slot
  if adding.stack.isEmpty items then adding
  else if !existing.isEmpty items && existing.isSameItemSameComponents items adding.stack then
    let space := maxSize - existing.countOrZero items
    if 0 < space then
      let toAdd := min (adding.stack.countOrZero items) space
      { items := Function.update adding.items slot (existing.grow toAdd)
        stack := adding.stack.shrink toAdd
        changed := true }
    else adding
  else adding

def placeSlot (maxSize : ℤ) (adding : Adding I P) (slot : Fin 43) : Adding I P :=
  if adding.stack.isEmpty items then adding
  else if (adding.items slot).isEmpty items then
    let toPlace := min (adding.stack.countOrZero items) maxSize
    let (placed, left) := adding.stack.split toPlace
    { items := Function.update adding.items slot placed, stack := left, changed := true }
  else adding

/-- The slots a stack can be merged into, in the order they are tried. -/
def mergeSlots : List (Fin 43) :=
  [inventory.selectedSlot, slotOffhand] ++
    mainSlots.filter fun slot => slot ≠ inventory.selectedSlot

/-- Whether the stack has become empty, the inventory, and what is left of the stack. -/
def add (stack : ItemStack I P) : Bool × PlayerInventory I P × ItemStack I P :=
  if stack.isEmpty items then (true, inventory, stack)
  else
    let maxSize := getMaxStackSizeForItem items stack
    let merged := if stack.isStackable items then
        inventory.mergeSlots.foldl (mergeSlot items maxSize)
          { items := inventory.items, stack, changed := false }
      else { items := inventory.items, stack, changed := false }
    let added := mainSlots.foldl (placeSlot items maxSize) merged
    (added.stack.isEmpty items,
      { inventory with
        items := added.items
        timesChanged := if added.changed then (inventory.timesChanged + 1) % 2 ^ 32
          else inventory.timesChanged },
      added.stack)

end PlayerInventory

end Steel

import Steel.Inventory.PlayerInventory
import Steel.Registry.Crafting

/-!
# Taking the result of a crafting grid

The recipe is found for the grid without its empty margins. Taking the result uses up one of every
stack, and what the used stacks leave behind goes back to their slots or to the player.
-/

namespace Steel

open List

inductive RecipeKind where
  | bannerDuplicate
  | bookCloning
  | other

/-- A registered recipe with `matches` and `assemble_recipe` for it. -/
structure CraftingRecipe (I P : Type) where
  kind : RecipeKind
  matchesInput : CraftingInput I P → Bool
  assembleRecipe : CraftingInput I P → ItemStack I P

variable {I P C T : Type} [DecidableEq I] [DecidableEq C] (items : Items I P C T)

def getCraftingRemainder (item : I) : ItemStack I P :=
  match items.craftRemainder item with
  | some remainder => .new items remainder
  | none => .empty items

namespace RecipeManager

variable (recipes : List (CraftingRecipe I P))

variable (crafting : CraftingInput I P)

def findRecipe : Option (CraftingRecipe I P) :=
  let input := (crafting.positioned items).input
  if input.ingredientCount items = 0 then none
  else recipes.find? fun recipe => recipe.matchesInput input

def assembleForContainer : Option (ItemStack I P) :=
  (findRecipe items recipes crafting).map fun recipe =>
    recipe.assembleRecipe (crafting.positioned items).input

def hasLayers (stack : ItemStack I P) : Bool :=
  !stack.isEmpty items && items.hasBannerLayers (items.effective stack.item stack.patch)

def hasContent (stack : ItemStack I P) : Bool :=
  !stack.isEmpty items && items.hasWrittenBookContent (items.effective stack.item stack.patch)

def ownRemainder (stack : ItemStack I P) : ItemStack I P :=
  if stack.isEmpty items then .empty items else getCraftingRemainder items (stack.itemOrAir items)

/-- The loop over the banners. -/
def keepLayered (used remainders : List (ItemStack I P)) : List (ItemStack I P) :=
  zipWith (fun stack remainder =>
    if remainder.isEmpty items && hasLayers items stack then stack.copyWithCount items 1
    else remainder) used remainders

/-- The loop over the books, which ends with the first that is kept. -/
def keepWritten : List (ItemStack I P) → List (ItemStack I P) → List (ItemStack I P)
  | stack :: used, remainder :: remainders =>
    if remainder.isEmpty items && hasContent items stack then
      stack.copyWithCount items 1 :: remainders
    else remainder :: keepWritten used remainders
  | _, remainders => remainders

def getRemainingItems : Option (List (ItemStack I P) × PositionedCraftingInput I P) :=
  let positioned := crafting.positioned items
  (findRecipe items recipes crafting).map fun recipe =>
    let used := positioned.input.items
    let remainders := used.map (ownRemainder items)
    match recipe.kind with
    | .bannerDuplicate => (keepLayered items used remainders, positioned)
    | .bookCloning => (keepWritten items used remainders, positioned)
    | .other => (remainders, positioned)

end RecipeManager

/-- The handler is made for the grid of its menu. -/
structure CraftingHandler (I P : Type) where
  gridSize : ℕ
  crafting : CraftingInput I P
  width_eq : crafting.width = gridSize
  result : ItemStack I P

/-- The items of a player, with what has been dropped. -/
structure PlayerItems (I P : Type) where
  inventory : PlayerInventory I P
  /-- Whether the guard has locked the inventory. -/
  locked : Bool
  dropped : List (ItemStack I P)

def PlayerItems.addItemOrDrop (player : PlayerItems I P) (item : ItemStack I P) :
    PlayerItems I P :=
  if item.isEmpty items then player
  else if player.locked then
    let (added, inventory, left) := player.inventory.add items item
    if !added || !left.isEmpty items then
      { player with inventory, dropped := left :: player.dropped }
    else { player with inventory }
  else { player with dropped := item :: player.dropped }

def CraftingInput.setItem (crafting : CraftingInput I P) (slot : ℕ) (stack : ItemStack I P) :
    CraftingInput I P :=
  { crafting with
    items := crafting.items.set slot stack
    size := by rw [length_set, crafting.size] }

namespace CraftingHandler

def setItem (handler : CraftingHandler I P) (slot : ℕ) (stack : ItemStack I P) :
    CraftingHandler I P :=
  { handler with crafting := handler.crafting.setItem slot stack }

def updateResult (recipes : List (CraftingRecipe I P)) (handler : CraftingHandler I P) :
    CraftingHandler I P :=
  { handler with
    result := (RecipeManager.assembleForContainer items recipes handler.crafting).getD
      (.empty items) }

def useOne (stack : ItemStack I P) : ItemStack I P :=
  if stack.isEmpty items then stack else stack.shrink 1

/-- A turn of the loop over the input, with the remainders for the player. A slot that is not in the
grid panics. -/
def takeCell (remainders : List (ItemStack I P)) (positioned : PositionedCraftingInput I P)
    (taking : CraftingHandler I P × List (ItemStack I P)) (cell : ℕ × ℕ) :
    Option (CraftingHandler I P × List (ItemStack I P)) :=
  let (handler, overflow) := taking
  let gridSlot := positioned.toGridSlot cell.1 cell.2 handler.gridSize
  let replacement := remainders.getD (cell.1 + cell.2 * positioned.input.width) (.empty items)
  match handler.crafting.items[gridSlot]? with
  | none => none
  | some item =>
    let current := useOne items item
    if replacement.isEmpty items then some (handler.setItem gridSlot current, overflow)
    else if current.isEmpty items then some (handler.setItem gridSlot replacement, overflow)
    else if current.isSameItemSameComponents items replacement then
      some (handler.setItem gridSlot (current.grow (replacement.countOrZero items)), overflow)
    else some (handler.setItem gridSlot current, overflow ++ [replacement])

def onResultTaken (recipes : List (CraftingRecipe I P)) (handler : CraftingHandler I P)
    (player : PlayerItems I P) : Option (CraftingHandler I P × PlayerItems I P) :=
  match RecipeManager.getRemainingItems items recipes handler.crafting with
  | none => some ({ handler with result := .empty items }, player)
  | some (remainders, positioned) => do
    let (taken, overflow) ← (gridCells positioned.input.width positioned.input.height).foldlM
      (takeCell items remainders positioned) (handler, [])
    some (taken.updateResult items recipes, overflow.foldl (PlayerItems.addItemOrDrop items) player)

end CraftingHandler

end Steel

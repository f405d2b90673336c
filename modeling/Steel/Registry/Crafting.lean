import Mathlib.Data.List.Basic
import Steel.Registry.ItemStack

/-!
# Crafting recipes

A crafting grid is cut down to the box of its stacks, and a recipe is matched against what is left.
Rows of a grid follow each other in one list.
-/

namespace Steel

open List

def gridCells (width height : ℕ) : List (ℕ × ℕ) :=
  (range height).flatMap fun y => (range width).map fun x => (x, y)

/-! ### Ingredients -/

inductive Ingredient (I T : Type) where
  | empty
  | item (item : I)
  | tag (tag : T)
  | choice (items : List I)

namespace Ingredient

variable {I P C T : Type} [DecidableEq I] [DecidableEq T] (items : Items I P C T)

def test (ingredient : Ingredient I T) (stack : ItemStack I P) : Bool :=
  match ingredient with
  | .empty => stack.isEmpty items
  | .item wanted => !stack.isEmpty items && wanted = stack.item
  | .tag name => if stack.isEmpty items then false else items.isInTag stack.item name
  | .choice choices => if stack.isEmpty items then false else choices.contains stack.item

def isEmpty : Ingredient I T → Bool
  | .empty => true
  | _ => false

def eqIngredient : Ingredient I T → Ingredient I T → Bool
  | .empty, .empty => true
  | .item left, .item right => left = right
  | .tag left, .tag right => left = right
  | .choice left, .choice right =>
    left.length = right.length && (left.zip right).all fun pair => pair.1 = pair.2
  | _, _ => false

end Ingredient

/-! ### Inputs -/

/-- A grid has as many stacks as cells. -/
structure CraftingInput (I P : Type) where
  width : ℕ
  height : ℕ
  items : List (ItemStack I P)
  size : items.length = width * height

structure PositionedCraftingInput (I P : Type) where
  input : CraftingInput I P
  left : ℕ
  top : ℕ

structure StackBox where
  left : ℕ
  right : ℕ
  top : ℕ
  bottom : ℕ

namespace CraftingInput

variable {I P C T : Type} [DecidableEq I] (items : Items I P C T)

/-- The stack of a cell, which is there for the cells of the grid. -/
def get (input : CraftingInput I P) (x y : ℕ) : ItemStack I P :=
  input.items.getD (y * input.width + x) (.empty items)

def ingredientCount (input : CraftingInput I P) : ℕ :=
  input.items.countP fun stack => !stack.isEmpty items

def empty : CraftingInput I P := { width := 0, height := 0, items := [], size := rfl }

variable (grid : CraftingInput I P)

def boxOf : StackBox :=
  (gridCells grid.width grid.height).foldl
    (fun box cell =>
      if (grid.get items cell.1 cell.2).isEmpty items then box
      else
        { left := min box.left cell.1
          right := max box.right cell.1
          top := min box.top cell.2
          bottom := max box.bottom cell.2 })
    { left := grid.width, right := 0, top := grid.height, bottom := 0 }

def cutOut (left top width height : ℕ) : CraftingInput I P :=
  { width, height
    items := (gridCells width height).map fun cell => grid.get items (cell.1 + left) (cell.2 + top)
    size := by simp [gridCells, length_flatMap, Nat.mul_comm] }

def positioned : PositionedCraftingInput I P :=
  if grid.width = 0 ∨ grid.height = 0 then { input := empty, left := 0, top := 0 }
  else
    let box := grid.boxOf items
    if box.right < box.left ∨ box.bottom < box.top then { input := empty, left := 0, top := 0 }
    else
      let newWidth := box.right - box.left + 1
      let newHeight := box.bottom - box.top + 1
      if newWidth = grid.width ∧ newHeight = grid.height then
        { input := grid, left := box.left, top := box.top }
      else
        { input := grid.cutOut items box.left box.top newWidth newHeight
          left := box.left, top := box.top }

end CraftingInput

def PositionedCraftingInput.toGridSlot {I P : Type} (positioned : PositionedCraftingInput I P)
    (x y gridWidth : ℕ) : ℕ :=
  (x + positioned.left) + (y + positioned.top) * gridWidth

/-! ### Matching -/

/-- A pattern has as many ingredients as cells. -/
structure ShapedRecipe (I T : Type) where
  width : ℕ
  height : ℕ
  pattern : List (Ingredient I T)
  size : pattern.length = width * height

namespace ShapedRecipe

variable {I P C T : Type} [DecidableEq I] [DecidableEq T] (items : Items I P C T)

variable (recipe : ShapedRecipe I T)

/-- The ingredient of a cell, which is there for the cells of the pattern. -/
def ingredient (x y : ℕ) : Ingredient I T :=
  recipe.pattern.getD (y * recipe.width + x) .empty

/-- `compute_symmetrical`, whose result every recipe stores. -/
def symmetrical : Bool :=
  recipe.width == 0 ||
    (range (recipe.pattern.length / recipe.width)).all fun y =>
      (range (recipe.width / 2)).all fun x =>
        (recipe.ingredient x y).eqIngredient (recipe.ingredient (recipe.width - 1 - x) y)

def matchesShapedOrientation (input : CraftingInput I P) (mirrored : Bool) : Bool :=
  (gridCells recipe.width recipe.height).all fun cell =>
    let patternX := if mirrored then recipe.width - 1 - cell.1 else cell.1
    (recipe.ingredient patternX cell.2).test items (input.get items cell.1 cell.2)

def shaped (input : CraftingInput I P) : Bool :=
  if input.ingredientCount items ≠ recipe.pattern.countP (!·.isEmpty) ∨
      input.width ≠ recipe.width ∨ input.height ≠ recipe.height then false
  else
    recipe.matchesShapedOrientation items input false ||
      !recipe.symmetrical && recipe.matchesShapedOrientation items input true

end ShapedRecipe

namespace ShapelessRecipe

variable {I P C T : Type} [DecidableEq I] [DecidableEq T] (items : Items I P C T)

/-- The tries of one ingredient from an index on, where `rest` matches the remaining ones. All of
them share the marks of the used stacks. -/
def tryItems (ingredient : Ingredient I T) (occupied : List (ItemStack I P))
    (rest : List Bool → Bool × List Bool) : List ℕ → List Bool → Bool × List Bool
  | [], used => (false, used)
  | index :: indices, used =>
    if used.getD index false || !(ingredient.test items (occupied.getD index (.empty items))) then
      tryItems ingredient occupied rest indices used
    else
      match rest (used.set index true) with
      | (true, used) => (true, used)
      | (false, used) => tryItems ingredient occupied rest indices (used.set index false)

def matchShapelessIngredients (occupied : List (ItemStack I P)) :
    List (Ingredient I T) → List Bool → Bool × List Bool
  | [], used => (true, used)
  | ingredient :: remaining, used =>
    tryItems items ingredient occupied (matchShapelessIngredients occupied remaining)
      (range occupied.length) used

def occupiedStacks (input : CraftingInput I P) : List (ItemStack I P) :=
  input.items.filter fun stack => !stack.isEmpty items

def shapeless (ingredients : List (Ingredient I T)) (input : CraftingInput I P) : Bool :=
  if input.ingredientCount items ≠ ingredients.length then false
  else
    let occupied := occupiedStacks items input
    (matchShapelessIngredients items occupied ingredients (replicate occupied.length false)).1

end ShapelessRecipe

end Steel

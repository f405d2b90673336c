import Mathlib.Data.List.Find
import Steel.Inventory.CraftingSlots
import Steel.Proof.CraftingMatch
import Steel.Proof.InventoryAdd

/-!
# Taking the result uses one of every stack

The loop goes over the box of the stacks, and the slots outside it are empty. So what it does can be
said for each slot of the grid, with the remainder of the slot told from the grid alone.
-/

namespace Steel

open List Function

/-! ### The cells of a box -/

theorem filter_range_between {start count size : ℕ} (hsize : start + count ≤ size) :
    (range size).filter (fun n => start ≤ n ∧ n < start + count) =
      (range count).map (· + start) := by
  obtain ⟨rest, rfl⟩ := Nat.exists_eq_add_of_le hsize
  rw [range_add, range_add, filter_append, filter_append]
  have hbefore : (range start).filter (fun n => decide (start ≤ n ∧ n < start + count)) = [] := by
    refine filter_eq_nil_iff.mpr fun n hn => ?_
    simp [mem_range.mp hn]
  have hinside : ((range count).map (start + ·)).filter
      (fun n => decide (start ≤ n ∧ n < start + count)) = (range count).map (start + ·) := by
    refine filter_eq_self.mpr fun n hn => ?_
    obtain ⟨k, hk, rfl⟩ := mem_map.mp hn
    simpa using mem_range.mp hk
  have hafter : ((range rest).map (start + count + ·)).filter
      (fun n => decide (start ≤ n ∧ n < start + count)) = [] := by
    refine filter_eq_nil_iff.mpr fun n hn => ?_
    obtain ⟨k, -, rfl⟩ := mem_map.mp hn
    simp
  rw [hbefore, hinside, hafter, nil_append, append_nil]
  exact map_congr_left fun n _ => Nat.add_comm start n

def inBox (left top width height : ℕ) (cell : ℕ × ℕ) : Bool :=
  (left ≤ cell.1 ∧ cell.1 < left + width) ∧ top ≤ cell.2 ∧ cell.2 < top + height

def shifted (left top : ℕ) (cell : ℕ × ℕ) : ℕ × ℕ := (cell.1 + left, cell.2 + top)

theorem map_shifted_gridCells {left top width height gridWidth gridHeight : ℕ}
    (hwidth : left + width ≤ gridWidth) (hheight : top + height ≤ gridHeight) :
    (gridCells width height).map (shifted left top) =
      (gridCells gridWidth gridHeight).filter (inBox left top width height) := by
  have hrow (y : ℕ) : ((range gridWidth).map fun x => (x, y)).filter (inBox left top width height) =
      if top ≤ y ∧ y < top + height then (range width).map fun x => (x + left, y) else [] := by
    rw [filter_map]
    split_ifs with hy
    · have hcolumns := filter_range_between hwidth
      have hsame : inBox left top width height ∘ (fun x => (x, y)) =
          fun x => decide (left ≤ x ∧ x < left + width) := by
        funext x
        simp [inBox, hy]
      rw [hsame, hcolumns, map_map]
      rfl
    · rw [filter_eq_nil_iff.mpr, map_nil]
      intro x _
      simp only [comp, inBox, decide_eq_true_eq]
      exact fun h => hy h.2
  have hrows := filter_range_between hheight
  rw [gridCells, gridCells, map_flatMap, filter_flatMap, funext hrow, Vec.flatMap_ite, hrows,
    flatMap_map]
  refine flatMap_congr fun y _ => ?_
  rw [map_map]
  rfl

theorem shifted_injective (left top : ℕ) : Injective (shifted left top) := by
  rintro ⟨x, y⟩ ⟨x', y'⟩ h
  simp only [shifted, Prod.mk.injEq] at h
  ext
  · omega
  · omega

theorem nodup_gridCells (width height : ℕ) : (gridCells width height).Nodup := by
  have hproduct :
      gridCells width height = ((range height).product (range width)).map Prod.swap := by
    simp [gridCells, List.product, map_flatMap, comp_def]
  rw [hproduct]
  exact (nodup_range.product nodup_range).map Prod.swap_injective

variable {I P C T : Type} [DecidableEq I] [DecidableEq C] {items : Items I P C T}

theorem ItemStack.countOf_of_isEmpty {stack : ItemStack I P} (h : stack.isEmpty items = true)
    (id : I × C) : stack.countOf items id = 0 := by
  rw [countOf, countOrZero, if_pos h, ite_self]

/-! ### Remainders -/

namespace RecipeManager

/-- Whether the remainder of a stack can be a copy of it. -/
def mayKeep (items : Items I P C T) (isKept : ItemStack I P → Bool)
    (stack : ItemStack I P) : Bool :=
  (ownRemainder items stack).isEmpty items && isKept stack

/-- The remainder of a slot of the grid. A recipe that clones books keeps the first of them. -/
def slotRemainder (items : Items I P C T) (kind : RecipeKind) (crafting : CraftingInput I P)
    (cell : ℕ × ℕ) : ItemStack I P :=
  let stack := crafting.get items cell.1 cell.2
  let kept : Bool := match kind with
    | .bannerDuplicate => mayKeep items (hasLayers items) stack
    | .bookCloning => (gridCells crafting.width crafting.height).find? (fun other =>
        mayKeep items (hasContent items) (crafting.get items other.1 other.2)) = some cell
    | .other => false
  if kept then stack.copyWithCount items 1 else ownRemainder items stack

omit [DecidableEq C] in
theorem keepWritten_map {A : Type} [DecidableEq A] {cells : List A} (hnodup : cells.Nodup)
    (stack : A → ItemStack I P) :
    keepWritten items (cells.map stack) (cells.map (ownRemainder items ∘ stack)) =
      cells.map fun cell =>
        if cells.find? (fun other => mayKeep items (hasContent items) (stack other)) =
          some cell then
          (stack cell).copyWithCount items 1
        else ownRemainder items (stack cell) := by
  induction cells with
  | nil => rfl
  | cons first rest ih =>
    obtain ⟨hfirst, hrest⟩ := nodup_cons.mp hnodup
    simp only [map_cons, keepWritten, comp_apply]
    by_cases hkeep : mayKeep items (hasContent items) (stack first) = true
    · have hcond := hkeep
      rw [mayKeep] at hcond
      have hfind : (first :: rest).find?
          (fun other => mayKeep items (hasContent items) (stack other)) = some first :=
        find?_cons_of_pos hkeep
      rw [if_pos hcond, hfind, if_pos rfl]
      refine congrArg _ (map_congr_left fun cell hcell => ?_)
      have hne : ¬ some first = some cell := by
        rintro ⟨rfl⟩
        exact hfirst hcell
      rw [if_neg hne]
      rfl
    · have hcond := hkeep
      rw [mayKeep] at hcond
      have hfind : (first :: rest).find?
          (fun other => mayKeep items (hasContent items) (stack other)) =
            rest.find? fun other => mayKeep items (hasContent items) (stack other) :=
        find?_cons_of_neg hkeep
      rw [if_neg hcond, hfind, ih hrest, if_neg]
      intro hfound
      exact hfirst (mem_of_find?_eq_some hfound)

variable {crafting : CraftingInput I P} {recipes : List (CraftingRecipe I P)}
  {recipe : CraftingRecipe I P}

omit [DecidableEq C] in
theorem nonempty_of_mayKeep {stack : ItemStack I P}
    (h : mayKeep items (hasContent items) stack = true) : stack.isEmpty items = false := by
  simp only [mayKeep, hasContent, Bool.and_eq_true, Bool.not_eq_true'] at h
  exact h.2.1

omit [DecidableEq C] in
/-- The first book of the grid is the first book of the box. -/
theorem find?_shifted {left top width height : ℕ} (hwidth : left + width ≤ crafting.width)
    (hheight : top + height ≤ crafting.height)
    (hinside : ∀ x y, CraftingInput.Occupied items crafting x y →
      inBox left top width height (x, y) = true) :
    (gridCells crafting.width crafting.height).find? (fun other =>
        mayKeep items (hasContent items) (crafting.get items other.1 other.2)) =
      ((gridCells width height).find? fun other => mayKeep items (hasContent items)
        (crafting.get items (other.1 + left) (other.2 + top))).map (shifted left top) := by
  let book : ℕ × ℕ → Bool := fun other =>
    mayKeep items (hasContent items) (crafting.get items other.1 other.2)
  calc (gridCells crafting.width crafting.height).find? book
      = ((gridCells crafting.width crafting.height).filter (inBox left top width height)).find?
          book := by
        rw [find?_filter]
        refine find?_congr fun other hother => ?_
        cases hbook : book other with
        | false => simp
        | true =>
          obtain ⟨hx, hy⟩ := mem_gridCells.mp hother
          have hin := hinside other.1 other.2 ⟨hx, hy, nonempty_of_mayKeep hbook⟩
          simp [hin]
    _ = ((gridCells width height).map (shifted left top)).find? book := by
        rw [map_shifted_gridCells hwidth hheight]
    _ = _ := find?_map

omit [DecidableEq C] in
theorem getRemainingItems_eq (hrecipe : findRecipe items recipes crafting = some recipe)
    (hpositioned : CraftingInput.Positioned items crafting (crafting.positioned items)) :
    let positioned := crafting.positioned items
    getRemainingItems items recipes crafting =
      some ((gridCells positioned.input.width positioned.input.height).map fun cell =>
        slotRemainder items recipe.kind crafting (shifted positioned.left positioned.top cell),
        positioned) := by
  intro positioned
  have hused : positioned.input.items = (gridCells positioned.input.width
      positioned.input.height).map fun cell =>
        crafting.get items (cell.1 + positioned.left) (cell.2 + positioned.top) := by
    rw [eq_map_gridCells positioned.input.size (.empty items)]
    refine map_congr_left fun cell hcell => ?_
    obtain ⟨hx, hy⟩ := mem_gridCells.mp hcell
    exact hpositioned.get cell.1 hx cell.2 hy
  rw [getRemainingItems, hrecipe, Option.map_some]
  cases hkind : recipe.kind with
  | other =>
    dsimp only
    rw [hused, map_map]
    rfl
  | bannerDuplicate =>
    dsimp only
    rw [hused, keepLayered, map_map, zipWith_map, zipWith_self]
    rfl
  | bookCloning =>
    have hfind := find?_shifted hpositioned.width_le hpositioned.height_le fun x y hoccupied =>
      decide_eq_true (hpositioned.inside x y hoccupied)
    dsimp only
    rw [hused, map_map, keepWritten_map (nodup_gridCells _ _)]
    refine congrArg (fun remainders => some (remainders, positioned))
      (map_congr_left fun cell _ => ?_)
    simp only [slotRemainder, hfind, decide_eq_true_eq]
    refine if_congr ?_ rfl rfl
    exact ((Option.map_injective (shifted_injective positioned.left positioned.top)).eq_iff
      (b := some cell)).symm

end RecipeManager

/-! ### What the player gets -/

namespace PlayerItems

def countOf (items : Items I P C T) (id : I × C) (player : PlayerItems I P) : ℤ :=
  ∑ slot, (player.inventory.items slot).countOf items id +
    (player.dropped.map (ItemStack.countOf items id)).sum

theorem countOf_addItemOrDrop (player : PlayerItems I P) (item : ItemStack I P) (id : I × C) :
    (player.addItemOrDrop items item).countOf items id =
      player.countOf items id + item.countOf items id := by
  have hadd := player.inventory.add_conserved items item id
  have hemptied := player.inventory.add_emptied items item
  rw [addItemOrDrop]
  generalize player.inventory.add items item = result at hadd hemptied ⊢
  obtain ⟨added, inventory, left⟩ := result
  dsimp only at hadd hemptied ⊢
  subst hemptied
  split_ifs with hempty hlocked hleft
  · rw [ItemStack.countOf_of_isEmpty hempty, Int.add_zero]
  · simp only [countOf, map_cons, sum_cons]
    omega
  · have hzero := ItemStack.countOf_of_isEmpty (by simpa using hleft) id
    simp only [countOf]
    omega
  · simp only [countOf, map_cons, sum_cons]
    omega

theorem countOf_foldl (player : PlayerItems I P) (overflow : List (ItemStack I P)) (id : I × C) :
    (overflow.foldl (addItemOrDrop items) player).countOf items id =
      player.countOf items id + (overflow.map (ItemStack.countOf items id)).sum := by
  induction overflow generalizing player with
  | nil => simp
  | cons item rest ih =>
    rw [foldl_cons, ih, countOf_addItemOrDrop, map_cons, sum_cons, Int.add_assoc]

end PlayerItems

namespace CraftingHandler

/-! ### The loop -/

/-- What is in a slot afterwards. A remainder goes where the stack is used up or is the same. -/
def delivered (items : Items I P C T) (stack remainder : ItemStack I P) : ItemStack I P :=
  let used := useOne items stack
  if remainder.isEmpty items then used
  else if used.isEmpty items then remainder
  else if used.isSameItemSameComponents items remainder then
    used.grow (remainder.countOrZero items)
  else used

def isHandedOver (items : Items I P C T) (stack remainder : ItemStack I P) : Bool :=
  !remainder.isEmpty items && !(useOne items stack).isEmpty items &&
    !(useOne items stack).isSameItemSameComponents items remainder

variable {handler : CraftingHandler I P} {overflow remainders : List (ItemStack I P)}
  {positioned : PositionedCraftingInput I P} {cell : ℕ × ℕ} {stack : ItemStack I P}

def slotOf (positioned : PositionedCraftingInput I P) (gridSize : ℕ) (cell : ℕ × ℕ) : ℕ :=
  positioned.toGridSlot cell.1 cell.2 gridSize

theorem takeCell_eq (items : Items I P C T) (overflow : List (ItemStack I P))
    {remainder : ItemStack I P}
    (hstack : handler.crafting.items[slotOf positioned handler.gridSize cell]? = some stack)
    (hremainder : remainders[cell.2 * positioned.input.width + cell.1]? = some remainder) :
    takeCell items remainders positioned (handler, overflow) cell =
      some (handler.setItem (slotOf positioned handler.gridSize cell)
          (delivered items stack remainder),
        overflow ++ if isHandedOver items stack remainder then [remainder] else []) := by
  have hremainder' : remainders.getD (cell.1 + cell.2 * positioned.input.width) (.empty items) =
      remainder := by
    rw [Nat.add_comm, getD_eq_getElem?_getD, hremainder, Option.getD_some]
  rw [slotOf] at hstack
  simp only [takeCell, hstack, hremainder', delivered, isHandedOver, slotOf]
  by_cases hempty : remainder.isEmpty items = true
  · simp [hempty]
  · by_cases hused : (useOne items stack).isEmpty items = true
    · simp [hempty, hused]
    · by_cases hsame : (useOne items stack).isSameItemSameComponents items remainder = true
      · simp [hempty, hused, hsame]
      · simp [hempty, hused, hsame]

/-- What the loop over some cells does, where each cell has its own slot. -/
theorem foldlM_takeCell {cells : List (ℕ × ℕ)}
    (hnodup : (cells.map (slotOf positioned handler.gridSize)).Nodup)
    {stackOf remainderOf : ℕ × ℕ → ItemStack I P}
    (hstack : ∀ cell ∈ cells,
      handler.crafting.items[slotOf positioned handler.gridSize cell]? = some (stackOf cell))
    (hremainder : ∀ cell ∈ cells,
      remainders[cell.2 * positioned.input.width + cell.1]? = some (remainderOf cell)) :
    ∃ taken, cells.foldlM (takeCell items remainders positioned) (handler, overflow) =
        some (taken, overflow ++ (cells.filter fun cell =>
          isHandedOver items (stackOf cell) (remainderOf cell)).map remainderOf) ∧
      taken.gridSize = handler.gridSize ∧ taken.crafting.height = handler.crafting.height ∧
      (∀ cell ∈ cells, taken.crafting.items[slotOf positioned handler.gridSize cell]? =
        some (delivered items (stackOf cell) (remainderOf cell))) ∧
      ∀ slot, slot ∉ cells.map (slotOf positioned handler.gridSize) →
        taken.crafting.items[slot]? = handler.crafting.items[slot]? := by
  induction cells generalizing handler overflow with
  | nil => exact ⟨handler, by simp, rfl, rfl, by simp, fun _ _ => rfl⟩
  | cons first rest ih =>
    rw [map_cons, nodup_cons] at hnodup
    obtain ⟨hfirst, hrest⟩ := hnodup
    have hother : ∀ slot, slot ≠ slotOf positioned handler.gridSize first → ∀ new,
        (handler.setItem (slotOf positioned handler.gridSize first) new).crafting.items[slot]? =
          handler.crafting.items[slot]? :=
      fun slot hne new => getElem?_set_ne hne.symm
    have hturn := takeCell_eq items overflow (hstack first mem_cons_self)
      (hremainder first mem_cons_self)
    obtain ⟨taken, hfold, hsize, hheight, hcells, hkept⟩ := @ih
      (handler.setItem (slotOf positioned handler.gridSize first)
        (delivered items (stackOf first) (remainderOf first))) _ hrest
      (fun cell hcell => (hother _ (fun heq => hfirst (heq ▸ mem_map_of_mem hcell)) _).trans
        (hstack cell (mem_cons_of_mem first hcell)))
      fun cell hcell => hremainder cell (mem_cons_of_mem first hcell)
    refine ⟨taken, ?_, hsize, hheight, fun cell hcell => ?_, fun slot hslot => ?_⟩
    · rw [foldlM_cons, hturn, Option.bind_eq_bind, Option.bind_some, hfold, append_assoc]
      by_cases hhanded : isHandedOver items (stackOf first) (remainderOf first) = true
      · simp [hhanded]
      · simp [hhanded]
    · obtain rfl | hcell := mem_cons.mp hcell
      · refine (hkept _ hfirst).trans (getElem?_set_self ?_)
        exact (List.getElem?_eq_some_iff.mp (hstack cell mem_cons_self)).1
      · exact hcells cell hcell
    · rw [map_cons, mem_cons, not_or] at hslot
      rw [← hother slot hslot.1]
      exact hkept slot hslot.2

end CraftingHandler

namespace CraftingInput

variable {crafting : CraftingInput I P} {x y : ℕ}

omit [DecidableEq I] [DecidableEq C] in
theorem getElem?_items (hx : x < crafting.width) (hy : y < crafting.height) :
    crafting.items[y * crafting.width + x]? = some (crafting.get items x y) := by
  have hcell := (List.getElem?_eq_some_iff.mp (getElem?_gridCells hx hy)).1
  rw [length_gridCells, ← crafting.size] at hcell
  rw [get, getD_eq_getElem?_getD, getElem?_eq_getElem hcell, Option.getD_some]

omit [DecidableEq C] in
theorem positioned_of_findRecipe {recipes : List (CraftingRecipe I P)} {recipe : CraftingRecipe I P}
    (hrecipe : RecipeManager.findRecipe items recipes crafting = some recipe) :
    Positioned items crafting (crafting.positioned items) := by
  by_cases hoccupied : ∃ x y, Occupied items crafting x y
  · obtain ⟨x, y, hoccupied⟩ := hoccupied
    exact positioned_of_occupied hoccupied
  · have hempty := positioned_of_forall_not fun x y h => hoccupied ⟨x, y, h⟩
    have hcount : (empty : CraftingInput I P).ingredientCount items = 0 := rfl
    rw [RecipeManager.findRecipe, hempty, if_pos hcount] at hrecipe
    cases hrecipe

end CraftingInput

omit [DecidableEq C] in
theorem RecipeManager.slotRemainder_of_isEmpty {crafting : CraftingInput I P} {kind : RecipeKind}
    {cell : ℕ × ℕ} (h : (crafting.get items cell.1 cell.2).isEmpty items = true) :
    slotRemainder items kind crafting cell = .empty items := by
  simp only [slotRemainder, ownRemainder, ItemStack.copyWithCount, h, if_true, ite_self]

namespace CraftingHandler

variable {handler : CraftingHandler I P} {stack : ItemStack I P}

omit [DecidableEq C] in
theorem isEmpty_empty : (ItemStack.empty items : ItemStack I P).isEmpty items = true := by
  simp [ItemStack.isEmpty, ItemStack.empty]

theorem delivered_of_isEmpty (h : stack.isEmpty items = true) :
    delivered items stack (.empty items) = stack := by
  rw [delivered, if_pos isEmpty_empty, useOne, if_pos h]

theorem isHandedOver_empty : isHandedOver items stack (.empty items) = false := by
  rw [isHandedOver, isEmpty_empty]
  rfl

omit [DecidableEq I] [DecidableEq C] in
/-- The slot of a cell of the input, in the grid. -/
theorem slotOf_eq (handler : CraftingHandler I P) (positioned : PositionedCraftingInput I P)
    (cell : ℕ × ℕ) : slotOf positioned handler.gridSize cell =
      (shifted positioned.left positioned.top cell).2 * handler.crafting.width +
        (shifted positioned.left positioned.top cell).1 := by
  rw [slotOf, PositionedCraftingInput.toGridSlot, handler.width_eq, Nat.add_comm]
  rfl

section Box

variable {positioned : PositionedCraftingInput I P}
  (hpositioned : CraftingInput.Positioned items handler.crafting positioned)

include hpositioned

omit [DecidableEq C] in
theorem shifted_lt {cell : ℕ × ℕ}
    (hcell : cell ∈ gridCells positioned.input.width positioned.input.height) :
    (shifted positioned.left positioned.top cell).1 < handler.crafting.width ∧
      (shifted positioned.left positioned.top cell).2 < handler.crafting.height := by
  obtain ⟨hx, hy⟩ := mem_gridCells.mp hcell
  have hwidth := hpositioned.width_le
  have hheight := hpositioned.height_le
  dsimp only [shifted]
  omega

omit [DecidableEq C] in
theorem nodup_map_slotOf :
    ((gridCells positioned.input.width positioned.input.height).map
      (slotOf positioned handler.gridSize)).Nodup := by
  refine (nodup_gridCells _ _).map_on fun cell hcell other hother heq => ?_
  obtain ⟨hx, hy⟩ := shifted_lt hpositioned hcell
  obtain ⟨hx', hy'⟩ := shifted_lt hpositioned hother
  rw [slotOf_eq, slotOf_eq] at heq
  have hsame := getElem?_gridCells hx hy
  rw [heq, getElem?_gridCells hx' hy'] at hsame
  exact (shifted_injective _ _ (Option.some.inj hsame)).symm

omit [DecidableEq C] in
/-- A cell of the grid is a cell of the input or empty. -/
theorem exists_shifted {x y : ℕ} (hx : x < handler.crafting.width)
    (hy : y < handler.crafting.height) :
    (∃ cell ∈ gridCells positioned.input.width positioned.input.height,
      shifted positioned.left positioned.top cell = (x, y)) ∨
    (∀ cell ∈ gridCells positioned.input.width positioned.input.height,
        shifted positioned.left positioned.top cell ≠ (x, y)) ∧
      (handler.crafting.get items x y).isEmpty items = true := by
  by_cases hcell : ∃ cell ∈ gridCells positioned.input.width positioned.input.height,
      shifted positioned.left positioned.top cell = (x, y)
  · exact .inl hcell
  · refine .inr ⟨fun cell hmem heq => hcell ⟨cell, hmem, heq⟩, ?_⟩
    by_contra hstack
    have hinside := hpositioned.inside x y ⟨hx, hy, Bool.eq_false_of_not_eq_true hstack⟩
    refine hcell ⟨(x - positioned.left, y - positioned.top), mem_gridCells.mpr ?_, ?_⟩
    · omega
    · rw [shifted, Prod.mk.injEq]
      dsimp only
      omega

omit [DecidableEq C] in
/-- What is done for cells with a stack is done in the box. -/
theorem filter_map_shifted (wanted : ℕ × ℕ → Bool)
    (hwanted : ∀ cell, wanted cell = true →
      (handler.crafting.get items cell.1 cell.2).isEmpty items = false) :
    (((gridCells positioned.input.width positioned.input.height).filter fun cell =>
        wanted (shifted positioned.left positioned.top cell)).map
      (shifted positioned.left positioned.top)) =
      (gridCells handler.crafting.width handler.crafting.height).filter wanted := by
  have hbox := map_shifted_gridCells hpositioned.width_le hpositioned.height_le
  have hfilter : ((gridCells positioned.input.width positioned.input.height).map
      (shifted positioned.left positioned.top)).filter wanted = _ := filter_map
  rw [hbox, filter_filter] at hfilter
  refine hfilter.symm.trans (filter_congr fun cell hcell => ?_)
  cases hcond : wanted cell with
  | false => rfl
  | true =>
    obtain ⟨hx, hy⟩ := mem_gridCells.mp hcell
    have hinside := hpositioned.inside cell.1 cell.2 ⟨hx, hy, hwanted cell hcond⟩
    rw [Bool.true_and]
    exact decide_eq_true hinside

/-- What the loop does, told for every slot of the grid. -/
theorem foldlM_takeCell_grid {remainder : ℕ × ℕ → ItemStack I P}
    (hremainder : ∀ cell, (handler.crafting.get items cell.1 cell.2).isEmpty items = true →
      remainder cell = .empty items) :
    ∃ taken, (gridCells positioned.input.width positioned.input.height).foldlM
        (takeCell items ((gridCells positioned.input.width positioned.input.height).map fun cell =>
          remainder (shifted positioned.left positioned.top cell)) positioned) (handler, []) =
        some (taken, ((gridCells handler.crafting.width handler.crafting.height).filter fun cell =>
          isHandedOver items (handler.crafting.get items cell.1 cell.2) (remainder cell)).map
            remainder) ∧
      taken.crafting.width = handler.crafting.width ∧
      taken.crafting.height = handler.crafting.height ∧
      ∀ x < handler.crafting.width, ∀ y < handler.crafting.height, taken.crafting.get items x y =
        delivered items (handler.crafting.get items x y) (remainder (x, y)) := by
  let place := shifted positioned.left positioned.top
  obtain ⟨taken, hfold, hsize, hheight, hcells, hkept⟩ := @foldlM_takeCell _ _ _ _ _ _ items handler
    [] ((gridCells positioned.input.width positioned.input.height).map fun cell =>
      remainder (place cell)) positioned _ (nodup_map_slotOf hpositioned)
    (fun cell => handler.crafting.get items (place cell).1 (place cell).2)
    (fun cell => remainder (place cell))
    (fun cell hcell => by
      obtain ⟨hx, hy⟩ := shifted_lt hpositioned hcell
      rw [slotOf_eq]
      exact CraftingInput.getElem?_items hx hy)
    (fun cell hcell => by
      obtain ⟨hx, hy⟩ := mem_gridCells.mp hcell
      rw [getElem?_map, getElem?_gridCells hx hy, Option.map_some])
  have hwidth : taken.crafting.width = handler.crafting.width := by
    rw [taken.width_eq, hsize, handler.width_eq]
  refine ⟨taken, hfold.trans ?_, hwidth, hheight, fun x hx y hy => ?_⟩
  · have hbox := filter_map_shifted hpositioned (fun cell =>
      isHandedOver items (handler.crafting.get items cell.1 cell.2) (remainder cell)) ?_
    · rw [← hbox, map_map, nil_append]
      rfl
    · intro cell hhanded
      by_contra hempty
      rw [hremainder cell (Bool.eq_true_of_not_eq_false hempty), isHandedOver_empty] at hhanded
      cases hhanded
  · refine Option.some.inj
      ((CraftingInput.getElem?_items (hwidth ▸ hx) (hheight ▸ hy)).symm.trans ?_)
    rw [hwidth]
    obtain ⟨cell, hcell, hplace⟩ | ⟨hnone, hempty⟩ := exists_shifted hpositioned hx hy
    · have hdelivered := hcells cell hcell
      rw [slotOf_eq, hplace] at hdelivered
      refine hdelivered.trans ?_
      rw [show place cell = (x, y) from hplace]
    · rw [hkept]
      · rw [hremainder (x, y) hempty, delivered_of_isEmpty hempty]
        exact CraftingInput.getElem?_items hx hy
      · intro hslot
        obtain ⟨cell, hcell, hsame⟩ := mem_map.mp hslot
        obtain ⟨hx', hy'⟩ := shifted_lt hpositioned hcell
        have hother := getElem?_gridCells hx' hy'
        rw [← slotOf_eq, hsame, getElem?_gridCells hx hy] at hother
        exact hnone cell hcell (Option.some.inj hother).symm

end Box

/-- Taking the result of a recipe uses one of every stack of the grid. Each slot gets its remainder,
or the player does, and the result is that of the new grid. -/
theorem onResultTaken_uses_one (items : Items I P C T) (recipes : List (CraftingRecipe I P))
    (handler : CraftingHandler I P) (player : PlayerItems I P) {recipe : CraftingRecipe I P}
    (hrecipe : RecipeManager.findRecipe items recipes handler.crafting = some recipe) :
    let grid := handler.crafting
    let remainder := RecipeManager.slotRemainder items recipe.kind grid
    ∃ taken given, handler.onResultTaken items recipes player = some (taken, given) ∧
      taken.crafting.width = grid.width ∧ taken.crafting.height = grid.height ∧
      (∀ x < grid.width, ∀ y < grid.height, taken.crafting.get items x y =
        delivered items (grid.get items x y) (remainder (x, y))) ∧
      taken.result = (RecipeManager.assembleForContainer items recipes taken.crafting).getD
        (.empty items) ∧
      ∀ id, given.countOf items id = player.countOf items id +
        (((gridCells grid.width grid.height).filter fun cell =>
          isHandedOver items (grid.get items cell.1 cell.2) (remainder cell)).map fun cell =>
            (remainder cell).countOf items id).sum := by
  intro grid remainder
  have hpositioned := CraftingInput.positioned_of_findRecipe hrecipe
  have hremaining := RecipeManager.getRemainingItems_eq hrecipe hpositioned
  obtain ⟨taken, hfold, hwidth, hheight, hcells⟩ :=
    @foldlM_takeCell_grid _ _ _ _ _ _ items handler _ hpositioned remainder
      fun cell => RecipeManager.slotRemainder_of_isEmpty
  have htaken : handler.onResultTaken items recipes player =
      some (taken.updateResult items recipes,
        (((gridCells grid.width grid.height).filter fun cell =>
        isHandedOver items (grid.get items cell.1 cell.2) (remainder cell)).map remainder).foldl
          (PlayerItems.addItemOrDrop items) player) := by
    rw [onResultTaken, hremaining]
    dsimp only
    rw [hfold]
    rfl
  refine ⟨_, _, htaken, hwidth, hheight, hcells, rfl, fun id => ?_⟩
  rw [PlayerItems.countOf_foldl, map_map]
  rfl

theorem onResultTaken_uses_one_twoStacks :
    let crafting : CraftingInput Bool Unit :=
      { width := 2, height := 2, items := [.new .one true, .empty .one, ⟨true, 5, ()⟩, .empty .one],
        size := rfl }
    let recipe : CraftingRecipe Bool Unit :=
      { kind := .other, matchesInput := fun _ => true, assembleRecipe := fun _ => .new .one true }
    ∃ taken given, onResultTaken .one [recipe]
        { gridSize := 2, crafting, width_eq := rfl, result := .new .one true }
        { inventory := ⟨fun _ => .empty .one, ⟨0, by decide⟩, 0⟩, locked := true, dropped := [] } =
          some (taken, given) ∧
      taken.crafting.get .one 0 0 = { item := true, count := 0, patch := () } ∧
      taken.crafting.get .one 0 1 = { item := true, count := 4, patch := () } := by
  intro crafting recipe
  have hcount : (crafting.positioned .one).input.ingredientCount .one ≠ 0 := by decide +kernel
  have hrecipe : RecipeManager.findRecipe .one [recipe] crafting = some recipe := by
    rw [RecipeManager.findRecipe, if_neg hcount]
    rfl
  obtain ⟨taken, given, htaken, -, -, hcells, -⟩ := onResultTaken_uses_one .one [recipe]
    { gridSize := 2, crafting, width_eq := rfl, result := .new .one true }
    { inventory := ⟨fun _ => .empty .one, ⟨0, by decide⟩, 0⟩, locked := true, dropped := [] }
    hrecipe
  exact ⟨taken, given, htaken, (hcells 0 (by decide) 0 (by decide)).trans (by decide),
    (hcells 0 (by decide) 1 (by decide)).trans (by decide)⟩

end CraftingHandler

end Steel

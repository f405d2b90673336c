import Mathlib.Data.List.Induction
import Mathlib.Data.Multiset.UnionInter
import Steel.Lib.Vec
import Steel.Registry.Crafting

/-!
# What crafting recipes match

A shapeless recipe matches when its ingredients can be paired off with the stacks. A shaped one
matches when its pattern, or its mirror image, is somewhere in the grid and nothing else is.
-/

namespace Steel

open List

variable {I P C T : Type} [DecidableEq I] {items : Items I P C T}

namespace ShapelessRecipe

variable {occupied : List (ItemStack I P)} {used : List Bool}

def free (items : Items I P C T) (occupied : List (ItemStack I P)) (used : List Bool) :
    Multiset (ItemStack I P) :=
  (((range occupied.length).filter fun index => !used.getD index false).map fun index =>
    occupied.getD index (.empty items) : List (ItemStack I P))

omit [DecidableEq I] in
theorem mem_free {stack : ItemStack I P} :
    stack ∈ free items occupied used ↔ ∃ index < occupied.length, used.getD index false = false ∧
      occupied.getD index (.empty items) = stack := by
  simp [free, and_assoc]

omit [DecidableEq I] in
theorem free_set {index : ℕ} (hindex : index < occupied.length)
    (hlength : used.length = occupied.length) (hfree : used.getD index false = false) :
    free items occupied used =
      occupied.getD index (.empty items) ::ₘ free items occupied (used.set index true) := by
  have hmem : index ∈ (range occupied.length).filter fun other => !used.getD other false := by
    rw [mem_filter, mem_range, hfree]
    exact ⟨hindex, rfl⟩
  have hrest : ((range occupied.length).filter fun other => !used.getD other false).erase index =
      (range occupied.length).filter fun other => !(used.set index true).getD other false := by
    rw [(nodup_range.filter _).erase_eq_filter, filter_filter]
    refine filter_congr fun other hother => ?_
    by_cases heq : other = index
    · subst heq
      simp [getD_eq_getElem?_getD, hlength, mem_range.mp hother]
    · have hne : index ≠ other := fun h => heq h.symm
      simp [getD_eq_getElem?_getD, getElem?_set_ne hne, heq]
  rw [free, free, ← hrest, Multiset.cons_coe]
  exact Multiset.coe_eq_coe.mpr ((perm_cons_erase hmem).map _)

omit [DecidableEq I] in
theorem free_replicate (occupied : List (ItemStack I P)) :
    free items occupied (replicate occupied.length false) = occupied := by
  have hall : ((range occupied.length).filter fun index =>
      !(replicate occupied.length false).getD index false) = range occupied.length := by
    refine filter_eq_self.mpr fun index hindex => ?_
    simp [getD_eq_getElem?_getD, mem_range.mp hindex]
  rw [free, hall]
  congr 1
  refine ext_getElem (by simp) fun index hindex _ => ?_
  rw [length_map, length_range] at hindex
  simp [getD_eq_getElem?_getD, hindex]

/-- A try that fails leaves the marks as it found them. -/
def Restores (search : List Bool → Bool × List Bool) : Prop :=
  ∀ used, (search used).1 = false → (search used).2 = used

theorem set_unmarked {index : ℕ} (hfree : used.getD index false = false) :
    (used.set index true).set index false = used := by
  rw [set_set]
  refine ext_getElem? fun other => ?_
  rw [getElem?_set]
  split_ifs with heq hlt
  · rw [getD_eq_getElem?_getD, getElem?_eq_getElem hlt, Option.getD_some] at hfree
    rw [← heq, getElem?_eq_getElem hlt, hfree]
  · rw [← heq, getElem?_eq_none (Nat.le_of_not_lt hlt)]
  · rfl

section

variable {ingredient : Ingredient I T} {rest : List Bool → Bool × List Bool} {index : ℕ}
  {indices : List ℕ}

/-- The stack is passed over, is taken for good, or is taken and given back. -/
theorem tryItems_cons (hrest : Restores rest) :
    tryItems items ingredient occupied rest (index :: indices) used =
      if used.getD index false = false ∧
          ingredient.test items (occupied.getD index (.empty items)) = true ∧
          (rest (used.set index true)).1 = true then
        rest (used.set index true)
      else tryItems items ingredient occupied rest indices used := by
  rw [tryItems]
  cases hfree : used.getD index false with
  | true => simp
  | false =>
    cases ingredient.test items (occupied.getD index (.empty items)) with
    | false => simp
    | true =>
      have hback := hrest (used.set index true)
      rcases hsearch : rest (used.set index true) with ⟨_ | _, after⟩
      · rw [hsearch] at hback
        obtain rfl : after = used.set index true := hback rfl
        simp [set_unmarked hfree]
      · simp

theorem restores_tryItems (hrest : Restores rest) :
    Restores (tryItems items ingredient occupied rest indices) := by
  intro used hfailed
  induction indices with
  | nil => rfl
  | cons index indices ih =>
    rw [tryItems_cons hrest] at hfailed ⊢
    split_ifs at hfailed ⊢ with htaken
    · rw [htaken.2.2] at hfailed
      cases hfailed
    · exact ih hfailed

theorem tryItems_eq_true (hrest : Restores rest) :
    (tryItems items ingredient occupied rest indices used).1 = true ↔
      ∃ index ∈ indices, used.getD index false = false ∧
        ingredient.test items (occupied.getD index (.empty items)) = true ∧
        (rest (used.set index true)).1 = true := by
  induction indices with
  | nil => simp [tryItems]
  | cons index indices ih =>
    rw [tryItems_cons hrest, exists_mem_cons_iff, ← ih]
    split_ifs with htaken
    · exact iff_of_true htaken.2.2 (.inl htaken)
    · rw [or_iff_right htaken]

end

/-- **A failed search changes nothing.** The marks are shared by all the tries, and each of them
finds the marks that the search began with. -/
theorem restores_matchShapelessIngredients (ingredients : List (Ingredient I T)) :
    Restores (matchShapelessIngredients items occupied ingredients) := by
  induction ingredients with
  | nil => exact fun _ hfailed => nomatch hfailed
  | cons ingredient remaining ih => exact restores_tryItems ih

/-- The search finds stacks for the ingredients among the free ones. -/
theorem matchShapelessIngredients_eq_true {ingredients : List (Ingredient I T)}
    (hlength : used.length = occupied.length) :
    (matchShapelessIngredients items occupied ingredients used).1 = true ↔
      ∃ chosen ≤ free items occupied used,
        Multiset.Rel (fun ingredient stack => ingredient.test items stack = true)
          (ingredients : Multiset (Ingredient I T)) chosen := by
  induction ingredients generalizing used with
  | nil =>
    simp only [matchShapelessIngredients, Multiset.coe_nil, Multiset.rel_zero_left, true_iff]
    exact ⟨0, Multiset.zero_le _, rfl⟩
  | cons ingredient remaining ih =>
    have hset : ∀ index, (used.set index true).length = occupied.length := fun index => by
      rw [length_set, hlength]
    rw [matchShapelessIngredients, tryItems_eq_true (restores_matchShapelessIngredients remaining),
      ← Multiset.cons_coe]
    simp only [mem_range, ih (hset _), Multiset.rel_cons_left]
    constructor
    · rintro ⟨index, hindex, hfree, htest, chosen, hchosen, hrel⟩
      refine ⟨_, ?_, _, chosen, htest, hrel, rfl⟩
      rw [free_set hindex hlength hfree]
      exact Multiset.cons_le_cons _ hchosen
    · rintro ⟨_, hle, stack, chosen, htest, hrel, rfl⟩
      obtain ⟨index, hindex, hfree, rfl⟩ := mem_free.mp (Multiset.mem_of_le hle
        (Multiset.mem_cons_self stack chosen))
      rw [free_set hindex hlength hfree, Multiset.cons_le_cons_iff] at hle
      exact ⟨index, hindex, hfree, htest, chosen, hle, hrel⟩

theorem shapeless_iff_rel (ingredients : List (Ingredient I T)) (input : CraftingInput I P) :
    shapeless items ingredients input = true ↔
      Multiset.Rel (fun ingredient stack => ingredient.test items stack = true)
        (ingredients : Multiset (Ingredient I T)) (occupiedStacks items input) := by
  have hcount : input.ingredientCount items = (occupiedStacks items input).length :=
    countP_eq_length_filter
  rw [shapeless, hcount]
  split_ifs with hne
  · refine iff_of_false id fun hrel => hne ?_
    have hcard := Multiset.card_eq_card_of_rel hrel
    simpa using hcard.symm
  · rw [not_not] at hne
    rw [matchShapelessIngredients_eq_true length_replicate, free_replicate]
    constructor
    · rintro ⟨chosen, hle, hrel⟩
      have hcard := Multiset.card_eq_card_of_rel hrel
      rw [Multiset.coe_card, ← hne] at hcard
      rwa [← Multiset.eq_of_le_of_card_le hle (by rw [Multiset.coe_card, hcard])]
    · exact fun hrel => ⟨_, le_rfl, hrel⟩

/-- A recipe matches when its ingredients and the stacks of the grid are in one-to-one
correspondence, however they are ordered. -/
theorem shapeless_rel (ingredients : List (Ingredient I T)) (input : CraftingInput I P) :
    (shapeless items ingredients input = true ↔
      Multiset.Rel (fun ingredient stack => ingredient.test items stack = true)
        (ingredients : Multiset (Ingredient I T)) (occupiedStacks items input)) ∧
    ∀ (reordered : List (Ingredient I T)) (arranged : CraftingInput I P),
      reordered.Perm ingredients →
      (occupiedStacks items arranged).Perm (occupiedStacks items input) →
      shapeless items reordered arranged = shapeless items ingredients input := by
  refine ⟨shapeless_iff_rel ingredients input, fun reordered arranged hingredients hstacks => ?_⟩
  rw [Bool.eq_iff_iff, shapeless_iff_rel, shapeless_iff_rel, Multiset.coe_eq_coe.mpr hingredients,
    Multiset.coe_eq_coe.mpr hstacks]

end ShapelessRecipe

/-! ### The box of the stacks -/

variable {y width height x : ℕ}

theorem mem_gridCells : (x, y) ∈ gridCells width height ↔ x < width ∧ y < height := by
  simp [gridCells, and_comm]

theorem length_gridCells (width height : ℕ) : (gridCells width height).length = width * height := by
  rw [gridCells, Vec.length_flatMap_const _ fun _ => length_map _, length_range, length_range,
    Nat.mul_comm]

theorem getElem?_gridCells (hx : x < width) (hy : y < height) :
    (gridCells width height)[y * width + x]? = some (x, y) := by
  rw [gridCells, Vec.getElem?_flatMap (fun _ _ => by rw [length_map, length_range]) y hx,
    getElem?_range hy, Option.bind_some, getElem?_map, getElem?_range hx, Option.map_some]

namespace CraftingInput

variable {grid : CraftingInput I P} {x y : ℕ}

def Occupied (items : Items I P C T) (grid : CraftingInput I P) (x y : ℕ) : Prop :=
  x < grid.width ∧ y < grid.height ∧ (grid.get items x y).isEmpty items = false

/-- The smallest of some numbers, or a default. -/
def Least (seen : ℕ → Prop) (default least : ℕ) : Prop :=
  (∀ n, seen n → least ≤ n) ∧ (least = default ∨ seen least)

def Greatest (seen : ℕ → Prop) (default greatest : ℕ) : Prop :=
  (∀ n, seen n → n ≤ greatest) ∧ (greatest = default ∨ seen greatest)

theorem Least.add {seen : ℕ → Prop} {default least : ℕ} (h : Least seen default least) (n : ℕ) :
    Least (fun m => seen m ∨ m = n) default (min least n) := by
  refine ⟨fun m hm => ?_, ?_⟩
  · obtain hm | rfl := hm
    · exact (min_le_left _ _).trans (h.1 m hm)
    · exact min_le_right _ _
  · obtain hmin | hmin := min_choice least n
    · rw [hmin]
      exact h.2.imp_right .inl
    · rw [hmin]
      exact .inr (.inr rfl)

theorem Greatest.add {seen : ℕ → Prop} {default greatest : ℕ} (h : Greatest seen default greatest)
    (n : ℕ) : Greatest (fun m => seen m ∨ m = n) default (max greatest n) := by
  refine ⟨fun m hm => ?_, ?_⟩
  · obtain hm | rfl := hm
    · exact (h.1 m hm).trans (le_max_left _ _)
    · exact le_max_right _ _
  · obtain hmax | hmax := max_choice greatest n
    · rw [hmax]
      exact h.2.imp_right .inl
    · rw [hmax]
      exact .inr (.inr rfl)

/-- The box of the cells that have a stack, among those that have been seen. -/
structure Bounds (items : Items I P C T) (grid : CraftingInput I P) (cells : List (ℕ × ℕ))
    (box : StackBox) : Prop where
  left : Least (fun x => ∃ y, (x, y) ∈ cells ∧ (grid.get items x y).isEmpty items = false)
    grid.width box.left
  right : Greatest (fun x => ∃ y, (x, y) ∈ cells ∧ (grid.get items x y).isEmpty items = false)
    0 box.right
  top : Least (fun y => ∃ x, (x, y) ∈ cells ∧ (grid.get items x y).isEmpty items = false)
    grid.height box.top
  bottom : Greatest (fun y => ∃ x, (x, y) ∈ cells ∧ (grid.get items x y).isEmpty items = false)
    0 box.bottom

theorem bounds_boxOf (items : Items I P C T) (grid : CraftingInput I P) :
    Bounds items grid (gridCells grid.width grid.height) (grid.boxOf items) := by
  rw [boxOf]
  induction gridCells grid.width grid.height using reverseRecOn with
  | nil => constructor <;> exact ⟨by simp, .inl rfl⟩
  | append_singleton cells cell ih =>
    obtain ⟨x, y⟩ := cell
    rw [foldl_append, foldl_cons, foldl_nil]
    generalize cells.foldl _ _ = box at ih ⊢
    cases hempty : (grid.get items x y).isEmpty items with
    | true =>
      have hsame : ∀ x' y', ((x', y') ∈ cells ++ [(x, y)] ∧
          (grid.get items x' y').isEmpty items = false) ↔
          ((x', y') ∈ cells ∧ (grid.get items x' y').isEmpty items = false) := by
        intro x' y'
        simp only [mem_append, mem_singleton, Prod.mk.injEq, or_and_right]
        refine or_iff_left ?_
        rintro ⟨⟨rfl, rfl⟩, hnonempty⟩
        rw [hempty] at hnonempty
        cases hnonempty
      constructor <;> simp only [hsame, if_true]
      exacts [ih.left, ih.right, ih.top, ih.bottom]
    | false =>
      have hadd : ∀ x' y', ((x', y') ∈ cells ++ [(x, y)] ∧
          (grid.get items x' y').isEmpty items = false) ↔
          ((x', y') ∈ cells ∧ (grid.get items x' y').isEmpty items = false) ∨ x' = x ∧ y' = y := by
        intro x' y'
        simp only [mem_append, mem_singleton, Prod.mk.injEq, or_and_right]
        refine or_congr_right ⟨And.left, ?_⟩
        rintro ⟨rfl, rfl⟩
        exact ⟨⟨rfl, rfl⟩, hempty⟩
      constructor <;> simp only [hadd, exists_or, exists_and_left, exists_eq, and_true, true_and,
        exists_and_right, Bool.false_eq_true, if_false]
      exacts [ih.left.add x, ih.right.add x, ih.top.add y, ih.bottom.add y]

omit [DecidableEq I] in
theorem get_cutOut {left top width height : ℕ} (hx : x < width) (hy : y < height) :
    (grid.cutOut items left top width height).get items x y =
      grid.get items (x + left) (y + top) := by
  rw [get, cutOut, getD_eq_getElem?_getD, getElem?_map, getElem?_gridCells hx hy]
  rfl

/-- The input is the part of the grid in the box of its stacks. -/
structure Positioned (items : Items I P C T) (grid : CraftingInput I P)
    (positioned : PositionedCraftingInput I P) : Prop where
  width_pos : 0 < positioned.input.width
  height_pos : 0 < positioned.input.height
  width_le : positioned.left + positioned.input.width ≤ grid.width
  height_le : positioned.top + positioned.input.height ≤ grid.height
  get : ∀ x < positioned.input.width, ∀ y < positioned.input.height,
    positioned.input.get items x y = grid.get items (x + positioned.left) (y + positioned.top)
  inside : ∀ x y, Occupied items grid x y →
    (positioned.left ≤ x ∧ x < positioned.left + positioned.input.width) ∧
      positioned.top ≤ y ∧ y < positioned.top + positioned.input.height
  left : ∃ y, Occupied items grid positioned.left y
  right : ∃ y, Occupied items grid (positioned.left + positioned.input.width - 1) y
  top : ∃ x, Occupied items grid x positioned.top
  bottom : ∃ x, Occupied items grid x (positioned.top + positioned.input.height - 1)

theorem positioned_of_forall_not (hempty : ∀ x y, ¬ Occupied items grid x y) :
    grid.positioned items = { input := empty, left := 0, top := 0 } := by
  have hbounds := bounds_boxOf items grid
  simp only [positioned]
  split_ifs with hsize hbox
  · rfl
  · rfl
  all_goals
    have hnone : ∀ x, ¬ ∃ y, (x, y) ∈ gridCells grid.width grid.height ∧
        (grid.get items x y).isEmpty items = false := by
      rintro x ⟨y, hmem, hstack⟩
      exact hempty x y ⟨(mem_gridCells.mp hmem).1, (mem_gridCells.mp hmem).2, hstack⟩
    have hleft := hbounds.left.2.resolve_right (hnone _)
    have hright := hbounds.right.2.resolve_right (hnone _)
    omega

/-- A grid with a stack is cut down to the box of its stacks. -/
theorem positioned_of_occupied (hoccupied : Occupied items grid x y) :
    Positioned items grid (grid.positioned items) := by
  have hbounds := bounds_boxOf items grid
  have hseen : ∀ x y, ((x, y) ∈ gridCells grid.width grid.height ∧
      (grid.get items x y).isEmpty items = false) ↔ Occupied items grid x y := by
    intro x y
    rw [mem_gridCells, Occupied, and_assoc]
  obtain ⟨⟨hleft, hleft'⟩, ⟨hright, hright'⟩, ⟨htop, htop'⟩, hbottom, hbottom'⟩ := hbounds
  simp only [hseen, forall_exists_index] at hleft hleft' hright hright' htop htop' hbottom hbottom'
  have hx := hoccupied.1
  have hy := hoccupied.2.1
  have hx' := hleft x y hoccupied
  have hy' := htop y x hoccupied
  have hx'' := hright x y hoccupied
  have hy'' := hbottom y x hoccupied
  replace hleft' := hleft'.resolve_left (by omega)
  replace htop' := htop'.resolve_left (by omega)
  replace hright' : ∃ y, Occupied items grid (grid.boxOf items).right y :=
    hright'.elim (fun hzero => ⟨y, by rwa [hzero, ← Nat.le_zero.mp (hzero ▸ hx'')]⟩) id
  replace hbottom' : ∃ x, Occupied items grid x (grid.boxOf items).bottom :=
    hbottom'.elim (fun hzero => ⟨x, by rwa [hzero, ← Nat.le_zero.mp (hzero ▸ hy'')]⟩) id
  have hwidth := hright'.choose_spec.1
  have hheight := hbottom'.choose_spec.2.1
  simp only [positioned]
  generalize grid.boxOf items = box at *
  have hbuild : ∀ input : CraftingInput I P, input.width = box.right - box.left + 1 →
      input.height = box.bottom - box.top + 1 →
      (∀ x < input.width, ∀ y < input.height,
        input.get items x y = grid.get items (x + box.left) (y + box.top)) →
      Positioned items grid { input, left := box.left, top := box.top } := by
    intro input hinput hinput' hget
    have hsum : box.left + input.width - 1 = box.right := by omega
    have hsum' : box.top + input.height - 1 = box.bottom := by omega
    refine ⟨by dsimp only; omega, by dsimp only; omega, by dsimp only; omega,
      by dsimp only; omega, hget,
      fun x y hcell => ?_, hleft', by rwa [hsum], htop', by rwa [hsum']⟩
    have hx := hleft x y hcell
    have hy := htop y x hcell
    have hx' := hright x y hcell
    have hy' := hbottom y x hcell
    dsimp only
    omega
  rw [if_neg (by omega), if_neg (by omega)]
  split_ifs with hwhole
  · -- the whole grid is the box, which begins in the corner
    have hleft : box.left = 0 := by omega
    have htop : box.top = 0 := by omega
    refine hbuild grid hwhole.1.symm hwhole.2.symm fun x _ y _ => ?_
    rw [hleft, htop]
    rfl
  · exact hbuild _ rfl rfl fun x hx y hy => get_cutOut hx hy

end CraftingInput

/-! ### Shaped recipes -/

theorem Ingredient.isEmpty_eq_of_test {ingredient : Ingredient I T} {stack : ItemStack I P}
    (h : ingredient.test items stack = true) : ingredient.isEmpty = stack.isEmpty items := by
  cases ingredient <;> simp_all [Ingredient.test, Ingredient.isEmpty]

theorem Ingredient.eq_of_eqIngredient [DecidableEq T] {left right : Ingredient I T}
    (h : left.eqIngredient right = true) : left = right := by
  cases left <;> cases right <;> simp_all [Ingredient.eqIngredient]
  rename_i left right
  obtain ⟨hlength, hall⟩ := h
  refine ext_getElem hlength fun index hleft hright => hall _ _ ?_
  rw [← getElem_zip (h := by rw [length_zip]; exact lt_min hleft hright)]
  exact getElem_mem _

/-- The list of a grid lists its cells. -/
theorem eq_map_gridCells {α : Type} {list : List α} (hsize : list.length = width * height)
    (default : α) : list = (gridCells width height).map fun cell =>
      list.getD (cell.2 * width + cell.1) default := by
  refine ext_getElem? fun index => ?_
  by_cases hindex : index < width * height
  · have hwidth : 0 < width := Nat.pos_of_mul_pos_right (Nat.zero_lt_of_lt hindex)
    have hrow : index / width < height := Nat.div_lt_of_lt_mul hindex
    have hdiv : index / width * width + index % width = index := Nat.div_add_mod' index width
    have hcell := getElem?_gridCells (Nat.mod_lt index hwidth) hrow
    rw [hdiv] at hcell
    rw [getElem?_map, hcell, Option.map_some, hdiv, getD_eq_getElem?_getD,
      getElem?_eq_getElem (hsize ▸ hindex), Option.getD_some]
  · rw [getElem?_eq_none (by omega), getElem?_eq_none]
    rw [length_map, length_gridCells]
    omega

theorem countP_gridCells_mirrored (width height : ℕ) (p : ℕ → ℕ → Bool) :
    (gridCells width height).countP (fun cell => p (width - 1 - cell.1) cell.2) =
      (gridCells width height).countP fun cell => p cell.1 cell.2 := by
  have hperm : ((range width).map fun x => width - 1 - x).Perm (range width) := by
    rw [perm_ext_iff_of_nodup (nodup_range.map_on ?_) nodup_range]
    · intro x
      simp only [mem_map, mem_range]
      exact ⟨fun ⟨other, hother, heq⟩ => by omega, fun hx => ⟨width - 1 - x, by omega, by omega⟩⟩
    · intro x hx other hother heq
      rw [mem_range] at hx hother
      omega
  rw [gridCells, countP_flatMap, countP_flatMap]
  congr 2
  funext y
  simp only [Function.comp_apply, countP_map]
  refine Eq.trans ?_ (hperm.countP_eq fun x => p x y)
  rw [countP_map]
  rfl

namespace ShapedRecipe

variable {recipe : ShapedRecipe I T} {input grid : CraftingInput I P}

theorem matchesShapedOrientation_eq_true {mirrored : Bool} :
    recipe.matchesShapedOrientation items input mirrored = true ↔
      ∀ x < recipe.width, ∀ y < recipe.height,
        (recipe.ingredient (if mirrored then recipe.width - 1 - x else x) y).test items
          (input.get items x y) = true := by
  simp only [matchesShapedOrientation, all_eq_true, Prod.forall, mem_gridCells]
  exact ⟨fun h x hx y hy => h x y ⟨hx, hy⟩, fun h x y hxy => h x hxy.1 y hxy.2⟩

variable [DecidableEq T]

theorem ingredient_mirror (hsymmetrical : recipe.symmetrical = true) {x y : ℕ}
    (hx : x < recipe.width) (hy : y < recipe.height) :
    recipe.ingredient (recipe.width - 1 - x) y = recipe.ingredient x y := by
  have hwidth : 0 < recipe.width := Nat.zero_lt_of_lt hx
  have hrows : recipe.pattern.length / recipe.width = recipe.height := by
    rw [recipe.size, Nat.mul_div_cancel_left _ hwidth]
  simp only [symmetrical, hrows, Bool.or_eq_true, beq_iff_eq, hwidth.ne', false_or, all_eq_true,
    mem_range] at hsymmetrical
  have hhalf : ∀ x < recipe.width / 2,
      recipe.ingredient x y = recipe.ingredient (recipe.width - 1 - x) y :=
    fun x hx => Ingredient.eq_of_eqIngredient (hsymmetrical y hy x hx)
  by_cases hleft : x < recipe.width / 2
  · exact (hhalf x hleft).symm
  · by_cases hright : recipe.width - 1 - x < recipe.width / 2
    · rw [hhalf _ hright]
      congr 1
      omega
    · congr 1
      omega

omit [DecidableEq T] in
theorem ingredientCount_of_matches (hwidth : input.width = recipe.width)
    (hheight : input.height = recipe.height) {mirrored : Bool}
    (h : recipe.matchesShapedOrientation items input mirrored = true) :
    input.ingredientCount items = recipe.pattern.countP (!·.isEmpty) := by
  rw [matchesShapedOrientation_eq_true] at h
  have hinput : input.ingredientCount items = (gridCells recipe.width recipe.height).countP
      fun cell => !(input.get items cell.1 cell.2).isEmpty items := by
    rw [CraftingInput.ingredientCount, ← hwidth, ← hheight]
    nth_rewrite 1 [eq_map_gridCells input.size (.empty items)]
    rw [countP_map]
    rfl
  have hpattern : recipe.pattern.countP (!·.isEmpty) =
      (gridCells recipe.width recipe.height).countP
        fun cell => !(recipe.ingredient cell.1 cell.2).isEmpty := by
    nth_rewrite 1 [eq_map_gridCells recipe.size .empty]
    rw [countP_map]
    rfl
  have hcells : (gridCells recipe.width recipe.height).countP
      (fun cell => !(input.get items cell.1 cell.2).isEmpty items) =
      (gridCells recipe.width recipe.height).countP fun cell =>
        !(recipe.ingredient (if mirrored then recipe.width - 1 - cell.1 else cell.1)
          cell.2).isEmpty := by
    refine countP_congr fun cell hcell => ?_
    obtain ⟨hx, hy⟩ := mem_gridCells.mp hcell
    rw [Ingredient.isEmpty_eq_of_test (h cell.1 hx cell.2 hy)]
  rw [hinput, hcells, hpattern]
  cases mirrored with
  | false => rfl
  | true => exact countP_gridCells_mirrored _ _ fun x y => !(recipe.ingredient x y).isEmpty

/-- The number of ingredients need not be compared, and neither need the mirror image be left
out. -/
theorem shaped_eq_true_iff :
    recipe.shaped items input = true ↔ input.width = recipe.width ∧ input.height = recipe.height ∧
      ∃ mirrored, recipe.matchesShapedOrientation items input mirrored = true := by
  rw [shaped]
  constructor
  · intro h
    split_ifs at h with hdiffers
    simp only [not_or, not_not] at hdiffers
    simp only [Bool.or_eq_true, Bool.and_eq_true] at h
    exact ⟨hdiffers.2.1, hdiffers.2.2, h.elim (fun h => ⟨_, h⟩) fun h => ⟨_, h.2⟩⟩
  · rintro ⟨hwidth, hheight, mirrored, hmatches⟩
    rw [if_neg (by simp [ingredientCount_of_matches hwidth hheight hmatches, hwidth, hheight])]
    simp only [Bool.or_eq_true, Bool.and_eq_true, Bool.not_eq_true']
    cases mirrored with
    | false => exact .inl hmatches
    | true =>
      cases hsymmetrical : recipe.symmetrical with
      | false => exact .inr ⟨rfl, hmatches⟩
      | true =>
        rw [matchesShapedOrientation_eq_true] at hmatches ⊢
        refine .inl fun x hx y hy => ?_
        have htest := hmatches x hx y hy
        rwa [if_pos rfl, ingredient_mirror hsymmetrical hx hy] at htest

/-- The pattern, or its mirror image, is at an offset, and nothing else is in the grid. -/
def Occurs (items : Items I P C T) (recipe : ShapedRecipe I T) (grid : CraftingInput I P)
    (left top : ℕ) (mirrored : Bool) : Prop :=
  left + recipe.width ≤ grid.width ∧ top + recipe.height ≤ grid.height ∧
    ∀ x < grid.width, ∀ y < grid.height,
      if (left ≤ x ∧ x < left + recipe.width) ∧ top ≤ y ∧ y < top + recipe.height then
        (recipe.ingredient (if mirrored then recipe.width - 1 - (x - left) else x - left)
          (y - top)).test items (grid.get items x y) = true
      else (grid.get items x y).isEmpty items = true

/-- The first and the last row and column have an ingredient. -/
structure Trimmed (recipe : ShapedRecipe I T) : Prop where
  columns : 0 < recipe.width → ∀ x, x = 0 ∨ x = recipe.width - 1 →
    ∃ y < recipe.height, (recipe.ingredient x y).isEmpty = false
  rows : 0 < recipe.height → ∀ y, y = 0 ∨ y = recipe.height - 1 →
    ∃ x < recipe.width, (recipe.ingredient x y).isEmpty = false

section Occurs

omit [DecidableEq T]

variable {left top : ℕ} {mirrored : Bool}

variable {y x : ℕ} {positioned : PositionedCraftingInput I P}

theorem Occurs.inside (h : recipe.Occurs items grid left top mirrored)
    (hcell : CraftingInput.Occupied items grid x y) :
    (left ≤ x ∧ x < left + recipe.width) ∧ top ≤ y ∧ y < top + recipe.height := by
  by_contra houtside
  have hempty := h.2.2 x hcell.1 y hcell.2.1
  rw [if_neg houtside, hcell.2.2] at hempty
  cases hempty

theorem Occurs.occupied (h : recipe.Occurs items grid left top mirrored)
    (hx : x < recipe.width) (hy : y < recipe.height)
    (hingredient : (recipe.ingredient (if mirrored then recipe.width - 1 - x else x) y).isEmpty =
      false) :
    CraftingInput.Occupied items grid (left + x) (top + y) := by
  obtain ⟨hwidth, hheight, hcells⟩ := h
  have hcell := hcells (left + x) (by omega) (top + y) (by omega)
  rw [if_pos (by omega), Nat.add_sub_cancel_left, Nat.add_sub_cancel_left] at hcell
  refine ⟨by omega, by omega, ?_⟩
  rw [← Ingredient.isEmpty_eq_of_test hcell, hingredient]

theorem Occurs.column (h : recipe.Occurs items grid left top mirrored) (htrimmed : recipe.Trimmed)
    (hx : x < recipe.width) (hside : x = 0 ∨ x = recipe.width - 1) :
    ∃ y, CraftingInput.Occupied items grid (left + x) y := by
  have hpattern : (if mirrored then recipe.width - 1 - x else x) = 0 ∨
      (if mirrored then recipe.width - 1 - x else x) = recipe.width - 1 := by
    cases mirrored <;> simp only [Bool.false_eq_true, if_false, if_true] <;> omega
  obtain ⟨y, hy, hingredient⟩ := htrimmed.columns (Nat.zero_lt_of_lt hx) _ hpattern
  exact ⟨top + y, h.occupied hx hy hingredient⟩

theorem Occurs.row (h : recipe.Occurs items grid left top mirrored) (htrimmed : recipe.Trimmed)
    (hy : y < recipe.height) (hside : y = 0 ∨ y = recipe.height - 1) :
    ∃ x, CraftingInput.Occupied items grid x (top + y) := by
  obtain ⟨x, hx, hingredient⟩ := htrimmed.rows (Nat.zero_lt_of_lt hy) y hside
  cases mirrored with
  | false => exact ⟨left + x, h.occupied hx hy hingredient⟩
  | true =>
    refine ⟨left + (recipe.width - 1 - x), h.occupied (by omega) hy ?_⟩
    rwa [if_pos rfl, Nat.sub_sub_self (by omega)]

theorem Occurs.matches (h : recipe.Occurs items grid left top mirrored)
    (hget : ∀ x < recipe.width, ∀ y < recipe.height,
      input.get items x y = grid.get items (x + left) (y + top)) :
    recipe.matchesShapedOrientation items input mirrored = true := by
  obtain ⟨hwidth, hheight, hcells⟩ := h
  rw [matchesShapedOrientation_eq_true]
  intro x hx y hy
  have hcell := hcells (x + left) (by omega) (y + top) (by omega)
  rw [if_pos (by omega), Nat.add_sub_cancel, Nat.add_sub_cancel] at hcell
  rwa [hget x hx y hy]

/-- The box of an occurrence is the pattern. -/
theorem Occurs.box (h : recipe.Occurs items grid left top mirrored) (htrimmed : recipe.Trimmed)
    (hpositioned : CraftingInput.Positioned items grid positioned) :
    (positioned.left = left ∧ positioned.input.width = recipe.width) ∧
      positioned.top = top ∧ positioned.input.height = recipe.height := by
  obtain ⟨_, hleft⟩ := hpositioned.left
  obtain ⟨_, hright⟩ := hpositioned.right
  obtain ⟨_, htop⟩ := hpositioned.top
  obtain ⟨_, hbottom⟩ := hpositioned.bottom
  replace hleft := h.inside hleft
  replace hright := h.inside hright
  replace htop := h.inside htop
  replace hbottom := h.inside hbottom
  obtain ⟨_, hfirst⟩ := h.column htrimmed (x := 0) (by omega) (.inl rfl)
  obtain ⟨_, hlast⟩ := h.column htrimmed (x := recipe.width - 1) (by omega) (.inr rfl)
  obtain ⟨_, hfirst'⟩ := h.row htrimmed (y := 0) (by omega) (.inl rfl)
  obtain ⟨_, hlast'⟩ := h.row htrimmed (y := recipe.height - 1) (by omega) (.inr rfl)
  replace hfirst := hpositioned.inside _ _ hfirst
  replace hlast := hpositioned.inside _ _ hlast
  replace hfirst' := hpositioned.inside _ _ hfirst'
  replace hlast' := hpositioned.inside _ _ hlast'
  have hwidth := hpositioned.width_pos
  have hheight := hpositioned.height_pos
  omega

theorem occurs_of_matches (hpositioned : CraftingInput.Positioned items grid positioned)
    (hwidth : positioned.input.width = recipe.width)
    (hheight : positioned.input.height = recipe.height)
    (hmatches : recipe.matchesShapedOrientation items positioned.input mirrored = true) :
    recipe.Occurs items grid positioned.left positioned.top mirrored := by
  rw [matchesShapedOrientation_eq_true] at hmatches
  refine ⟨by rw [← hwidth]; exact hpositioned.width_le, by rw [← hheight]; exact
    hpositioned.height_le, fun x hx y hy => ?_⟩
  by_cases hinside : (positioned.left ≤ x ∧ x < positioned.left + recipe.width) ∧
      positioned.top ≤ y ∧ y < positioned.top + recipe.height
  · rw [if_pos hinside]
    have hcell := hmatches (x - positioned.left) (by omega) (y - positioned.top) (by omega)
    rwa [hpositioned.get _ (by omega) _ (by omega), Nat.sub_add_cancel hinside.1.1,
      Nat.sub_add_cancel hinside.2.1] at hcell
  · rw [if_neg hinside]
    by_contra hoccupied
    have hcell := hpositioned.inside x y ⟨hx, hy, Bool.eq_false_of_not_eq_true hoccupied⟩
    rw [hwidth, hheight] at hcell
    exact hinside hcell

end Occurs

/-- A recipe matches a grid when its pattern or its mirror image is somewhere in it. -/
theorem shaped_positioned (htrimmed : recipe.Trimmed) (grid : CraftingInput I P) :
    recipe.shaped items (grid.positioned items).input = true ↔
      ∃ left top mirrored, recipe.Occurs items grid left top mirrored := by
  rw [shaped_eq_true_iff]
  by_cases hempty : ∃ x y, CraftingInput.Occupied items grid x y
  · obtain ⟨x, y, hoccupied⟩ := hempty
    have hpositioned := CraftingInput.positioned_of_occupied hoccupied
    constructor
    · rintro ⟨hwidth, hheight, mirrored, hmatches⟩
      exact ⟨_, _, mirrored, occurs_of_matches hpositioned hwidth hheight hmatches⟩
    · rintro ⟨left, top, mirrored, hoccurs⟩
      obtain ⟨⟨rfl, hwidth⟩, rfl, hheight⟩ := hoccurs.box htrimmed hpositioned
      refine ⟨hwidth, hheight, mirrored, hoccurs.matches ?_⟩
      rw [← hwidth, ← hheight]
      exact hpositioned.get
  · simp only [not_exists] at hempty
    rw [CraftingInput.positioned_of_forall_not hempty]
    constructor
    · rintro ⟨hwidth, hheight, -⟩
      have hwidth : 0 = recipe.width := hwidth
      have hheight : 0 = recipe.height := hheight
      refine ⟨0, 0, false, by omega, by omega, fun x hx y hy => ?_⟩
      rw [if_neg (by omega)]
      by_contra hoccupied
      exact hempty x y ⟨hx, hy, Bool.eq_false_of_not_eq_true hoccupied⟩
    · -- a pattern with an ingredient has a stack
      rintro ⟨left, top, mirrored, hoccurs⟩
      have hwidth : 0 = recipe.width := by
        by_contra hne
        obtain ⟨y, hcell⟩ := hoccurs.column htrimmed (x := 0) (by omega) (.inl rfl)
        exact hempty _ _ hcell
      have hheight : 0 = recipe.height := by
        by_contra hne
        obtain ⟨x, hcell⟩ := hoccurs.row htrimmed (y := 0) (by omega) (.inl rfl)
        exact hempty _ _ hcell
      refine ⟨hwidth, hheight, mirrored, hoccurs.matches fun x hx => ?_⟩
      omega

def twoItems : ShapedRecipe Bool Unit :=
  { width := 1, height := 2, pattern := [.item true, .choice [true]], size := rfl }

theorem shaped_positioned_twoItems :
    ∃ left top mirrored, twoItems.Occurs Items.one
      { width := 2, height := 2, items := [⟨false, 0, ()⟩, ⟨true, 1, ()⟩, ⟨false, 0, ()⟩,
        ⟨true, 5, ()⟩], size := rfl } left top mirrored := by
  refine (shaped_positioned ⟨?_, ?_⟩ _).mp (by decide)
  · rintro - x (rfl | rfl) <;> exact ⟨0, by decide, rfl⟩
  · rintro - y (rfl | rfl) <;> exact ⟨0, by decide, rfl⟩

end ShapedRecipe

end Steel

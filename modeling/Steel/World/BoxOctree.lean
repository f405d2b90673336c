import Mathlib.Data.Set.Insert
import Steel.Utils.Position

/-!
# The octree of placed pieces

A node keeps its boxes in a list until it has more than ten; then it hands them to eight children
whose boundaries cover its own, and a box goes into every child it touches. Boxes count whole
blocks, while the collision test compares boxes shrunk by a quarter block. Coordinates in quarter
blocks wrap; whole blocks are exact, which they are for boxes whose quarters do not wrap.
-/

namespace Steel

open List

structure IVec3 where
  x : Int
  y : Int
  z : Int
deriving DecidableEq, Repr

/-- The coordinates in quarter blocks are in the range of the machine type. -/
def IVec3.FitsQuarters (pos : IVec3) : Prop :=
  (-536870912 ≤ pos.x ∧ pos.x < 536870911) ∧ (-536870912 ≤ pos.y ∧ pos.y < 536870911) ∧
    (-536870912 ≤ pos.z ∧ pos.z < 536870911)

instance (pos : IVec3) : Decidable pos.FitsQuarters :=
  inferInstanceAs (Decidable (_ ∧ _ ∧ _))

/-- A box of whole blocks, both corners included. Every constructor of the source orders them. -/
structure BoundingBox where
  min : IVec3
  max : IVec3
  le_x : min.x ≤ max.x
  le_y : min.y ≤ max.y
  le_z : min.z ≤ max.z
deriving DecidableEq

namespace BoundingBox

def orderedPair (a b : Int) : Int × Int :=
  if a ≤ b then (a, b) else (b, a)

theorem orderedPair_le (a b : Int) : (orderedPair a b).1 ≤ (orderedPair a b).2 := by
  rw [orderedPair]
  split <;> omega

theorem orderedPair_of_le {a b : Int} (h : a ≤ b) : orderedPair a b = (a, b) :=
  if_pos h

def new (pos1 pos2 : IVec3) : BoundingBox where
  min :=
    { x := (orderedPair pos1.x pos2.x).1
      y := (orderedPair pos1.y pos2.y).1
      z := (orderedPair pos1.z pos2.z).1 }
  max :=
    { x := (orderedPair pos1.x pos2.x).2
      y := (orderedPair pos1.y pos2.y).2
      z := (orderedPair pos1.z pos2.z).2 }
  le_x := orderedPair_le _ _
  le_y := orderedPair_le _ _
  le_z := orderedPair_le _ _

variable (bbox : BoundingBox)

def FitsQuarters : Prop :=
  bbox.min.FitsQuarters ∧ bbox.max.FitsQuarters

theorem fitsQuarters_new {pos1 pos2 : IVec3} (h1 : pos1.FitsQuarters) (h2 : pos2.FitsQuarters) :
    (new pos1 pos2).FitsQuarters := by
  simp only [FitsQuarters, IVec3.FitsQuarters, new, orderedPair] at h1 h2 ⊢
  grind

def axisOverlaps (min1 max1 min2 max2 : Int) : Bool :=
  decide (min1 ≤ max2) && decide (max1 ≥ min2)

def intersects (other : BoundingBox) : Bool :=
  axisOverlaps bbox.min.x bbox.max.x other.min.x other.max.x &&
    axisOverlaps bbox.min.y bbox.max.y other.min.y other.max.y &&
    axisOverlaps bbox.min.z bbox.max.z other.min.z other.max.z

def span (raw : Int) : Int :=
  raw + 1

def width : Int :=
  span (bbox.max.x - bbox.min.x)

def height : Int :=
  span (bbox.max.y - bbox.min.y)

def depth : Int :=
  span (bbox.max.z - bbox.min.z)

def Contains (block : IVec3) : Prop :=
  (bbox.min.x ≤ block.x ∧ block.x ≤ bbox.max.x) ∧
    (bbox.min.y ≤ block.y ∧ block.y ≤ bbox.max.y) ∧
    (bbox.min.z ≤ block.z ∧ block.z ≤ bbox.max.z)

theorem intersects_iff {bbox other : BoundingBox} : bbox.intersects other = true ↔
    (bbox.min.x ≤ other.max.x ∧ bbox.max.x ≥ other.min.x) ∧
      (bbox.min.y ≤ other.max.y ∧ bbox.max.y ≥ other.min.y) ∧
      (bbox.min.z ≤ other.max.z ∧ bbox.max.z ≥ other.min.z) := by
  simp only [intersects, axisOverlaps, Bool.and_eq_true, decide_eq_true_eq, and_assoc]

theorem intersects_of_contains {bbox other : BoundingBox} {block : IVec3}
    (h : bbox.Contains block) (hother : other.Contains block) : bbox.intersects other = true := by
  obtain ⟨⟨_, _⟩, ⟨_, _⟩, _, _⟩ := h
  obtain ⟨⟨_, _⟩, ⟨_, _⟩, _, _⟩ := hother
  rw [intersects_iff]
  omega

/-- Boxes that touch share a block: the larger of the lower corners. -/
theorem exists_contains_of_intersects {bbox other : BoundingBox}
    (h : bbox.intersects other = true) :
    ∃ block, bbox.Contains block ∧ other.Contains block := by
  obtain ⟨⟨_, _⟩, ⟨_, _⟩, _, _⟩ := intersects_iff.mp h
  have := bbox.le_x
  have := bbox.le_y
  have := bbox.le_z
  have := other.le_x
  have := other.le_y
  have := other.le_z
  refine ⟨⟨Max.max bbox.min.x other.min.x, Max.max bbox.min.y other.min.y,
    Max.max bbox.min.z other.min.z⟩, ?_⟩
  simp only [Contains]
  omega

end BoundingBox

structure DeflatedQuarters where
  minX : Int
  minY : Int
  minZ : Int
  maxX : Int
  maxY : Int
  maxZ : Int
deriving DecidableEq

namespace DeflatedQuarters

def fromPiece (bbox : BoundingBox) : DeflatedQuarters where
  minX := wrapI32 (bbox.min.x * 4 + 1)
  minY := wrapI32 (bbox.min.y * 4 + 1)
  minZ := wrapI32 (bbox.min.z * 4 + 1)
  maxX := wrapI32 (bbox.max.x * 4 + 3)
  maxY := wrapI32 (bbox.max.y * 4 + 3)
  maxZ := wrapI32 (bbox.max.z * 4 + 3)

def boundaryFrom (bbox : BoundingBox) : DeflatedQuarters where
  minX := wrapI32 (bbox.min.x * 4)
  minY := wrapI32 (bbox.min.y * 4)
  minZ := wrapI32 (bbox.min.z * 4)
  maxX := wrapI32 (bbox.max.x * 4 + 4)
  maxY := wrapI32 (bbox.max.y * 4 + 4)
  maxZ := wrapI32 (bbox.max.z * 4 + 4)

theorem fromPiece_eq {bbox : BoundingBox} (h : bbox.FitsQuarters) : fromPiece bbox =
    ⟨bbox.min.x * 4 + 1, bbox.min.y * 4 + 1, bbox.min.z * 4 + 1, bbox.max.x * 4 + 3,
      bbox.max.y * 4 + 3, bbox.max.z * 4 + 3⟩ := by
  simp only [BoundingBox.FitsQuarters, IVec3.FitsQuarters] at h
  simp (disch := omega) only [fromPiece, wrapI32_eq_self]

theorem boundaryFrom_eq {bbox : BoundingBox} (h : bbox.FitsQuarters) : boundaryFrom bbox =
    ⟨bbox.min.x * 4, bbox.min.y * 4, bbox.min.z * 4, bbox.max.x * 4 + 4, bbox.max.y * 4 + 4,
      bbox.max.z * 4 + 4⟩ := by
  simp only [BoundingBox.FitsQuarters, IVec3.FitsQuarters] at h
  simp (disch := omega) only [boundaryFrom, wrapI32_eq_self]

def isEmpty (quarters : DeflatedQuarters) : Bool :=
  decide (quarters.minX ≥ quarters.maxX) || decide (quarters.minY ≥ quarters.maxY) ||
    decide (quarters.minZ ≥ quarters.maxZ)

def contains (quarters inner : DeflatedQuarters) : Bool :=
  decide (quarters.minX ≤ inner.minX) && decide (quarters.minY ≤ inner.minY) &&
    decide (quarters.minZ ≤ inner.minZ) && decide (quarters.maxX ≥ inner.maxX) &&
    decide (quarters.maxY ≥ inner.maxY) && decide (quarters.maxZ ≥ inner.maxZ)

def intersects (quarters other : DeflatedQuarters) : Bool :=
  decide (quarters.minX < other.maxX) && decide (quarters.maxX > other.minX) &&
    decide (quarters.minY < other.maxY) && decide (quarters.maxY > other.minY) &&
    decide (quarters.minZ < other.maxZ) && decide (quarters.maxZ > other.minZ)

theorem intersects_iff {quarters other : DeflatedQuarters} : quarters.intersects other = true ↔
    ((((quarters.minX < other.maxX ∧ quarters.maxX > other.minX) ∧ quarters.minY < other.maxY) ∧
      quarters.maxY > other.minY) ∧ quarters.minZ < other.maxZ) ∧ quarters.maxZ > other.minZ := by
  simp only [intersects, Bool.and_eq_true, decide_eq_true_eq]

/-- Shrinking two boxes by a quarter block neither parts them nor lets them touch. -/
theorem fromPiece_intersects {bbox other : BoundingBox} (hbbox : bbox.FitsQuarters)
    (hother : other.FitsQuarters) :
    (fromPiece bbox).intersects (fromPiece other) = bbox.intersects other := by
  rw [Bool.eq_iff_iff, BoundingBox.intersects_iff, intersects_iff, fromPiece_eq hbbox,
    fromPiece_eq hother]
  dsimp only
  omega

theorem boundaryFrom_intersects {boundary bbox : BoundingBox} (hboundary : boundary.FitsQuarters)
    (hbbox : bbox.FitsQuarters) :
    (boundaryFrom boundary).intersects (fromPiece bbox) = boundary.intersects bbox := by
  rw [Bool.eq_iff_iff, BoundingBox.intersects_iff, intersects_iff, fromPiece_eq hbbox,
    boundaryFrom_eq hboundary]
  dsimp only
  omega

theorem contains_of_boundaryFrom_contains {boundary bbox : BoundingBox} {block : IVec3}
    (hboundary : boundary.FitsQuarters) (hbbox : bbox.FitsQuarters)
    (h : (boundaryFrom boundary).contains (fromPiece bbox) = true) (hblock : bbox.Contains block) :
    boundary.Contains block := by
  rw [fromPiece_eq hbbox, boundaryFrom_eq hboundary] at h
  simp only [contains, Bool.and_eq_true, decide_eq_true_eq] at h
  simp only [BoundingBox.Contains] at hblock ⊢
  omega

end DeflatedQuarters

structure StoredBox where
  bbox : BoundingBox
  deflated : DeflatedQuarters

def StoredBox.new (bbox : BoundingBox) : StoredBox :=
  { bbox, deflated := .fromPiece bbox }

inductive BoxOctree where
  | mk (boundary : BoundingBox) (boundaryQuarters : DeflatedQuarters) (size : IVec3) (depth : ℕ)
    (innerBoxes : List StoredBox) (children : List BoxOctree)

namespace BoxOctree

def subdivideThreshold : ℕ := 10

def maximumDepth : ℕ := 3

def boundary : BoxOctree → BoundingBox
  | mk boundary _ _ _ _ _ => boundary

def boundaryQuarters : BoxOctree → DeflatedQuarters
  | mk _ boundaryQuarters _ _ _ _ => boundaryQuarters

def roundAwayFromZero (value : Int) : Int :=
  if value ≥ 0 then value else -value

def sizeOfBoundary (boundary : BoundingBox) : IVec3 where
  x := roundAwayFromZero boundary.width
  y := roundAwayFromZero boundary.height
  z := roundAwayFromZero boundary.depth

def withDepth (boundary : BoundingBox) (boundaryQuarters : DeflatedQuarters) (parentDepth : ℕ) :
    BoxOctree :=
  mk boundary boundaryQuarters (sizeOfBoundary boundary) (parentDepth + 1) [] []

def new (boundary : BoundingBox) : BoxOctree :=
  withDepth boundary (.boundaryFrom boundary) 0

def boundaryIntersects (tree : BoxOctree) (candidate : BoundingBox) : Bool :=
  tree.boundary.intersects candidate

def childBounds (boundary : BoundingBox) (size : IVec3) : List BoundingBox :=
  let min := boundary.min
  let max := boundary.max
  let halfX := size.x.tdiv 2
  let halfY := size.y.tdiv 2
  let halfZ := size.z.tdiv 2
  [.new ⟨min.x, min.y, min.z⟩ ⟨min.x + halfX, min.y + halfY, min.z + halfZ⟩,
    .new ⟨min.x, min.y, min.z + halfZ⟩ ⟨min.x + halfX, min.y + halfY, max.z⟩,
    .new ⟨min.x + halfX, min.y, min.z⟩ ⟨max.x, min.y + halfY, min.z + halfZ⟩,
    .new ⟨min.x + halfX, min.y, min.z + halfZ⟩ ⟨max.x, min.y + halfY, max.z⟩,
    .new ⟨min.x, min.y + halfY, min.z⟩ ⟨min.x + halfX, max.y, min.z + halfZ⟩,
    .new ⟨min.x, min.y + halfY, min.z + halfZ⟩ ⟨min.x + halfX, max.y, max.z⟩,
    .new ⟨min.x + halfX, min.y + halfY, min.z⟩ ⟨max.x, max.y, min.z + halfZ⟩,
    .new ⟨min.x + halfX, min.y + halfY, min.z + halfZ⟩ ⟨max.x, max.y, max.z⟩]

/-- The loop over the children, with what adds a box to one of them. -/
def addToChildren (addBox : BoxOctree → BoundingBox → Option BoxOctree)
    (children : List BoxOctree) (bbox : BoundingBox) : Option (List BoxOctree) :=
  children.mapM fun child => if child.boundaryIntersects bbox then addBox child bbox else some child

/-- `none` is the failed assertion that there are no children yet. -/
def subdivide (addBox : BoxOctree → BoundingBox → Option BoxOctree) : BoxOctree → Option BoxOctree
  | mk boundary boundaryQuarters size depth innerBoxes children => do
    if !children.isEmpty then none
    else
      let children := (childBounds boundary size).map fun boundary =>
        withDepth boundary (.boundaryFrom boundary) depth
      let children ← innerBoxes.foldlM (fun children stored =>
        addToChildren addBox children stored.bbox) children
      some (mk boundary boundaryQuarters size depth [] children)

/-- The part of `add_box` after the node has been subdivided if need be. -/
def insertBox (addBox : BoxOctree → BoundingBox → Option BoxOctree) (bbox : BoundingBox) :
    BoxOctree → Option BoxOctree
  | mk boundary boundaryQuarters size depth innerBoxes children =>
    if !children.isEmpty then
      (addToChildren addBox children bbox).map
        (mk boundary boundaryQuarters size depth innerBoxes)
    else if innerBoxes.any (·.bbox = bbox) then
      some (mk boundary boundaryQuarters size depth innerBoxes children)
    else some (mk boundary boundaryQuarters size depth (innerBoxes ++ [.new bbox]) children)

/-- `none` is a failed assertion, or a recursion deeper than `levels`. -/
def addBoxWithin : ℕ → BoxOctree → BoundingBox → Option BoxOctree
  | 0, _, _ => none
  | levels + 1, mk boundary boundaryQuarters size depth innerBoxes children, bbox => do
    let tree := mk boundary boundaryQuarters size depth innerBoxes children
    let tree ←
      if depth < maximumDepth ∧ innerBoxes.length > subdivideThreshold then
        tree.subdivide (addBoxWithin levels)
      else some tree
    tree.insertBox (addBoxWithin levels) bbox

def addBox (tree : BoxOctree) (bbox : BoundingBox) : Option BoxOctree :=
  addBoxWithin maximumDepth tree bbox

mutual

def intersectsDeflated (deflated : DeflatedQuarters) (candidate : BoundingBox) : BoxOctree → Bool
  | mk _ _ _ _ innerBoxes children =>
    if !children.isEmpty then anyIntersectsDeflated deflated candidate children
    else innerBoxes.any fun stored =>
      candidate.intersects stored.bbox && deflated.intersects stored.deflated

def anyIntersectsDeflated (deflated : DeflatedQuarters) (candidate : BoundingBox) :
    List BoxOctree → Bool
  | [] => false
  | child :: children =>
    (child.boundaryQuarters.intersects deflated && intersectsDeflated deflated candidate child) ||
      anyIntersectsDeflated deflated candidate children

end

def withinBoundsButNotIntersectingChildren (tree : BoxOctree) (candidate : BoundingBox) : Bool :=
  let deflated := DeflatedQuarters.fromPiece candidate
  if deflated.isEmpty then false
  else tree.boundaryQuarters.contains deflated && !tree.intersectsDeflated deflated candidate

theorem new_contains {pos1 pos2 block : IVec3} (hx : pos1.x ≤ block.x ∧ block.x ≤ pos2.x)
    (hy : pos1.y ≤ block.y ∧ block.y ≤ pos2.y) (hz : pos1.z ≤ block.z ∧ block.z ≤ pos2.z) :
    (BoundingBox.new pos1 pos2).Contains block := by
  simp only [BoundingBox.Contains, BoundingBox.new,
    BoundingBox.orderedPair_of_le (hx.1.trans hx.2),
    BoundingBox.orderedPair_of_le (hy.1.trans hy.2),
    BoundingBox.orderedPair_of_le (hz.1.trans hz.2)]
  exact ⟨hx, hy, hz⟩

/-- The halves of an axis share the block in the middle and miss none. -/
theorem exists_childBounds_contains {boundary : BoundingBox} {block : IVec3}
    (h : boundary.Contains block) :
    ∃ child ∈ childBounds boundary (sizeOfBoundary boundary), child.Contains block := by
  obtain ⟨⟨hx, hx'⟩, ⟨hy, hy'⟩, hz, hz'⟩ := h
  rcases le_total block.x (boundary.min.x + (sizeOfBoundary boundary).x.tdiv 2) with hxm | hxm <;>
    rcases le_total block.y (boundary.min.y + (sizeOfBoundary boundary).y.tdiv 2) with hym | hym <;>
    rcases le_total block.z (boundary.min.z + (sizeOfBoundary boundary).z.tdiv 2) with hzm | hzm
  · exact ⟨_, mem_of_getElem? (i := 0) rfl, new_contains ⟨hx, hxm⟩ ⟨hy, hym⟩ ⟨hz, hzm⟩⟩
  · exact ⟨_, mem_of_getElem? (i := 1) rfl, new_contains ⟨hx, hxm⟩ ⟨hy, hym⟩ ⟨hzm, hz'⟩⟩
  · exact ⟨_, mem_of_getElem? (i := 4) rfl, new_contains ⟨hx, hxm⟩ ⟨hym, hy'⟩ ⟨hz, hzm⟩⟩
  · exact ⟨_, mem_of_getElem? (i := 5) rfl, new_contains ⟨hx, hxm⟩ ⟨hym, hy'⟩ ⟨hzm, hz'⟩⟩
  · exact ⟨_, mem_of_getElem? (i := 2) rfl, new_contains ⟨hxm, hx'⟩ ⟨hy, hym⟩ ⟨hz, hzm⟩⟩
  · exact ⟨_, mem_of_getElem? (i := 3) rfl, new_contains ⟨hxm, hx'⟩ ⟨hy, hym⟩ ⟨hzm, hz'⟩⟩
  · exact ⟨_, mem_of_getElem? (i := 6) rfl, new_contains ⟨hxm, hx'⟩ ⟨hym, hy'⟩ ⟨hz, hzm⟩⟩
  · exact ⟨_, mem_of_getElem? (i := 7) rfl, new_contains ⟨hxm, hx'⟩ ⟨hym, hy'⟩ ⟨hzm, hz'⟩⟩

theorem half_mem {low high : Int} (h : low ≤ high) :
    low ≤ low + (roundAwayFromZero (BoundingBox.span (high - low))).tdiv 2 ∧
      low + (roundAwayFromZero (BoundingBox.span (high - low))).tdiv 2 ≤ high := by
  have hspan : 0 ≤ BoundingBox.span (high - low) := by
    rw [BoundingBox.span]
    omega
  rw [roundAwayFromZero, if_pos hspan, Int.tdiv_eq_ediv_of_nonneg hspan, BoundingBox.span]
  omega

theorem fitsQuarters_childBounds {boundary child : BoundingBox} (h : boundary.FitsQuarters)
    (hchild : child ∈ childBounds boundary (sizeOfBoundary boundary)) : child.FitsQuarters := by
  obtain ⟨⟨hx, hy, hz⟩, hx', hy', hz'⟩ := h
  have hmidX := half_mem boundary.le_x
  have hmidY := half_mem boundary.le_y
  have hmidZ := half_mem boundary.le_z
  simp only [childBounds, sizeOfBoundary, BoundingBox.width, BoundingBox.height, BoundingBox.depth,
    mem_cons, not_mem_nil, or_false] at hchild
  rcases hchild with rfl | rfl | rfl | rfl | rfl | rfl | rfl | rfl <;>
    refine BoundingBox.fitsQuarters_new ⟨?_, ?_, ?_⟩ ⟨?_, ?_, ?_⟩ <;> dsimp only <;> omega

/-- A node with so many levels below it to which the boxes of a set have been added. -/
inductive Stores : ℕ → BoxOctree → Set BoundingBox → Prop
  | leaf {levels depth : ℕ} {boundary : BoundingBox} {boxes : List BoundingBox}
      {added : Set BoundingBox} (depth_add : depth + levels = maximumDepth)
      (fits : boundary.FitsQuarters)
      (mem_iff : ∀ bbox, bbox ∈ added ↔ bbox ∈ boxes) :
      Stores (levels + 1) (mk boundary (.boundaryFrom boundary) (sizeOfBoundary boundary) depth
        (boxes.map .new) []) added
  | node {levels depth : ℕ} {boundary : BoundingBox} {children : List BoxOctree}
      {added : Set BoundingBox} (depth_add : depth + levels = maximumDepth)
      (fits : boundary.FitsQuarters) (ne_nil : children ≠ [])
      (cover : ∀ block, boundary.Contains block →
        ∃ bounds ∈ children.map BoxOctree.boundary, bounds.Contains block)
      (stores : ∀ child ∈ children,
        Stores levels child {bbox ∈ added | child.boundaryIntersects bbox = true}) :
      Stores (levels + 1) (mk boundary (.boundaryFrom boundary) (sizeOfBoundary boundary) depth []
        children) added

variable {levels : ℕ} {tree : BoxOctree} {added : Set BoundingBox}

theorem Stores.boundaryQuarters_eq (h : Stores levels tree added) :
    tree.boundaryQuarters = .boundaryFrom tree.boundary := by
  cases h <;> rfl

theorem Stores.fitsQuarters (h : Stores levels tree added) : tree.boundary.FitsQuarters := by
  cases h <;> assumption

theorem anyIntersectsDeflated_iff {deflated : DeflatedQuarters} {candidate : BoundingBox}
    {children : List BoxOctree} :
    anyIntersectsDeflated deflated candidate children = true ↔ ∃ child ∈ children,
      child.boundaryQuarters.intersects deflated = true ∧
        intersectsDeflated deflated candidate child = true := by
  induction children with
  | nil => simp [anyIntersectsDeflated]
  | cons child children ih => simp [anyIntersectsDeflated, ih]

theorem Stores.exists_of_intersectsDeflated (h : Stores levels tree added)
    {candidate : BoundingBox}
    (hfound : tree.intersectsDeflated (.fromPiece candidate) candidate = true) :
    ∃ bbox ∈ added, candidate.intersects bbox = true := by
  induction h with
  | leaf _ _ mem_iff =>
    simp only [intersectsDeflated, isEmpty_nil, Bool.not_true, Bool.false_eq_true, if_false,
      any_map, any_eq_true, Function.comp, StoredBox.new, Bool.and_eq_true] at hfound
    obtain ⟨bbox, hbbox, hintersects, _⟩ := hfound
    exact ⟨bbox, (mem_iff bbox).mpr hbbox, hintersects⟩
  | node _ _ ne_nil _ _ ih =>
    rw [intersectsDeflated, if_pos (by simpa using ne_nil), anyIntersectsDeflated_iff] at hfound
    obtain ⟨child, hchild, _, hbelow⟩ := hfound
    obtain ⟨bbox, hbbox, hintersects⟩ := ih child hchild hbelow
    exact ⟨bbox, hbbox.1, hintersects⟩

/-- Any block that a stored box and the candidate share leads the query to the box. -/
theorem Stores.intersectsDeflated_of_contains (h : Stores levels tree added)
    {candidate bbox : BoundingBox} {block : IVec3} (hfits : candidate.FitsQuarters)
    (hfits' : bbox.FitsQuarters) (hadded : bbox ∈ added)
    (htree : tree.boundary.Contains block) (hcandidate : candidate.Contains block)
    (hbbox : bbox.Contains block) :
    tree.intersectsDeflated (.fromPiece candidate) candidate = true := by
  induction h with
  | leaf _ _ mem_iff =>
    have hintersects := BoundingBox.intersects_of_contains hcandidate hbbox
    simp only [intersectsDeflated, isEmpty_nil, Bool.not_true, Bool.false_eq_true, if_false,
      any_map, any_eq_true, Function.comp, StoredBox.new, Bool.and_eq_true]
    exact ⟨bbox, (mem_iff bbox).mp hadded, hintersects,
      (DeflatedQuarters.fromPiece_intersects hfits hfits').trans hintersects⟩
  | node _ _ ne_nil cover stores ih =>
    rw [intersectsDeflated, if_pos (by simpa using ne_nil), anyIntersectsDeflated_iff]
    obtain ⟨bounds, hbounds, hblock⟩ := cover block htree
    obtain ⟨child, hchild, rfl⟩ := mem_map.mp hbounds
    refine ⟨child, hchild, ?_, ih child hchild ⟨hadded, ?_⟩ hblock⟩
    · rw [(stores child hchild).boundaryQuarters_eq,
        DeflatedQuarters.boundaryFrom_intersects (stores child hchild).fitsQuarters hfits]
      exact BoundingBox.intersects_of_contains hblock hcandidate
    · exact BoundingBox.intersects_of_contains hblock hbbox

theorem setOf_mem_cons_union (bbox : BoundingBox) (boxes : List BoundingBox)
    (added : Set BoundingBox) : {other | other ∈ bbox :: boxes} ∪ added =
      {other | other ∈ boxes} ∪ insert bbox added := by
  ext other
  simp only [Set.mem_union, Set.mem_ofPred_eq, mem_cons, Set.mem_insert_iff]
  grind

/-- What adding a box to a node with so many levels below it does. -/
def Adds (levels : ℕ) (addBox : BoxOctree → BoundingBox → Option BoxOctree) : Prop :=
  ∀ tree added bbox, Stores levels tree added → ∃ tree', addBox tree bbox = some tree' ∧
    tree'.boundary = tree.boundary ∧ Stores levels tree' (insert bbox added)

section Add

variable {add : BoxOctree → BoundingBox → Option BoxOctree} (hadd : Adds levels add)

include hadd

theorem addToChildren_spec {children : List BoxOctree} (bbox : BoundingBox)
    (h : ∀ child ∈ children,
      Stores levels child {bbox ∈ added | child.boundaryIntersects bbox = true}) :
    ∃ children', addToChildren add children bbox = some children' ∧
      children'.map boundary = children.map boundary ∧ ∀ child ∈ children', Stores levels child
        {other ∈ insert bbox added | child.boundaryIntersects other = true} := by
  induction children with
  | nil => exact ⟨[], rfl, rfl, by simp⟩
  | cons child children ih =>
    obtain ⟨hchild, hchildren⟩ := forall_mem_cons.mp h
    obtain ⟨children', hrest, hboundaries, hstores⟩ := ih hchildren
    obtain ⟨child', hfirst, hboundary, hstore⟩ : ∃ child',
        (if child.boundaryIntersects bbox then add child bbox else some child) = some child' ∧
          child'.boundary = child.boundary ∧ Stores levels child'
            {other ∈ insert bbox added | child.boundaryIntersects other = true} := by
      split
      · rename_i htouches
        rw [show {other ∈ insert bbox added | child.boundaryIntersects other = true} =
          insert bbox {other ∈ added | child.boundaryIntersects other = true} by
            ext other; simp only [Set.mem_ofPred_eq, Set.mem_insert_iff]; grind]
        exact hadd _ _ bbox hchild
      · rename_i htouches
        refine ⟨child, rfl, rfl, ?_⟩
        rwa [show {other ∈ insert bbox added | child.boundaryIntersects other = true} =
          {other ∈ added | child.boundaryIntersects other = true} by
            ext other; simp only [Set.mem_ofPred_eq, Set.mem_insert_iff]; grind]
    refine ⟨child' :: children', ?_, ?_, forall_mem_cons.mpr ⟨?_, hstores⟩⟩
    · rw [addToChildren] at hrest
      rw [addToChildren, mapM_cons, hfirst, hrest]
      rfl
    · rw [map_cons, map_cons, hboundary, hboundaries]
    · simpa only [boundaryIntersects, hboundary] using hstore

theorem foldlM_addToChildren_spec {children : List BoxOctree} (boxes : List BoundingBox)
    (h : ∀ child ∈ children,
      Stores levels child {bbox ∈ added | child.boundaryIntersects bbox = true}) :
    ∃ children', (boxes.map StoredBox.new).foldlM (fun children stored =>
        addToChildren add children stored.bbox) children = some children' ∧
      children'.map boundary = children.map boundary ∧ ∀ child ∈ children', Stores levels child
        {other ∈ {other | other ∈ boxes} ∪ added | child.boundaryIntersects other = true} := by
  induction boxes generalizing children added with
  | nil => exact ⟨children, rfl, rfl, by simpa using h⟩
  | cons bbox boxes ih =>
    obtain ⟨children', hfirst, hboundaries, hstores⟩ := addToChildren_spec hadd bbox h
    obtain ⟨children'', hrest, hboundaries', hstores'⟩ := ih hstores
    refine ⟨children'', ?_, hboundaries'.trans hboundaries, ?_⟩
    · rw [map_cons, foldlM_cons]
      exact (congrArg (· >>= _) hfirst).trans hrest
    · rwa [setOf_mem_cons_union]

/-- A leaf that is subdivided has no children yet, and its boxes are those of the new ones. -/
theorem subdivide_spec {depth : ℕ} {boundary : BoundingBox} {boxes : List BoundingBox}
    (hdepth : depth + levels = maximumDepth) (hlt : depth < maximumDepth)
    (hfits : boundary.FitsQuarters) (hmem : ∀ bbox, bbox ∈ added ↔ bbox ∈ boxes) :
    ∃ tree', subdivide add (mk boundary (.boundaryFrom boundary) (sizeOfBoundary boundary) depth
        (boxes.map .new) []) = some tree' ∧
      tree'.boundary = boundary ∧ Stores (levels + 1) tree' added := by
  obtain ⟨below, rfl⟩ : ∃ below, levels = below + 1 := ⟨levels - 1, by omega⟩
  have hempty : ∀ child ∈ (childBounds boundary (sizeOfBoundary boundary)).map
      (fun boundary => withDepth boundary (.boundaryFrom boundary) depth),
      Stores (below + 1) child
        {bbox ∈ (∅ : Set BoundingBox) | child.boundaryIntersects bbox = true} := by
    intro child hchild
    obtain ⟨bounds, hbounds, rfl⟩ := mem_map.mp hchild
    exact @Stores.leaf below (depth + 1) bounds [] _ (by omega)
      (fitsQuarters_childBounds hfits hbounds) (by simp)
  obtain ⟨children', hfold, hboundaries, hstores⟩ := foldlM_addToChildren_spec hadd boxes hempty
  refine ⟨mk boundary (.boundaryFrom boundary) (sizeOfBoundary boundary) depth [] children', ?_,
    rfl, .node hdepth hfits ?_ ?_ ?_⟩
  · simp only [subdivide, isEmpty_nil, Bool.not_true, Bool.false_eq_true, if_false, hfold]
    rfl
  · rintro rfl
    exact cons_ne_nil _ _ hboundaries.symm
  · intro block hblock
    rw [hboundaries, map_map]
    obtain ⟨bounds, hbounds, hcontains⟩ := exists_childBounds_contains hblock
    exact ⟨bounds, mem_map.mpr ⟨bounds, hbounds, rfl⟩, hcontains⟩
  · rwa [show added = {other | other ∈ boxes} ∪ ∅ by ext other; simpa using hmem other]

/-- A box goes to every child that it meets, or stays in the node. -/
theorem insertBox_spec (bbox : BoundingBox) (h : Stores (levels + 1) tree added) :
    ∃ tree', insertBox add bbox tree = some tree' ∧ tree'.boundary = tree.boundary ∧
      Stores (levels + 1) tree' (insert bbox added) := by
  cases h with
  | @leaf _ depth boundary boxes _ depth_add fits mem_iff =>
    rw [insertBox, if_neg (by simp)]
    split
    · rename_i hknown
      have hmem : bbox ∈ boxes := by
        obtain ⟨_, hstored, heq⟩ := any_eq_true.mp hknown
        obtain ⟨known, hknown, rfl⟩ := mem_map.mp hstored
        exact of_decide_eq_true heq ▸ hknown
      refine ⟨_, rfl, rfl, .leaf depth_add fits ?_⟩
      intro other
      rw [Set.mem_insert_iff, mem_iff]
      grind
    · refine ⟨_, rfl, rfl, ?_⟩
      rw [show boxes.map StoredBox.new ++ [.new bbox] = (boxes ++ [bbox]).map StoredBox.new by simp]
      refine .leaf depth_add fits ?_
      intro other
      rw [Set.mem_insert_iff, mem_iff]
      grind
  | @node _ depth boundary children _ depth_add fits ne_nil cover stores =>
    obtain ⟨children', hchildren, hboundaries, hstores⟩ := addToChildren_spec hadd bbox stores
    rw [insertBox, if_pos (by simpa using ne_nil), hchildren]
    refine ⟨_, rfl, rfl, .node depth_add fits ?_ (by rwa [hboundaries]) hstores⟩
    rintro rfl
    exact ne_nil (map_eq_nil_iff.mp hboundaries.symm)

end Add

theorem adds_addBoxWithin (levels : ℕ) : Adds levels (addBoxWithin levels) := by
  induction levels with
  | zero =>
    intro tree added bbox h
    cases h
  | succ levels ih =>
    intro tree added bbox h
    have hinsert := insertBox_spec ih bbox h
    cases h with
    | @leaf _ depth boundary boxes _ depth_add fits mem_iff =>
      rw [addBoxWithin]
      split
      · rename_i hfull
        obtain ⟨tree', hsubdivide, hboundary, hstores⟩ :=
          @subdivide_spec levels added _ ih depth boundary boxes depth_add hfull.1 fits mem_iff
        obtain ⟨tree'', hinsert, hboundary', hstores'⟩ := insertBox_spec ih bbox hstores
        refine ⟨tree'', ?_, hboundary'.trans hboundary, hstores'⟩
        rw [hsubdivide]
        exact hinsert
      · exact hinsert
    | node _ _ _ _ _ =>
      rw [addBoxWithin, if_neg (by simp)]
      exact hinsert

theorem stores_new {boundary : BoundingBox} (h : boundary.FitsQuarters) :
    Stores maximumDepth (new boundary) ∅ :=
  @Stores.leaf 2 1 boundary [] ∅ rfl h (by simp)

theorem foldlM_addBox_spec (boxes : List BoundingBox) (h : Stores maximumDepth tree added) :
    ∃ tree', boxes.foldlM addBox tree = some tree' ∧ tree'.boundary = tree.boundary ∧
      Stores maximumDepth tree' ({bbox | bbox ∈ boxes} ∪ added) := by
  induction boxes generalizing tree added with
  | nil => exact ⟨tree, rfl, rfl, by simpa using h⟩
  | cons bbox boxes ih =>
    obtain ⟨next, hfirst, hboundary, hstores⟩ := adds_addBoxWithin maximumDepth tree added bbox h
    obtain ⟨tree', hrest, hboundary', hstores'⟩ := ih hstores
    refine ⟨tree', ?_, hboundary'.trans hboundary, ?_⟩
    · rw [foldlM_cons]
      exact (congrArg (· >>= _) hfirst).trans hrest
    · rwa [setOf_mem_cons_union]

/-- No assertion fails, and the tree answers as the plain list of the added boxes would. -/
theorem withinBoundsButNotIntersectingChildren_iff {boundary candidate : BoundingBox}
    {boxes : List BoundingBox} (hboundaryFits : boundary.FitsQuarters)
    (hboxes : ∀ bbox ∈ boxes, bbox.FitsQuarters) (hfits : candidate.FitsQuarters) :
    ∃ tree, boxes.foldlM addBox (new boundary) = some tree ∧
      (tree.withinBoundsButNotIntersectingChildren candidate = true ↔
        (DeflatedQuarters.fromPiece candidate).isEmpty = false ∧
          (DeflatedQuarters.boundaryFrom boundary).contains (.fromPiece candidate) = true ∧
          ∀ bbox ∈ boxes,
            (DeflatedQuarters.fromPiece candidate).intersects (.fromPiece bbox) = false) := by
  obtain ⟨tree, hfold, hboundary, hstores⟩ := foldlM_addBox_spec boxes (stores_new hboundaryFits)
  refine ⟨tree, hfold, ?_⟩
  rw [Set.union_empty] at hstores
  rw [withinBoundsButNotIntersectingChildren, hstores.boundaryQuarters_eq, hboundary]
  split
  · rename_i hempty
    simp [hempty]
  · rename_i hempty
    rw [Bool.and_eq_true, Bool.not_eq_true', and_iff_right (Bool.eq_false_of_not_eq_true hempty)]
    refine and_congr_right fun hinside => ⟨?_, ?_⟩
    · intro hclear bbox hbbox
      refine Bool.eq_false_of_not_eq_true fun hintersects => ?_
      rw [DeflatedQuarters.fromPiece_intersects hfits (hboxes bbox hbbox)] at hintersects
      obtain ⟨block, hcandidate, hblock⟩ := BoundingBox.exists_contains_of_intersects hintersects
      have htree : tree.boundary.Contains block := by
        rw [hboundary]
        exact DeflatedQuarters.contains_of_boundaryFrom_contains hboundaryFits hfits hinside
          hcandidate
      exact absurd (hstores.intersectsDeflated_of_contains hfits (hboxes bbox hbbox) hbbox htree
        hcandidate hblock) (Bool.eq_false_iff.mp hclear)
    · intro hclear
      refine Bool.eq_false_of_not_eq_true fun hfound => ?_
      obtain ⟨bbox, hbbox, hintersects⟩ := hstores.exists_of_intersectsDeflated hfound
      rw [← DeflatedQuarters.fromPiece_intersects hfits (hboxes bbox hbbox),
        hclear bbox hbbox] at hintersects
      exact Bool.false_ne_true hintersects

def rowBlock (i : Fin 12) : BoundingBox :=
  .new ⟨i, 0, 0⟩ ⟨i, 0, 0⟩

theorem withinBoundsButNotIntersectingChildren_iff_row :
    ∃ tree, ((finRange 12).map rowBlock).foldlM addBox
        (new (.new ⟨0, 0, 0⟩ ⟨15, 15, 15⟩)) = some tree ∧
      tree.withinBoundsButNotIntersectingChildren (.new ⟨0, 1, 0⟩ ⟨11, 1, 0⟩) = true := by
  obtain ⟨tree, htree, hiff⟩ := @withinBoundsButNotIntersectingChildren_iff
    (.new ⟨0, 0, 0⟩ ⟨15, 15, 15⟩) (.new ⟨0, 1, 0⟩ ⟨11, 1, 0⟩) ((finRange 12).map rowBlock)
    (BoundingBox.fitsQuarters_new (by decide) (by decide)) (by
      intro bbox hbbox
      obtain ⟨i, -, rfl⟩ := mem_map.mp hbbox
      refine BoundingBox.fitsQuarters_new ?_ ?_ <;> revert i <;> decide)
    (BoundingBox.fitsQuarters_new (by decide) (by decide))
  exact ⟨tree, htree, hiff.mpr (by decide)⟩

end BoxOctree

end Steel

import Steel.Lib.Loop
import Steel.Utils.Position

/-!
# Going over the blocks around a block

By Manhattan distance, shell after shell, or from neighbor to neighbor. Coordinates are those of
`i32` where nothing overflows.
-/

namespace Steel

namespace BlockPos

def offsetCoords (pos : BlockPos) (x y z : Int) : BlockPos :=
  { x := pos.x + x, y := pos.y + y, z := pos.z + z }

end BlockPos

/-! ### By Manhattan distance -/

structure BlockPosWithinManhattan where
  origin : BlockPos
  reachX : Int
  reachY : Int
  reachZ : Int
  maxDepth : Int
  currentDepth : Int
  maxX : Int
  maxY : Int
  x : Int
  y : Int
  pendingZMirror : Option BlockPos
  done : Bool

namespace BlockPosWithinManhattan

variable (walk : BlockPosWithinManhattan)

def startRow : BlockPosWithinManhattan :=
  let maxY := min walk.reachY (walk.currentDepth - walk.x.natAbs)
  { walk with maxY, y := -maxY }

/-- The block of the row that is next, unless it is out of reach. -/
def visit : Round BlockPosWithinManhattan (Option BlockPos × BlockPosWithinManhattan) :=
  let x := walk.x
  let y := walk.y
  let z := walk.currentDepth - x.natAbs - y.natAbs
  let walk := { walk with y := walk.y + 1 }
  if walk.reachZ < z then .again walk
  else
    let pos := walk.origin.offsetCoords x y z
    if z ≠ 0 then
      .leave (some pos, { walk with pendingZMirror := some (walk.origin.offsetCoords x y (-z)) })
    else .leave (some pos, walk)

def round : Round BlockPosWithinManhattan (Option BlockPos × BlockPosWithinManhattan) :=
  if walk.maxY < walk.y then
    let walk := { walk with x := walk.x + 1 }
    if walk.maxX < walk.x then
      let walk := { walk with currentDepth := walk.currentDepth + 1 }
      if walk.maxDepth < walk.currentDepth then .leave (none, { walk with done := true })
      else
        let maxX := min walk.reachX walk.currentDepth
        { walk with maxX, x := -maxX }.startRow.visit
    else walk.startRow.visit
  else walk.visit

def next (fuel : ℕ) (walk : BlockPosWithinManhattan) :
    Option (Option BlockPos × BlockPosWithinManhattan) :=
  match walk.pendingZMirror with
  | some pos => some (some pos, { walk with pendingZMirror := none })
  | none => if walk.done then some (none, walk) else loop (some ∘ round) fuel walk

/-- What the iterator yields until it ends, or `none` if it has not ended by then. -/
def collect : ℕ → BlockPosWithinManhattan → Option (List BlockPos)
  | 0, _ => none
  | fuel + 1, walk =>
    match walk.next (fuel + 1) with
    | none => none
    | some (none, _) => some []
    | some (some pos, walk) => (collect fuel walk).map (pos :: ·)

/-- `Iterator::find`. -/
def find (predicate : BlockPos → Bool) : ℕ → BlockPosWithinManhattan → Option (Option BlockPos)
  | 0, _ => none
  | fuel + 1, walk =>
    match walk.next (fuel + 1) with
    | none => none
    | some (none, _) => some none
    | some (some pos, walk) =>
      if predicate pos then some (some pos) else find predicate fuel walk

end BlockPosWithinManhattan

namespace BlockPos

def withinManhattan (origin : BlockPos) (reachX reachY reachZ : Int) : BlockPosWithinManhattan :=
  { origin, reachX, reachY, reachZ
    maxDepth := reachX + reachY + reachZ
    currentDepth := 0, maxX := 0, maxY := 0, x := 0, y := 0
    pendingZMirror := none, done := false }

def findClosestMatch (origin : BlockPos) (horizontalSearchRadius verticalSearchRadius : Int)
    (predicate : BlockPos → Bool) (fuel : ℕ) : Option (Option BlockPos) :=
  (origin.withinManhattan horizontalSearchRadius verticalSearchRadius horizontalSearchRadius).find
    predicate fuel

end BlockPos

/-! ### From neighbor to neighbor -/

inductive TraversalNodeStatus where
  | accept
  | skip
  | stop
deriving DecidableEq

/-- The state of a traversal, where the processor has an environment of its own. -/
structure Traversal (S : Type) where
  nodes : List (BlockPos × ℕ)
  visited : Finset BlockPos
  count : Int
  environment : S
  /-- The calls of the processor so far, with the depths of their nodes. -/
  calls : List (BlockPos × ℕ × TraversalNodeStatus)

namespace Traversal

variable {S : Type}

def round (maxDepth maxCount : Int) (neighborProvider : BlockPos → List BlockPos)
    (nodeProcessor : S → BlockPos → TraversalNodeStatus × S) (traversal : Traversal S) :
    Round (Traversal S) (Traversal S) :=
  match traversal.nodes with
  | [] => .leave traversal
  | (currentPos, depth) :: nodes =>
    if currentPos ∈ traversal.visited then .again { traversal with nodes }
    else
      let (status, environment) := nodeProcessor traversal.environment currentPos
      let traversal : Traversal S :=
        { nodes
          visited := insert currentPos traversal.visited
          count := traversal.count
          environment
          calls := traversal.calls ++ [(currentPos, depth, status)] }
      match status with
      | .skip => .again traversal
      | .stop => .leave traversal
      | .accept =>
        let traversal := { traversal with count := traversal.count + 1 }
        if maxCount ≤ traversal.count then .leave traversal
        else if depth < maxDepth then
          .again
            { traversal with
              nodes := nodes ++ (neighborProvider currentPos).map fun pos => (pos, depth + 1) }
        else .again traversal

end Traversal

namespace BlockPos

def breadthFirstTraversal {S : Type} (startPos : BlockPos) (maxDepth maxCount : Int)
    (neighborProvider : BlockPos → List BlockPos)
    (nodeProcessor : S → BlockPos → TraversalNodeStatus × S) (environment : S) (fuel : ℕ) :
    Option (Traversal S) :=
  loop (some ∘ Traversal.round maxDepth maxCount neighborProvider nodeProcessor) fuel
    { nodes := [(startPos, 0)], visited := ∅, count := 0, environment, calls := [] }

end BlockPos

end Steel

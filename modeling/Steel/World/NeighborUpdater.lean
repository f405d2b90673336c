import Steel.Utils.Position
import Steel.Utils.Types

/-!
# Collecting neighbor updates

Block behaviors that run during an update ask for further updates. Those are collected, and put on
a stack before the next step, instead of being run inside the behavior.
-/

namespace Steel

/-- A block, known to the updater by its address alone. -/
structure BlockRef where
  key : ℕ
deriving DecidableEq, Repr

def updateOrder : List Direction := [.west, .east, .down, .up, .north, .south]

structure ShapeUpdate where
  direction : Direction
  neighborState : BlockStateId
  pos : BlockPos
  neighborPos : BlockPos
  flags : ℕ
  updateLimit : Int
deriving DecidableEq, Repr

inductive NeighborUpdate where
  | full (state : BlockStateId) (pos : BlockPos) (sourceBlock : BlockRef) (movedByPiston : Bool)
  | multi (sourcePos : BlockPos) (sourceBlock : BlockRef) (skipDirection : Option Direction)
      (index : ℕ)
  | shape (update : ShapeUpdate)
  | simple (pos : BlockPos) (sourceBlock : BlockRef)
deriving DecidableEq, Repr

/-- The calls by which an update is asked for. -/
inductive UpdateRequest where
  | shapeUpdate (update : ShapeUpdate)
  | neighborChanged (pos : BlockPos) (sourceBlock : BlockRef)
  | neighborChangedWithState (state : BlockStateId) (pos : BlockPos) (sourceBlock : BlockRef)
      (movedByPiston : Bool)
  | updateNeighborsAtExceptFromFacing (pos : BlockPos) (sourceBlock : BlockRef)
      (skipDirection : Option Direction)
deriving DecidableEq, Repr

def UpdateRequest.update : UpdateRequest → NeighborUpdate
  | shapeUpdate update => .shape update
  | neighborChanged pos sourceBlock => .simple pos sourceBlock
  | neighborChangedWithState state pos sourceBlock movedByPiston =>
    .full state pos sourceBlock movedByPiston
  | updateNeighborsAtExceptFromFacing pos sourceBlock skipDirection =>
    .multi pos sourceBlock skipDirection (if skipDirection = updateOrder[0]? then 1 else 0)

inductive Behavior (W : Type) where
  | done
  | read (next : W → Behavior W)
  | write (change : W → W) (next : Behavior W)
  | request (request : UpdateRequest) (next : Behavior W)

structure UpdateWorld (W : Type) where
  getBlockState : W → BlockPos → BlockStateId
  executeNeighborUpdate : BlockStateId → BlockPos → BlockRef → Bool → Behavior W
  executeNeighborShapeUpdate :
    Direction → BlockPos → BlockPos → BlockStateId → ℕ → Int → Behavior W

variable {W : Type}

/-- One step of an update: the position it is about, what is run there and what is left of the
update. The index of a multi update is checked. -/
def NeighborUpdate.runNext (calls : UpdateWorld W) :
    NeighborUpdate → Option (BlockPos × Behavior W × Option NeighborUpdate)
  | full state pos sourceBlock movedByPiston =>
    some (pos, calls.executeNeighborUpdate state pos sourceBlock movedByPiston, none)
  | multi sourcePos sourceBlock skipDirection index => do
    let direction ← updateOrder[index]?
    let index := index + 1
    let neighborPos := sourcePos.relative direction
    let behavior := Behavior.read fun world =>
      calls.executeNeighborUpdate (calls.getBlockState world neighborPos) neighborPos sourceBlock
        false
    let index :=
      if index < updateOrder.length ∧ updateOrder[index]? = skipDirection then index + 1 else index
    return (neighborPos, behavior,
      if index < updateOrder.length then some (multi sourcePos sourceBlock skipDirection index)
      else none)
  | shape update =>
    some (update.pos, calls.executeNeighborShapeUpdate update.direction update.pos
      update.neighborPos update.neighborState update.flags update.updateLimit, none)
  | simple pos sourceBlock =>
    some (pos, Behavior.read fun world =>
      calls.executeNeighborUpdate (calls.getBlockState world pos) pos sourceBlock false, none)

structure AddResult where
  shouldRun : Bool
  firstSkipped : Bool
deriving DecidableEq, Repr

/-- The stack has its top first; updates of the current layer are in the order they were added. -/
structure CollectingState (U : Type) where
  stack : List U
  addedThisLayer : List U
  count : Int

namespace CollectingState

variable {U : Type}

def empty : CollectingState U := { stack := [], addedThisLayer := [], count := 0 }

variable (state : CollectingState U)

def tooManyUpdates (maxChainedNeighborUpdates : Int) : Bool :=
  decide (0 ≤ maxChainedNeighborUpdates ∧ maxChainedNeighborUpdates ≤ state.count)

def enqueue (maxChainedNeighborUpdates : Int) (update : U) : CollectingState U × AddResult :=
  let runningAlready := decide (0 < state.count)
  let tooManyUpdates := state.tooManyUpdates maxChainedNeighborUpdates
  let count := wrapI32 (state.count + 1)
  let added :=
    if tooManyUpdates then state
    else if runningAlready then { state with addedThisLayer := state.addedThisLayer ++ [update] }
    else { state with stack := update :: state.stack }
  ({ added with count },
    { shouldRun := !runningAlready
      firstSkipped := tooManyUpdates && decide (wrapI32 (count - 1) = maxChainedNeighborUpdates) })

/-- The last update of the layer is moved first, so the first of them ends on top. -/
def takeNext : Option U × CollectingState U :=
  match state.addedThisLayer.reverse.foldl (fun stack update => update :: stack) state.stack with
  | [] => (none, { state with stack := [], addedThisLayer := [] })
  | update :: stack => (some update, { state with stack, addedThisLayer := [] })

def returnUnfinished (update : U) : CollectingState U :=
  { state with stack := update :: state.stack }

def reset (_state : CollectingState U) : CollectingState U := empty

end CollectingState

/-! ### Running -/

structure NumberedUpdate where
  number : ℕ
  update : NeighborUpdate
deriving DecidableEq, Repr

/-- A chain of updates: the world, everything that was asked for, and the positions that were
visited, each with the number of its update. -/
structure UpdateChain (W : Type) where
  world : W
  requests : List UpdateRequest
  visited : List (ℕ × BlockPos)

namespace UpdateChain

def start (world : W) : UpdateChain W := { world, requests := [], visited := [] }

def visit (chain : UpdateChain W) (number : ℕ) (pos : BlockPos) : UpdateChain W :=
  { chain with visited := chain.visited ++ [(number, pos)] }

def record (chain : UpdateChain W) (request : UpdateRequest) : UpdateChain W :=
  { chain with requests := chain.requests ++ [request] }

def numbered (chain : UpdateChain W) (request : UpdateRequest) : NumberedUpdate :=
  { number := chain.requests.length, update := request.update }

end UpdateChain

structure CollectingNeighborUpdater (W : Type) where
  state : CollectingState NumberedUpdate
  chain : UpdateChain W

namespace CollectingNeighborUpdater

/-- Add an update, and run everything if nothing is running. -/
def addAndRun (maxChainedNeighborUpdates : Int)
    (runUpdates : CollectingNeighborUpdater W → Option (CollectingNeighborUpdater W))
    (request : UpdateRequest) (updater : CollectingNeighborUpdater W) :
    Option (CollectingNeighborUpdater W) :=
  let (state, result) :=
    updater.state.enqueue maxChainedNeighborUpdates (updater.chain.numbered request)
  let updater := { state, chain := updater.chain.record request }
  if result.shouldRun then runUpdates updater else some updater

def runBehavior (addAndRun : UpdateRequest → CollectingNeighborUpdater W →
      Option (CollectingNeighborUpdater W)) :
    Behavior W → CollectingNeighborUpdater W → Option (CollectingNeighborUpdater W)
  | .done, updater => some updater
  | .read next, updater => runBehavior addAndRun (next updater.chain.world) updater
  | .write change next, updater =>
    runBehavior addAndRun next
      { updater with chain := { updater.chain with world := change updater.chain.world } }
  | .request request next, updater => do
    let updater ← addAndRun request updater
    runBehavior addAndRun next updater

def runUpdates (calls : UpdateWorld W) (maxChainedNeighborUpdates : Int) :
    ℕ → CollectingNeighborUpdater W → Option (CollectingNeighborUpdater W)
  | 0, _ => none
  | fuel + 1, updater =>
    match updater.state.takeNext with
    | (none, state) => some { updater with state := state.reset }
    | (some next, state) => do
      let (pos, behavior, remainder) ← next.update.runNext calls
      let updater ← runBehavior
        (addAndRun maxChainedNeighborUpdates
          (runUpdates calls maxChainedNeighborUpdates fuel))
        behavior { state, chain := updater.chain.visit next.number pos }
      let state :=
        match remainder with
        | some update => updater.state.returnUnfinished { next with update }
        | none => updater.state
      runUpdates calls maxChainedNeighborUpdates fuel { updater with state }

end CollectingNeighborUpdater

end Steel

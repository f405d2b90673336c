import Steel.Lib.NestedWork
import Steel.World.NeighborUpdater

/-!
# Recursive neighbor updates

The order in which updates are meant to run: what an update asks for is finished, in order, before
the update goes on and before anything that was waiting.
-/

namespace Steel

variable {W : Type}

/-- The first updates of a chain are accepted. A negative limit accepts all. -/
def acceptsUpdate (maxChainedNeighborUpdates : Int) (number : ℕ) : Bool :=
  decide (maxChainedNeighborUpdates < 0 ∨ (number : Int) < maxChainedNeighborUpdates)

def UpdateChain.accepted (chain : UpdateChain W) (maxChainedNeighborUpdates : Int)
    (request : UpdateRequest) : List NumberedUpdate :=
  if acceptsUpdate maxChainedNeighborUpdates chain.requests.length then [chain.numbered request]
  else []

def Behavior.collect (maxChainedNeighborUpdates : Int) :
    Behavior W → UpdateChain W → List NumberedUpdate × UpdateChain W
  | .done, chain => ([], chain)
  | .read next, chain => collect maxChainedNeighborUpdates (next chain.world) chain
  | .write change next, chain =>
    collect maxChainedNeighborUpdates next { chain with world := change chain.world }
  | .request asked next, chain =>
    let (later, after) := collect maxChainedNeighborUpdates next (chain.record asked)
    (chain.accepted maxChainedNeighborUpdates asked ++ later, after)

def updateStep (calls : UpdateWorld W) (maxChainedNeighborUpdates : Int) :
    NestedWork.Step NumberedUpdate (UpdateChain W) := fun next chain => do
  let (pos, behavior, remainder) ← next.update.runNext calls
  let (created, chain) :=
    behavior.collect maxChainedNeighborUpdates (chain.visit next.number pos)
  return (created, remainder.map fun update => { next with update }, chain)

def UpdateRequest.visits : UpdateRequest → List BlockPos
  | shapeUpdate update => [update.pos]
  | neighborChanged pos _ => [pos]
  | neighborChangedWithState _ pos _ _ => [pos]
  | updateNeighborsAtExceptFromFacing pos _ skipDirection =>
    (updateOrder.filter fun direction => some direction ≠ skipDirection).map pos.relative

def UpdateChain.visitsOf (chain : UpdateChain W) (number : ℕ) : List BlockPos :=
  (chain.visited.filter fun visit => visit.1 = number).map Prod.snd

end Steel

import Steel.Lib.Vec
import Steel.Utils.Position

/-!
# The gate of light work

Work on light writes into the window of chunks around its center, so that work on overlapping
windows must not run at the same time. A reservation excludes the others until it is dropped, and a
call that finds its window taken waits for the next release.
-/

namespace Steel

open List

def lightCacheRadius : ℕ := 2

def lightWorkCenterExclusionRadius : ℕ := lightCacheRadius * 2

structure LightWorkWindowGate where
  activeCenters : List ChunkPos

namespace LightWorkWindowGate

def new : LightWorkWindowGate := { activeCenters := [] }

def windowsOverlap (left right : ChunkPos) : Bool :=
  (left.x - right.x).natAbs ≤ lightWorkCenterExclusionRadius &&
    (left.y - right.y).natAbs ≤ lightWorkCenterExclusionRadius

/-- The gate with the reservation, if nothing overlaps its window. -/
def tryReserveCentered (gate : LightWorkWindowGate) (center : ChunkPos) :
    Option LightWorkWindowGate :=
  if gate.activeCenters.any (windowsOverlap center) then none
  else some { activeCenters := gate.activeCenters ++ [center] }

/-- The part of a drop that is under the lock, and whether the center was there. -/
def release (gate : LightWorkWindowGate) (center : ChunkPos) : Bool × LightWorkWindowGate :=
  match gate.activeCenters.findIdx? (· == center) with
  | some index => (true, { activeCenters := Vec.swapRemove gate.activeCenters index })
  | none => (false, gate)

/-! ### Calls -/

/-- Where a call is. A call that listens or waits has a `Notified`, which is woken or not. -/
inductive CallStage where
  | idle
  | listening (center : ChunkPos) (woken : Bool)
  | waiting (center : ChunkPos) (woken : Bool)
  | holding (center : ChunkPos)
  | releasing

def CallStage.wake : CallStage → CallStage
  | listening center _ => listening center true
  | waiting center _ => waiting center true
  | stage => stage

structure Calls (I : Type) where
  gate : LightWorkWindowGate
  stages : I → CallStage

namespace Calls

variable {I : Type} [DecidableEq I]

def move (calls : Calls I) (call : I) (stage : CallStage) : Calls I :=
  { calls with stages := Function.update calls.stages call stage }

/-- A step of one call. A drop takes its center out under the lock and notifies after that. -/
inductive Step (call : I) (calls : Calls I) : Calls I → Prop
  | reserveCentered (center : ChunkPos) (hstage : calls.stages call = .idle) :
      Step call calls (calls.move call (.listening center false))
  | reserved {center : ChunkPos} {woken : Bool} {gate : LightWorkWindowGate}
      (hstage : calls.stages call = .listening center woken)
      (htry : calls.gate.tryReserveCentered center = some gate) :
      Step call calls ({ calls with gate }.move call (.holding center))
  | blocked {center : ChunkPos} {woken : Bool}
      (hstage : calls.stages call = .listening center woken)
      (htry : calls.gate.tryReserveCentered center = none) :
      Step call calls (calls.move call (.waiting center woken))
  | resume {center : ChunkPos} (hstage : calls.stages call = .waiting center true) :
      Step call calls (calls.move call (.listening center false))
  | tryReserved {center : ChunkPos} {gate : LightWorkWindowGate}
      (hstage : calls.stages call = .idle)
      (htry : calls.gate.tryReserveCentered center = some gate) :
      Step call calls ({ calls with gate }.move call (.holding center))
  | drop {center : ChunkPos} {removed : Bool} {gate : LightWorkWindowGate}
      (hstage : calls.stages call = .holding center)
      (hrelease : calls.gate.release center = (removed, gate)) :
      Step call calls ({ calls with gate }.move call (if removed then .releasing else .idle))
  | notify (hstage : calls.stages call = .releasing) :
      Step call calls
        ({ calls with stages := fun other => (calls.stages other).wake }.move call .idle)

inductive Reached : Calls I → Prop
  | new : Reached { gate := new, stages := fun _ => .idle }
  | step {calls after : Calls I} {call : I} (hreached : Reached calls)
      (hstep : Step call calls after) : Reached after

/-- A run of the calls, with moments at which nothing happens. -/
structure Run (I : Type) [DecidableEq I] where
  calls : ℕ → Calls I
  start : Reached (calls 0)
  next : ∀ n, calls (n + 1) = calls n ∨ ∃ call, Step call (calls n) (calls (n + 1))

def Ready : CallStage → Prop
  | .listening _ _ => True
  | .waiting _ woken => woken = true
  | .releasing => True
  | _ => False

/-- A call that can go on does so at some time. -/
def Run.Fair (run : Run I) : Prop :=
  ∀ call n, Ready ((run.calls n).stages call) →
    ∃ m ≥ n, Step call (run.calls m) (run.calls (m + 1))

end Calls

end LightWorkWindowGate

end Steel

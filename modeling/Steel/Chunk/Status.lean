import Mathlib.Data.Nat.Notation

/-!
# Chunk generation statuses and their dependency pyramid

The pyramid is a table the source computes at compile time. Only the status and dependency columns
are read by what is modelled here; the generation tasks and write radii are not.
-/

namespace Steel

inductive ChunkStatus where
  | empty
  | structureStarts
  | structureReferences
  | biomes
  | terrain
  | features
  | initializeLight
  | light
  | spawn
  | full
deriving DecidableEq, Repr

namespace ChunkStatus

def getIndex : ChunkStatus → ℕ
  | .empty => 0
  | .structureStarts => 1
  | .structureReferences => 2
  | .biomes => 3
  | .terrain => 4
  | .features => 5
  | .initializeLight => 6
  | .light => 7
  | .spawn => 8
  | .full => 9

def fromIndex : ℕ → Option ChunkStatus
  | 0 => some .empty
  | 1 => some .structureStarts
  | 2 => some .structureReferences
  | 3 => some .biomes
  | 4 => some .terrain
  | 5 => some .features
  | 6 => some .initializeLight
  | 7 => some .light
  | 8 => some .spawn
  | 9 => some .full
  | _ => none

theorem fromIndex_getIndex (status : ChunkStatus) : fromIndex status.getIndex = some status := by
  cases status <;> rfl

theorem getIndex_lt (status : ChunkStatus) : status.getIndex < 10 := by
  cases status <;> decide

def parent : ChunkStatus → Option ChunkStatus
  | .empty => none
  | .structureStarts => some .empty
  | .structureReferences => some .structureStarts
  | .biomes => some .structureReferences
  | .terrain => some .biomes
  | .features => some .terrain
  | .initializeLight => some .features
  | .light => some .initializeLight
  | .spawn => some .light
  | .full => some .spawn

end ChunkStatus

def statusCount : ℕ := 12

def maxRadius : ℕ := 16

/-- A collection of chunk dependencies: the status needed at each radius, and the reverse table. -/
structure ChunkDependencies where
  dependencyByRadius : ℕ → Option ChunkStatus
  len : ℕ
  radiusByDependency : ℕ → ℕ

namespace ChunkDependencies

/-- Later radii overwrite earlier ones, for every status up to the one needed there. -/
def buildRadiusLookup (deps : ℕ → Option ChunkStatus) (len : ℕ) (index : ℕ) : ℕ :=
  (List.range len).foldl
    (fun radius candidate =>
      match deps candidate with
      | some dep => if index ≤ dep.getIndex ∧ index < statusCount then candidate else radius
      | none => radius)
    0

/-- One requirement extends the table to its radius and then raises every entry within it. -/
def addRequirement (table : (ℕ → Option ChunkStatus) × ℕ) (req : ChunkStatus × ℕ) :
    (ℕ → Option ChunkStatus) × ℕ :=
  let (deps, len) := table
  let (status, radius) := req
  let newLen := radius + 1
  let extended := fun j => if len ≤ j ∧ j < newLen then some status else deps j
  let extendedLen := max len newLen
  let raised := fun j =>
    if j < min extendedLen newLen then
      (extended j).map fun existing =>
        if status.getIndex > existing.getIndex then status else existing
    else extended j
  (raised, extendedLen)

def fromRequirements (reqs : List (ChunkStatus × ℕ)) (parentStatus : Option ChunkStatus) :
    ChunkDependencies :=
  let start : (ℕ → Option ChunkStatus) × ℕ :=
    (fun j => if j = 0 then parentStatus else none, if parentStatus.isSome then 1 else 0)
  let (deps, len) := reqs.foldl addRequirement start
  ⟨deps, len, buildRadiusLookup deps len⟩

def constMaxStatus : Option ChunkStatus → Option ChunkStatus → Option ChunkStatus
  | some a, some b => if a.getIndex > b.getIndex then some a else some b
  | some a, none => some a
  | none, some b => some b
  | none, none => none

def accumulate (self parentAccumulated : ChunkDependencies) (parentStatus : ChunkStatus) :
    ChunkDependencies :=
  let radiusOfParent := (List.range self.len).foldl
    (fun radius i =>
      match self.dependencyByRadius i with
      | some s => if s.getIndex ≥ parentStatus.getIndex then i else radius
      | none => radius)
    0
  let cappedLen := min (max (radiusOfParent + parentAccumulated.len) self.len) maxRadius
  let accumulated := fun dist =>
    if dist < cappedLen then
      let distInParent := dist - radiusOfParent
      let parentDep :=
        if distInParent < parentAccumulated.len then
          parentAccumulated.dependencyByRadius distInParent
        else none
      let directDep := if dist < self.len then self.dependencyByRadius dist else none
      constMaxStatus directDep parentDep
    else none
  ⟨accumulated, cappedLen, buildRadiusLookup accumulated cappedLen⟩

def getRadiusOf (deps : ChunkDependencies) (status : ChunkStatus) : ℕ :=
  deps.radiusByDependency status.getIndex

end ChunkDependencies

/-- The accumulated dependencies after the listed steps, last step's status first. -/
def pyramidStep (last : Option (ChunkStatus × ChunkDependencies))
    (step : ChunkStatus × List (ChunkStatus × ℕ)) : Option (ChunkStatus × ChunkDependencies) :=
  let direct := ChunkDependencies.fromRequirements step.2 (last.map Prod.fst)
  match last with
  | some (parent, accumulated) => some (step.1, direct.accumulate accumulated parent)
  | none => some (step.1, direct)

def generationPyramid : List (ChunkStatus × List (ChunkStatus × ℕ)) :=
  [(.empty, []),
   (.structureStarts, []),
   (.structureReferences, [(.structureStarts, 8)]),
   (.biomes, [(.structureStarts, 8)]),
   (.terrain, [(.structureStarts, 8), (.biomes, 1)]),
   (.features, [(.structureStarts, 8), (.terrain, 1)]),
   (.initializeLight, []),
   (.light, [(.initializeLight, 1)]),
   (.spawn, [(.biomes, 1)]),
   (.full, [])]

def fullChunkRadiusOf (status : ChunkStatus) : ℕ :=
  match generationPyramid.foldl pyramidStep none with
  | some (_, accumulated) => accumulated.getRadiusOf status
  | none => 0

end Steel

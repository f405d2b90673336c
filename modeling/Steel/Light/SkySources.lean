import Mathlib.Data.Fintype.Card
import Steel.Utils.Position

/-!
# Where sky light starts in each column

The lowest source of a column is at its highest edge between two blocks that light from above does
not cross, or below the world if it crosses all of them. It is found from the sections of a chunk
and then kept up to date with single blocks.
-/

namespace Steel

open List Function

/-!
### What light reads of a block state

A shape is given by what the light engine asks of it: whether it is empty, whether it is the full
block, and which of the 256 pixels of each face are covered by its boxes that touch the face. Boxes
have a positive extent on every axis, so an empty shape has none.
-/

structure VoxelShape where
  isEmpty : Bool
  isFullBlock : Bool
  /-- `project_shape_onto_grid` -/
  face : Direction → Finset (Fin 256)
  isFullBlock_of_isEmpty : isEmpty = true → isFullBlock = false
  face_of_isEmpty : isEmpty = true → ∀ direction, face direction = ∅

def VoxelShape.empty : VoxelShape where
  isEmpty := true
  isFullBlock := false
  face := fun _ => ∅
  isFullBlock_of_isEmpty := fun _ => rfl
  face_of_isEmpty := fun _ _ => rfl

structure BlockState where
  lightDampening : ℕ
  canOcclude : Bool
  useShapeForLightOcclusion : Bool
  occlusionShape : VoxelShape

namespace BlockState

def air : BlockState where
  lightDampening := 0
  canOcclude := false
  useShapeForLightOcclusion := false
  occlusionShape := .empty

def lightOcclusionShape (state : BlockState) : VoxelShape :=
  if !state.canOcclude || !state.useShapeForLightOcclusion then .empty else state.occlusionShape

end BlockState

/-- A block state with whether it is air, which nothing of light is stopped by. -/
structure SkyBlockState extends BlockState where
  isAir : Bool
  isAir_passes : isAir = true →
    lightDampening = 0 ∧ (BlockState.lightOcclusionShape toBlockState).isEmpty = true

def SkyBlockState.airState : SkyBlockState :=
  { BlockState.air with isAir := true, isAir_passes := fun _ => ⟨rfl, rfl⟩ }

def faceShapeOccludes (shape1 : VoxelShape) (shape1Face : Direction) (shape2 : VoxelShape)
    (shape2Face : Direction) : Bool :=
  if shape1.isFullBlock || shape2.isFullBlock then true
  else if shape1.isEmpty && shape2.isEmpty then false
  else if (shape1.face shape1Face).card = 256 then true
  else (shape1.face shape1Face ∪ shape2.face shape2Face).card = 256

def lightFaceOccludes (fromState toState : SkyBlockState) (direction : Direction) : Bool :=
  faceShapeOccludes fromState.lightOcclusionShape direction toState.lightOcclusionShape
    direction.opposite

def isEdgeOccluded (topState bottomState : SkyBlockState) : Bool :=
  if bottomState.lightDampening ≠ 0 then true
  else lightFaceOccludes topState bottomState .down

/-! ### The blocks of a chunk -/

abbrev SectionStates := Fin 16 → Fin 16 → Fin 16 → SkyBlockState

def SectionStates.isEmpty (states : SectionStates) : Bool := ∀ x y z, (states x y z).isAir = true

/-- A chunk whose lowest block is at the bottom of a section, which chunks in storage must be. -/
structure ChunkSections where
  minY : Int
  aligned : minY % 16 = 0
  sections : List SectionStates

namespace ChunkSections

variable (chunk : ChunkSections)

def maxY : Int := chunk.minY + 16 * chunk.sections.length

def sectionIndex (y : Int) : ℕ := ((y - chunk.minY) / 16).toNat

def localY (y : Int) : Fin 16 := Fin.ofNat 16 (y % 16).toNat

def getBlockState (x : Fin 16) (y : Int) (z : Fin 16) : SkyBlockState :=
  if y < chunk.minY ∨ chunk.maxY ≤ y then .airState
  else
    match chunk.sections[chunk.sectionIndex y]? with
    | some states => states x (localY y) z
    | none => .airState

def setBlockState (x : Fin 16) (y : Int) (z : Fin 16) (state : SkyBlockState) : ChunkSections :=
  { chunk with
    sections := chunk.sections.modify (chunk.sectionIndex y) fun states =>
      update states x
        (update (states x) (localY y) (update (states x (localY y)) z state)) }

end ChunkSections

/-! ### The heights -/

/-- `minY` is one below the lowest block. -/
structure ChunkSkyLightSources where
  minY : Int
  heightmap : Fin 16 → Fin 16 → Int

namespace ChunkSkyLightSources

def i32Min : Int := -2147483648

def i32Max : Int := 2147483647

def new (minY height : Int) : Option ChunkSkyLightSources :=
  if height ≤ 0 ∨ minY - 1 < i32Min ∨ i32Max < minY + height then none
  else some { minY := minY - 1, heightmap := fun _ _ => minY - 1 }

variable (sources : ChunkSkyLightSources)

def set (x z : Fin 16) (value : Int) : ChunkSkyLightSources :=
  { sources with
    heightmap :=
      update sources.heightmap x (update (sources.heightmap x) z value) }

def sectionYFromIndex (sectionIndex : ℕ) : Int :=
  (sources.minY + 1) / 16 + sectionIndex

def sectionToBlockCoord (sectionY : Int) : Int := sectionY * 16

structure Scan where
  topY : Int
  bottomY : Int
  topState : SkyBlockState

/-- A turn of the scan of a section, which ends at an edge that is occluded. -/
def scanLayer (states : SectionStates) (x z : Fin 16) (scan : Scan) (y : Fin 16) :
    Except Int Scan :=
  let bottomState := states x y z
  if isEdgeOccluded scan.topState bottomState then .error scan.topY
  else .ok { topY := scan.bottomY, bottomY := scan.bottomY - 1, topState := bottomState }

variable (sections : List SectionStates)

/-- A section without blocks is skipped. -/
def scanSection (x z : Fin 16) (scan : Scan) (sectionIndex : ℕ) : Except Int Scan :=
  match sections[sectionIndex]? with
  | none => .ok scan
  | some states =>
    if states.isEmpty then
      let topY := sectionToBlockCoord (sources.sectionYFromIndex sectionIndex)
      .ok { topY, bottomY := topY - 1, topState := .airState }
    else (finRange 16).reverse.foldlM (scanLayer states x z) scan

def findLowestSourceY (topSectionIndex : ℕ) (x z : Fin 16) : Int :=
  let topY := sectionToBlockCoord (sources.sectionYFromIndex topSectionIndex + 1)
  match (range (topSectionIndex + 1)).reverse.foldlM (sources.scanSection sections x z)
    { topY, bottomY := topY - 1, topState := .airState } with
  | .error edgeY => edgeY
  | .ok _ => sources.minY

def topSectionIndex : Option ℕ :=
  (range sections.length).reverse.find? fun index =>
    (sections[index]?).any fun states => !states.isEmpty

def fillFromSections : ChunkSkyLightSources :=
  match topSectionIndex sections with
  | none => { sources with heightmap := fun _ _ => sources.minY }
  | some index =>
    { sources with
      heightmap := fun x z =>
        max (sources.findLowestSourceY sections index x z) sources.minY }

/-- The rounds until the lower block is below `minY`. -/
def searchBelow (minY : Int) (stateAt : Int → SkyBlockState) : ℕ → Int → SkyBlockState → Int
  | 0, _, _ => minY
  | rounds + 1, topY, topState =>
    let bottomState := stateAt (topY - 1)
    if isEdgeOccluded topState bottomState then topY
    else searchBelow minY stateAt rounds (topY - 1) bottomState

def findLowestSourceBelow (startY : Int) (startState : SkyBlockState)
    (stateAt : Int → SkyBlockState) : Int :=
  searchBelow sources.minY stateAt (startY - sources.minY).toNat startY startState

def updateEdge (oldTopEdgeY checkedEdgeY : Int) (topState : SkyBlockState) (bottomY : Int)
    (bottomState : SkyBlockState) (stateAt : Int → SkyBlockState) : Option Int :=
  if isEdgeOccluded topState bottomState then
    if oldTopEdgeY < checkedEdgeY then some checkedEdgeY else none
  else if checkedEdgeY = oldTopEdgeY then
    some (sources.findLowestSourceBelow bottomY bottomState stateAt)
  else none

/-- Whether the height of the column has changed, and the heights. -/
def update (x : Fin 16) (y : Int) (z : Fin 16) (stateAt : Fin 16 → Int → Fin 16 → SkyBlockState) :
    Bool × ChunkSkyLightSources :=
  if y = i32Max then (false, sources)
  else
    let upperEdgeY := y + 1
    let currentLowestSourceY := sources.heightmap x z
    if upperEdgeY < currentLowestSourceY then (false, sources)
    else
      let column := fun y => stateAt x y z
      let topState := column upperEdgeY
      let middleState := column y
      match sources.updateEdge currentLowestSourceY upperEdgeY topState y middleState column with
      | some height => (true, sources.set x z height)
      | none =>
        if y = i32Min then (false, sources)
        else
          let bottomY := y - 1
          let bottomState := column bottomY
          match sources.updateEdge currentLowestSourceY y middleState bottomY
            bottomState column with
          | some height => (true, sources.set x z height)
          | none => (false, sources)

end ChunkSkyLightSources

end Steel

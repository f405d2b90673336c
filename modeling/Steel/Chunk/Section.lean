import Steel.Chunk.PalettedContainer

/-!
# Chunk sections

A section counts its blocks of four kinds, and keeps a certificate of where nothing but vanilla air
is. During world generation the counters are left stale, until a recount.
-/

namespace Steel.Sections

/-- A 16-bit result. A build with overflow checks panics outside the range, another wraps. -/
def u16Result (overflowChecks : Bool) (value : ℤ) : Option ℕ :=
  if 0 ≤ value ∧ value < 65536 then some value.toNat
  else if overflowChecks then none
  else some (value % 65536).toNat

structure BlockStateSectionCounts where
  isAir : Bool
  hasFluid : Bool
  randomlyTickingBlock : Bool
  randomlyTickingFluid : Bool

/-- The registered block states, and the default states of the three vanilla air blocks. Air is
registered first. -/
structure SectionStates where
  blockStateSectionCounts : BlockStateId → BlockStateSectionCounts
  air : BlockStateId
  caveAir : BlockStateId
  voidAir : BlockStateId
  air_eq : air = ⟨0⟩
  isAir_air : (blockStateSectionCounts air).isAir = true

namespace SectionStates

def isStableVanillaAir (table : SectionStates) (state : BlockStateId) : Bool :=
  (table.blockStateSectionCounts state).isAir &&
    (state = table.air || state = table.caveAir || state = table.voidAir)

end SectionStates

abbrev BlockPalette := PalettedContainer BlockStateId 16

def blocksPerSection : ℕ := 4096

/-! ### The certificate -/

/-- A row is given by its y and z coordinate, and has a bit for each x coordinate. -/
abbrev Rows := Fin 16 × Fin 16 → BitVec 16

inductive StableAirOccupancy where
  | unknown
  | empty
  | full
  | mixed (rows : Rows) (occupiedCount : ℕ)

namespace StableAirOccupancy

variable (overflowChecks : Bool) (table : SectionStates)

def fromPalette (states : BlockPalette) : Option StableAirOccupancy :=
  match states with
  | .homogeneous state => some (if table.isStableVanillaAir state then .empty else .full)
  | .building _ => some .unknown
  | .heterogeneous data => do
    let airStates := (data.palette.map Prod.fst).filter table.isStableVanillaAir
    let occupiedCount ← data.palette.foldlM (fun occupiedCount (state, count) =>
      if table.isStableVanillaAir state then some occupiedCount
      else u16Result overflowChecks (occupiedCount + count)) 0
    if airStates.isEmpty then some .full
    else if occupiedCount = 0 then some .empty
    else
      let rows := (CubePos.all 16).foldl (fun (rows : Rows) (y, z, x) =>
        if airStates.contains (data.cube (y, z, x)) then rows
        else Function.update rows (y, z) (rows (y, z) ||| BitVec.twoPow 16 x)) fun _ => 0
      some (.mixed rows occupiedCount)

def recordChange (occupancy : StableAirOccupancy) (pos : CubePos 16)
    (oldState newState : BlockStateId) : Option StableAirOccupancy :=
  let oldOccupied := !table.isStableVanillaAir oldState
  let newOccupied := !table.isStableVanillaAir newState
  let row := (pos.1, pos.2.1)
  let bit := BitVec.twoPow 16 pos.2.2
  if oldOccupied = newOccupied then some occupancy
  else
    match occupancy with
    | .unknown => some .unknown
    | .empty => some (.mixed (Function.update (fun _ => 0) row bit) 1)
    | .full =>
      some (.mixed (Function.update (fun _ => BitVec.allOnes 16) row (BitVec.allOnes 16 &&& ~~~bit))
        (blocksPerSection - 1))
    | .mixed rows occupiedCount =>
      if newOccupied then do
        let rows := Function.update rows row (rows row ||| bit)
        let occupiedCount ← u16Result overflowChecks (occupiedCount + 1)
        some (if occupiedCount = blocksPerSection then .full else .mixed rows occupiedCount)
      else do
        let rows := Function.update rows row (rows row &&& ~~~bit)
        let occupiedCount ← u16Result overflowChecks (occupiedCount - 1)
        some (if occupiedCount = 0 then .empty else .mixed rows occupiedCount)

def xMask (minX maxX : Fin 16) : BitVec 16 :=
  let belowMax := if (maxX : ℕ) = 15 then BitVec.allOnes 16
    else BitVec.twoPow 16 (maxX + 1) - 1
  belowMax &&& (BitVec.allOnes 16 <<< (minX : ℕ))

def localRange (first last : Fin 16) : List (Fin 16) :=
  (List.finRange 16).filter fun coordinate => first ≤ coordinate ∧ coordinate ≤ last

def boxIsClear (occupancy : StableAirOccupancy) (minX maxX minY maxY minZ maxZ : Fin 16) : Bool :=
  match occupancy with
  | .mixed rows _ =>
    (localRange minY maxY).all fun y => (localRange minZ maxZ).all fun z =>
      rows (y, z) &&& xMask minX maxX = 0
  | .empty => true
  | _ => false

end StableAirOccupancy

/-! ### The counters -/

/-- Non-air blocks, blocks with a fluid, and randomly ticking blocks and fluids. -/
structure SectionCounters where
  nonEmptyBlockCount : ℕ
  fluidCount : ℕ
  tickingBlockCount : ℕ
  tickingFluidCount : ℕ
deriving DecidableEq

namespace SectionCounters

variable (overflowChecks : Bool)

def zero : SectionCounters := ⟨0, 0, 0, 0⟩

def accumulateTrait (count : ℕ) (hasTrait : Bool) (blockCount : ℕ) : Option ℕ :=
  if hasTrait then u16Result overflowChecks (count + blockCount) else some count

def accumulateCounterTraits (counters : SectionCounters) (counts : BlockStateSectionCounts)
    (blockCount : ℕ) : Option SectionCounters := do
  some
    { nonEmptyBlockCount :=
        ← accumulateTrait overflowChecks counters.nonEmptyBlockCount (!counts.isAir) blockCount
      fluidCount := ← accumulateTrait overflowChecks counters.fluidCount counts.hasFluid blockCount
      tickingBlockCount :=
        ← accumulateTrait overflowChecks counters.tickingBlockCount counts.randomlyTickingBlock
          blockCount
      tickingFluidCount :=
        ← accumulateTrait overflowChecks counters.tickingFluidCount counts.randomlyTickingFluid
          blockCount }

def changeTrait (count : ℕ) (oldTrait newTrait : Bool) : Option ℕ :=
  if oldTrait && !newTrait then u16Result overflowChecks (count - 1)
  else if !oldTrait && newTrait then u16Result overflowChecks (count + 1)
  else some count

def applyCountChange (counters : SectionCounters) (oldCounts newCounts : BlockStateSectionCounts) :
    Option SectionCounters := do
  some
    { nonEmptyBlockCount :=
        ← changeTrait overflowChecks counters.nonEmptyBlockCount (!oldCounts.isAir)
          (!newCounts.isAir)
      fluidCount :=
        ← changeTrait overflowChecks counters.fluidCount oldCounts.hasFluid newCounts.hasFluid
      tickingBlockCount :=
        ← changeTrait overflowChecks counters.tickingBlockCount oldCounts.randomlyTickingBlock
          newCounts.randomlyTickingBlock
      tickingFluidCount :=
        ← changeTrait overflowChecks counters.tickingFluidCount oldCounts.randomlyTickingFluid
          newCounts.randomlyTickingFluid }

end SectionCounters

/-! ### The section -/

structure ChunkSection where
  states : BlockPalette
  counters : SectionCounters
  stableAirOccupancy : StableAirOccupancy

def isBuilding : BlockPalette → Bool
  | .building _ => true
  | _ => false

namespace ChunkSection

/-- The counters have to be recounted where the palette has other blocks than air. -/
def newWithBiomes (states : BlockPalette) : ChunkSection :=
  { states, counters := .zero, stableAirOccupancy := .unknown }

def newEmpty : ChunkSection :=
  { states := .homogeneous ⟨0⟩, counters := .zero, stableAirOccupancy := .empty }

variable (chunkSection : ChunkSection)

def stableAirBoxIsClear (minX maxX minY maxY minZ maxZ : Fin 16) : Bool :=
  chunkSection.stableAirOccupancy.boxIsClear minX maxX minY maxY minZ maxZ

def invalidateStableAirOccupancy : ChunkSection :=
  { chunkSection with stableAirOccupancy := .unknown }

variable (overflowChecks : Bool) (table : SectionStates)

def countPalette (states : BlockPalette) : Option SectionCounters :=
  match states with
  | .homogeneous state =>
    SectionCounters.zero.accumulateCounterTraits overflowChecks
      (table.blockStateSectionCounts state) blocksPerSection
  | .heterogeneous data =>
    data.palette.foldlM (fun counters (state, count) =>
      counters.accumulateCounterTraits overflowChecks (table.blockStateSectionCounts state) count)
      .zero
  | .building _ => none

def recalculateCounts : Option ChunkSection := do
  let states := chunkSection.states.finalizeBuilding
  let stableAirOccupancy ← StableAirOccupancy.fromPalette overflowChecks table states
  let counters ← countPalette overflowChecks table states
  some { states, counters, stableAirOccupancy }

def finalizeGenerationCountsIfNeeded : Option ChunkSection :=
  if isBuilding chunkSection.states then chunkSection.recalculateCounts overflowChecks table
  else some chunkSection

def setBlockState (pos : CubePos 16) (newState : BlockStateId) :
    Option (BlockStateId × ChunkSection) := do
  -- ensure_counter_ready_for_delta
  let chunkSection ← chunkSection.finalizeGenerationCountsIfNeeded overflowChecks table
  let (oldState, states) := chunkSection.states.set pos newState
  if oldState = newState then some (oldState, { chunkSection with states })
  else
    let counters ← chunkSection.counters.applyCountChange overflowChecks
      (table.blockStateSectionCounts oldState) (table.blockStateSectionCounts newState)
    let stableAirOccupancy ←
      chunkSection.stableAirOccupancy.recordChange overflowChecks table pos oldState newState
    some (oldState, { states, counters, stableAirOccupancy })

def setBlockStateForGeneration (pos : CubePos 16) (newState : BlockStateId) :
    BlockStateId × ChunkSection :=
  let chunkSection := chunkSection.invalidateStableAirOccupancy
  let (oldState, states) := chunkSection.states.enterBuildingMode.set pos newState
  (oldState, { chunkSection with states })

end ChunkSection

end Steel.Sections

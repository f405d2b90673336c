import Steel.Proof.SectionOccupancy

/-!
# Sections over whole histories

The counters are those of a recount unless a generated section waits for one. The certificate is
right whatever else was done to the section, since every access that is not tracked drops it.
-/

namespace Steel.Sections

open List PalettedContainer StableAirOccupancy Function

variable {overflowChecks : Bool} {table : SectionStates} {contents : Cube BlockStateId 16}
  {chunkSection after : ChunkSection}

/-- The palette stands for the cells, and what the certificate says of them is so. -/
structure Valid (table : SectionStates) (chunkSection : ChunkSection)
    (contents : Cube BlockStateId 16) : Prop where
  represents : chunkSection.states.Represents contents
  certifies : Certifies table chunkSection.stableAirOccupancy contents

/-- The counters are those of a recount, unless the section is being built. -/
def Counted (table : SectionStates) (chunkSection : ChunkSection)
    (contents : Cube BlockStateId 16) : Prop :=
  isBuilding chunkSection.states = false → chunkSection.counters = recount table contents

theorem isBuilding_ofPalette (cube : Cube BlockStateId 16) (palette : Palette BlockStateId) :
    isBuilding (ofPalette cube palette) = false := by
  rcases palette with - | ⟨-, - | -⟩ <;> rfl

theorem isBuilding_finalizeBuilding (states : BlockPalette) :
    isBuilding states.finalizeBuilding = false := by
  cases states with
  | homogeneous state | heterogeneous data => rfl
  | building cube => exact isBuilding_ofPalette cube _

/-! ### Recounts -/

theorem recalculateCounts_spec (overflowChecks : Bool) (table : SectionStates)
    (h : chunkSection.states.Represents contents) :
    ∃ after, chunkSection.recalculateCounts overflowChecks table = some after ∧
      Valid table after contents ∧ after.counters = recount table contents ∧
      isBuilding after.states = false := by
  have hstates := h.finalizeBuilding (by decide)
  have hbuilding := isBuilding_finalizeBuilding chunkSection.states
  obtain ⟨occupancy, hoccupancy, hcertifies⟩ :=
    @certifies_fromPalette table contents _ overflowChecks hstates
  have hcount := @SectionCounters.countPalette_eq overflowChecks table contents _ hstates hbuilding
  refine ⟨⟨chunkSection.states.finalizeBuilding, recount table contents, occupancy⟩, ?_,
    ⟨hstates, hcertifies⟩, rfl, hbuilding⟩
  rw [ChunkSection.recalculateCounts, hoccupancy, hcount]
  rfl

/-- A recount before a change of a cell: the section is not being built, and it is counted if it
was. -/
theorem finalizeGenerationCounts_spec (overflowChecks : Bool)
    (h : Valid table chunkSection contents) :
    ∃ after, chunkSection.finalizeGenerationCountsIfNeeded overflowChecks table = some after ∧
      Valid table after contents ∧
      (Counted table chunkSection contents → after.counters = recount table contents) := by
  cases hbuilding : isBuilding chunkSection.states with
  | true =>
    obtain ⟨after, hafter, hvalid, hcounters, -⟩ :=
      recalculateCounts_spec overflowChecks table h.represents
    refine ⟨after, ?_, hvalid, fun _ => hcounters⟩
    rw [ChunkSection.finalizeGenerationCountsIfNeeded, if_pos hbuilding]
    exact hafter
  | false =>
    refine ⟨chunkSection, ?_, h, fun hcounted => hcounted hbuilding⟩
    rw [ChunkSection.finalizeGenerationCountsIfNeeded, if_neg (by simp [hbuilding])]

/-! ### Changes of cells -/

/-- A tracked change: if the counters let it happen, the section is valid after it, and it does
happen and is counted if the section was counted. -/
theorem setBlockState_spec (overflowChecks : Bool) (h : Valid table chunkSection contents)
    (pos : CubePos 16) (newState : BlockStateId) :
    (∀ oldState after, chunkSection.setBlockState overflowChecks table pos newState =
        some (oldState, after) → Valid table after (update contents pos newState)) ∧
      (Counted table chunkSection contents →
        ∃ after, chunkSection.setBlockState overflowChecks table pos newState =
            some (contents pos, after) ∧
          after.counters = recount table (update contents pos newState)) := by
  obtain ⟨ready, hready, hvalid, hcounters⟩ := finalizeGenerationCounts_spec overflowChecks h
  obtain ⟨hold, hset⟩ := hvalid.represents.set (by decide) pos newState
  have hunfold : chunkSection.setBlockState overflowChecks table pos newState =
      if contents pos = newState then
        some (contents pos, { ready with states := (ready.states.set pos newState).2 })
      else
        (ready.counters.applyCountChange overflowChecks
          (table.blockStateSectionCounts (contents pos))
          (table.blockStateSectionCounts newState)).bind fun counters =>
        (ready.stableAirOccupancy.recordChange overflowChecks table pos (contents pos)
          newState).bind fun occupancy =>
        some (contents pos, ⟨(ready.states.set pos newState).2, counters, occupancy⟩) := by
    rw [ChunkSection.setBlockState, hready]
    simp only [Option.bind_eq_bind, Option.bind_some, hold]
  rw [hunfold]
  by_cases hsame : contents pos = newState
  · have hupdate : update contents pos newState = contents := by
      rw [← hsame, update_eq_self]
    rw [hupdate] at hset ⊢
    rw [if_pos hsame]
    refine ⟨fun oldState after hsome => ?_, fun hcounted => ⟨_, rfl, hcounters hcounted⟩⟩
    cases hsome
    exact ⟨hset, hvalid.certifies⟩
  · obtain ⟨occupancy, hoccupancy, hcertifies⟩ :=
      certifies_recordChange overflowChecks hvalid.certifies pos newState
    simp only [if_neg hsame, hoccupancy, Option.bind_some]
    refine ⟨fun oldState after hsome => ?_, fun hcounted => ?_⟩
    · obtain ⟨counters, -, hsome⟩ := Option.bind_eq_some_iff.mp hsome
      cases hsome
      exact ⟨hset, hcertifies⟩
    · rw [hcounters hcounted, SectionCounters.applyCountChange_eq]
      exact ⟨_, rfl, rfl⟩

theorem setBlockStateForGeneration_spec (h : chunkSection.states.Represents contents)
    (pos : CubePos 16) (newState : BlockStateId) :
    Valid table (chunkSection.setBlockStateForGeneration pos newState).2
        (update contents pos newState) ∧
      isBuilding (chunkSection.setBlockStateForGeneration pos newState).2.states = true := by
  refine ⟨⟨(h.enterBuildingMode.set (by decide) pos newState).2, trivial⟩, ?_⟩
  unfold ChunkSection.setBlockStateForGeneration ChunkSection.invalidateStableAirOccupancy
  cases chunkSection.states <;> rfl

/-! ### Counters -/

inductive SectionOperation where
  | setBlockState (pos : CubePos 16) (newState : BlockStateId)
  | setBlockStateForGeneration (pos : CubePos 16) (newState : BlockStateId)
  | recalculateCounts
  | finalizeGenerationCountsIfNeeded

namespace SectionOperation

def apply (overflowChecks : Bool) (table : SectionStates) (chunkSection : ChunkSection) :
    SectionOperation → Option ChunkSection
  | setBlockState pos newState =>
    (chunkSection.setBlockState overflowChecks table pos newState).map Prod.snd
  | setBlockStateForGeneration pos newState =>
    some (chunkSection.setBlockStateForGeneration pos newState).2
  | recalculateCounts => chunkSection.recalculateCounts overflowChecks table
  | finalizeGenerationCountsIfNeeded =>
    chunkSection.finalizeGenerationCountsIfNeeded overflowChecks table

/-- **One operation.** It happens, no counter leaving its range, and the section stays counted. -/
theorem apply_spec (overflowChecks : Bool) (h : Valid table chunkSection contents)
    (hcounted : Counted table chunkSection contents) (operation : SectionOperation) :
    ∃ after contents', operation.apply overflowChecks table chunkSection = some after ∧
      Valid table after contents' ∧ Counted table after contents' := by
  cases operation with
  | setBlockState pos newState =>
    obtain ⟨hvalid, hcounts⟩ := setBlockState_spec overflowChecks h pos newState
    obtain ⟨after, hafter, hcounters⟩ := hcounts hcounted
    refine ⟨after, _, ?_, hvalid _ _ hafter, fun _ => hcounters⟩
    rw [apply, hafter]
    rfl
  | setBlockStateForGeneration pos newState =>
    obtain ⟨hvalid, hbuilding⟩ := setBlockStateForGeneration_spec h.represents pos newState
    refine ⟨_, _, rfl, hvalid, fun hnot => ?_⟩
    rw [hbuilding] at hnot
    cases hnot
  | recalculateCounts =>
    obtain ⟨after, hafter, hvalid, hcounters, -⟩ :=
      recalculateCounts_spec overflowChecks table h.represents
    exact ⟨after, contents, hafter, hvalid, fun _ => hcounters⟩
  | finalizeGenerationCountsIfNeeded =>
    obtain ⟨after, hafter, hvalid, hcounters⟩ := finalizeGenerationCounts_spec overflowChecks h
    exact ⟨after, contents, hafter, hvalid, fun _ => hcounters hcounted⟩

theorem foldlM_spec (overflowChecks : Bool) (operations : List SectionOperation)
    (h : Valid table chunkSection contents) (hcounted : Counted table chunkSection contents) :
    ∃ after contents', operations.foldlM (apply overflowChecks table) chunkSection = some after ∧
      Valid table after contents' ∧ Counted table after contents' := by
  induction operations generalizing chunkSection contents with
  | nil => exact ⟨chunkSection, contents, rfl, h, hcounted⟩
  | cons operation operations ih =>
    obtain ⟨next, contents', hnext, hvalid, hcounted⟩ :=
      apply_spec overflowChecks h hcounted operation
    rw [foldlM_cons, hnext]
    exact ih hvalid hcounted

end SectionOperation

theorem Valid.contents_eq (h : Valid table chunkSection contents) :
    chunkSection.states.get = contents :=
  funext h.represents.get_eq

/-- **Counters.** On a counted section every sequence of operations goes through, also where
overflow panics, and the counters are then those of a recount unless the section is being built. -/
theorem counters_exact (overflowChecks : Bool) (table : SectionStates) (chunkSection : ChunkSection)
    (operations : List SectionOperation)
    (hvalid : Valid table chunkSection chunkSection.states.get)
    (hcounted : isBuilding chunkSection.states = false →
      chunkSection.counters = recount table chunkSection.states.get) :
    ∃ after, operations.foldlM (SectionOperation.apply overflowChecks table) chunkSection =
        some after ∧
      (isBuilding after.states = false →
        after.counters = recount table after.states.get) := by
  obtain ⟨after, contents, hafter, hvalid, hcounted⟩ :=
    SectionOperation.foldlM_spec overflowChecks operations hvalid hcounted
  refine ⟨after, hafter, ?_⟩
  rw [hvalid.contents_eq]
  exact hcounted

def airStates : SectionStates where
  blockStateSectionCounts state :=
    { isAir := state = ⟨0⟩ || state = ⟨2⟩ || state = ⟨3⟩
      hasFluid := false
      randomlyTickingBlock := false
      randomlyTickingFluid := false }
  air := ⟨0⟩
  caveAir := ⟨2⟩
  voidAir := ⟨3⟩
  air_eq := rfl
  isAir_air := rfl

theorem counters_exact_newEmpty :
    ∃ after, [SectionOperation.setBlockState (0, 0, 0) ⟨1⟩,
        .setBlockStateForGeneration (1, 0, 0) ⟨1⟩,
        .recalculateCounts].foldlM (SectionOperation.apply true airStates) .newEmpty = some after ∧
      (isBuilding after.states = false →
        after.counters = recount airStates after.states.get) := by
  refine counters_exact true airStates .newEmpty _ ⟨fun _ => rfl, fun _ => rfl⟩ fun _ => ?_
  have hget : ChunkSection.newEmpty.states.get = fun _ => ⟨0⟩ := rfl
  rw [hget]
  simp only [recount, cellsWith_const]
  rfl

/-! ### The certificate -/

/-- The histories of a section. Access that is not tracked leaves any palette and any counters. -/
inductive Reached (overflowChecks : Bool) (table : SectionStates) : ChunkSection → Prop
  | newEmpty : Reached overflowChecks table .newEmpty
  | newWithBiomes {states : BlockPalette} {contents : Cube BlockStateId 16}
      (hstates : states.Represents contents) :
      Reached overflowChecks table (.newWithBiomes states)
  | setBlockState {chunkSection after : ChunkSection} {pos : CubePos 16}
      {oldState newState : BlockStateId} (h : Reached overflowChecks table chunkSection)
      (hset : chunkSection.setBlockState overflowChecks table pos newState =
        some (oldState, after)) : Reached overflowChecks table after
  | setBlockStateForGeneration {chunkSection : ChunkSection} {pos : CubePos 16}
      {newState : BlockStateId} (h : Reached overflowChecks table chunkSection) :
      Reached overflowChecks table (chunkSection.setBlockStateForGeneration pos newState).2
  | recalculateCounts {chunkSection after : ChunkSection}
      (h : Reached overflowChecks table chunkSection)
      (hafter : chunkSection.recalculateCounts overflowChecks table = some after) :
      Reached overflowChecks table after
  | finalizeGenerationCountsIfNeeded {chunkSection after : ChunkSection}
      (h : Reached overflowChecks table chunkSection)
      (hafter : chunkSection.finalizeGenerationCountsIfNeeded overflowChecks table = some after) :
      Reached overflowChecks table after
  | derefMut {chunkSection : ChunkSection} {states : BlockPalette}
      {contents : Cube BlockStateId 16} (h : Reached overflowChecks table chunkSection)
      (hstates : states.Represents contents) (counters : SectionCounters) :
      Reached overflowChecks table
        { chunkSection.invalidateStableAirOccupancy with states, counters }

theorem Reached.valid (h : Reached overflowChecks table chunkSection) :
    ∃ contents, Valid table chunkSection contents := by
  induction h with
  | newEmpty =>
    refine ⟨fun _ => ⟨0⟩, fun _ => rfl, fun _ => ?_⟩
    have hair := table.isAir_air
    rw [table.air_eq] at hair
    simp [SectionStates.isOccupied, SectionStates.isStableVanillaAir, hair, table.air_eq]
  | newWithBiomes hstates => exact ⟨_, hstates, trivial⟩
  | setBlockState _ hset ih =>
    obtain ⟨contents, hvalid⟩ := ih
    exact ⟨_, (setBlockState_spec overflowChecks hvalid _ _).1 _ _ hset⟩
  | setBlockStateForGeneration _ ih =>
    obtain ⟨contents, hvalid⟩ := ih
    exact ⟨_, (setBlockStateForGeneration_spec hvalid.represents _ _).1⟩
  | recalculateCounts _ hafter ih =>
    obtain ⟨contents, hvalid⟩ := ih
    obtain ⟨after, hafter', hvalid', -⟩ :=
      recalculateCounts_spec overflowChecks table hvalid.represents
    cases hafter.symm.trans hafter'
    exact ⟨contents, hvalid'⟩
  | finalizeGenerationCountsIfNeeded _ hafter ih =>
    obtain ⟨contents, hvalid⟩ := ih
    obtain ⟨after, hafter', hvalid', -⟩ := finalizeGenerationCounts_spec overflowChecks hvalid
    cases hafter.symm.trans hafter'
    exact ⟨contents, hvalid'⟩
  | derefMut _ hstates counters => exact ⟨_, hstates, trivial⟩

/-- **Clear boxes.** Whatever the history of a section, a box that it finds clear has nothing but
the three vanilla air blocks. -/
theorem stableAirBoxIsClear_air (h : Reached overflowChecks table chunkSection)
    {minX maxX minY maxY minZ maxZ : Fin 16}
    (hclear : chunkSection.stableAirBoxIsClear minX maxX minY maxY minZ maxZ = true)
    {x y z : Fin 16} (hx : minX ≤ x ∧ x ≤ maxX) (hy : minY ≤ y ∧ y ≤ maxY)
    (hz : minZ ≤ z ∧ z ≤ maxZ) :
    chunkSection.states.get (y, z, x) = table.air ∨
      chunkSection.states.get (y, z, x) = table.caveAir ∨
      chunkSection.states.get (y, z, x) = table.voidAir := by
  obtain ⟨contents, hvalid⟩ := h.valid
  rw [hvalid.contents_eq]
  exact SectionStates.eq_air_of_not_isOccupied
    (hvalid.certifies.clear_of_boxIsClear hclear hy hz hx)

/-- Next to a block that was set, the section is clear. -/
theorem stableAirBoxIsClear_air_beside :
    ∃ after, ChunkSection.newEmpty.setBlockState true airStates (4, 5, 3) ⟨1⟩ =
        some (⟨0⟩, after) ∧
      after.states.get (4, 5, 3) = ⟨1⟩ ∧ after.stableAirBoxIsClear 4 15 0 15 0 15 = true ∧
      (after.states.get (4, 5, 4) = airStates.air ∨
        after.states.get (4, 5, 4) = airStates.caveAir ∨
        after.states.get (4, 5, 4) = airStates.voidAir) := by
  obtain ⟨after, hset, hstone, hclear⟩ :
      ∃ after, ChunkSection.newEmpty.setBlockState true airStates (4, 5, 3) ⟨1⟩ =
        some (⟨0⟩, after) ∧ after.states.get (4, 5, 3) = ⟨1⟩ ∧
        after.stableAirBoxIsClear 4 15 0 15 0 15 = true := ⟨_, rfl, by decide +kernel, rfl⟩
  exact ⟨after, hset, hstone, hclear, stableAirBoxIsClear_air (Reached.newEmpty.setBlockState hset)
    hclear (by decide) (by decide) (by decide)⟩

end Steel.Sections

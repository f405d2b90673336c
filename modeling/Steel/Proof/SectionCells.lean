import Mathlib.Algebra.BigOperators.Group.Finset.Piecewise
import Mathlib.Algebra.Order.BigOperators.Group.List
import Steel.Chunk.Section
import Steel.Proof.PaletteCounts

/-!
# Counting the cells of a section

Both the counters and the certificate of a section follow the number of cells with a property: how
it changes with one cell, and how it is added up over the entries of a palette.
-/

namespace Steel.Sections

open List CountList Function

/-! ### 16-bit results -/

theorem u16Result_add {count more : ℕ} (overflowChecks : Bool) (hbound : count + more < 65536) :
    u16Result overflowChecks (count + more) = some (count + more) := by
  rw [u16Result, if_pos (by omega)]
  congr 1

theorem u16Result_succ {count : ℕ} (overflowChecks : Bool) (hbound : count + 1 < 65536) :
    u16Result overflowChecks (count + 1) = some (count + 1) :=
  u16Result_add overflowChecks hbound

theorem u16Result_pred {count : ℕ} (overflowChecks : Bool) (hpos : 0 < count)
    (hbound : count < 65536) : u16Result overflowChecks (count - 1) = some (count - 1) := by
  rw [u16Result, if_pos (by omega)]
  congr 1
  omega

/-! ### Cells -/

variable (property : BlockStateId → Bool)

def cellsWith (contents : Cube BlockStateId 16) : ℕ :=
  (Finset.univ.filter fun pos => property (contents pos) = true).card

section Cells

variable (property : BlockStateId → Bool) (contents : Cube BlockStateId 16)

theorem card_cubePos : Fintype.card (CubePos 16) = 4096 := by
  simp only [Fintype.card_prod, Fintype.card_fin]

theorem cellsWith_le : cellsWith property contents ≤ 4096 :=
  (Finset.card_filter_le _ _).trans_eq (Finset.card_univ.trans card_cubePos)

theorem cellsWith_lt_u16 : cellsWith property contents < 65536 :=
  (cellsWith_le property contents).trans_lt (Nat.lt_of_sub_pos (by decide))

theorem cellsWith_const (state : BlockStateId) :
    cellsWith property (fun _ => state) = if property state then 4096 else 0 := by
  unfold cellsWith
  split
  case isTrue htrue =>
    rw [Finset.filter_true_of_mem fun _ _ => htrue, Finset.card_univ, card_cubePos]
  case isFalse hfalse => rw [Finset.filter_false_of_mem fun _ _ => hfalse, Finset.card_empty]

theorem cellsWith_eq_zero_iff :
    cellsWith property contents = 0 ↔ ∀ pos, property (contents pos) = false := by
  rw [cellsWith, Finset.card_eq_zero, Finset.filter_eq_empty_iff]
  simp

theorem cellsWith_eq_all_iff :
    cellsWith property contents = 4096 ↔ ∀ pos, property (contents pos) = true := by
  rw [cellsWith, ← card_cubePos, ← Finset.card_univ, Finset.card_filter_eq_iff]
  simp

theorem cellsWith_pos {pos : CubePos 16} (hpos : property (contents pos) = true) :
    0 < cellsWith property contents :=
  Finset.card_pos.mpr ⟨pos, by simpa using hpos⟩

theorem cellsWith_lt {pos : CubePos 16} (hpos : property (contents pos) = false) :
    cellsWith property contents < 4096 := by
  refine lt_of_le_of_ne (cellsWith_le property contents) fun hall => ?_
  rw [(cellsWith_eq_all_iff property contents).mp hall pos] at hpos
  cases hpos

/-- One cell is set: the number changes with it. -/
theorem cellsWith_update (pos : CubePos 16) (state : BlockStateId) :
    cellsWith property (update contents pos state) +
        (if property (contents pos) then 1 else 0) =
      cellsWith property contents + if property state then 1 else 0 := by
  have hsplit : ∀ contents : Cube BlockStateId 16, cellsWith property contents =
      (if property (contents pos) then 1 else 0) +
        ∑ other ∈ Finset.univ.erase pos, if property (contents other) then 1 else 0 := by
    intro contents
    rw [cellsWith, Finset.card_filter]
    exact (Finset.add_sum_erase Finset.univ
      (fun other => if property (contents other) then 1 else 0)
      (Finset.mem_univ pos)).symm
  have hothers : ∑ other ∈ Finset.univ.erase pos,
        (if property (update contents pos state other) then 1 else 0) =
      ∑ other ∈ Finset.univ.erase pos, if property (contents other) then 1 else 0 := by
    refine Finset.sum_congr rfl fun other hother => ?_
    rw [update_of_ne (Finset.ne_of_mem_erase hother)]
  rw [hsplit, hsplit contents, hothers, update_self]
  omega

theorem countP_values : contents.values.countP property = cellsWith property contents := by
  have hall : (CubePos.all 16).toFinset = Finset.univ := by
    ext pos
    simp [CubePos.mem_all]
  rw [Cube.values, countP_map, countP_eq_length_filter,
    ← toFinset_card_of_nodup ((CubePos.nodup_all 16).filter _), toFinset_filter, hall]
  rfl

end Cells

/-! ### Counts of a palette -/

def entriesWith (palette : Palette BlockStateId) : ℕ :=
  ((palette.filter fun entry => property entry.1).map Prod.snd).sum

@[simp] theorem entriesWith_nil : entriesWith property [] = 0 := rfl

theorem entriesWith_cons (entry : BlockStateId × ℕ) (palette : Palette BlockStateId) :
    entriesWith property (entry :: palette) =
      (if property entry.1 then entry.2 else 0) + entriesWith property palette := by
  unfold entriesWith
  by_cases hentry : property entry.1 = true <;> simp [hentry]

theorem entriesWith_eq {palette : Palette BlockStateId} {contents : Cube BlockStateId 16}
    (h : Lists palette fun state => contents.values.count state) (property : BlockStateId → Bool) :
    entriesWith property palette = cellsWith property contents := by
  rw [entriesWith, h.sum_filter, countP_values]

/-! ### The counters -/

/-- A count of all cells from scratch. -/
def recount (table : SectionStates) (contents : Cube BlockStateId 16) : SectionCounters where
  nonEmptyBlockCount :=
    cellsWith (fun state => !(table.blockStateSectionCounts state).isAir) contents
  fluidCount := cellsWith (fun state => (table.blockStateSectionCounts state).hasFluid) contents
  tickingBlockCount :=
    cellsWith (fun state => (table.blockStateSectionCounts state).randomlyTickingBlock) contents
  tickingFluidCount :=
    cellsWith (fun state => (table.blockStateSectionCounts state).randomlyTickingFluid) contents

namespace SectionCounters

variable (overflowChecks : Bool) (table : SectionStates)

theorem accumulateTrait_eq {count blockCount : ℕ} {hasTrait : Bool}
    (hbound : count + (if hasTrait then blockCount else 0) < 65536) :
    accumulateTrait overflowChecks count hasTrait blockCount =
      some (count + if hasTrait then blockCount else 0) := by
  cases hasTrait with
  | true =>
    simp only [accumulateTrait, if_true] at hbound ⊢
    exact u16Result_add overflowChecks hbound
  | false => rfl

def addEntries (counters : SectionCounters) (palette : Palette BlockStateId) : SectionCounters where
  nonEmptyBlockCount := counters.nonEmptyBlockCount +
    entriesWith (fun state => !(table.blockStateSectionCounts state).isAir) palette
  fluidCount := counters.fluidCount +
    entriesWith (fun state => (table.blockStateSectionCounts state).hasFluid) palette
  tickingBlockCount := counters.tickingBlockCount +
    entriesWith (fun state => (table.blockStateSectionCounts state).randomlyTickingBlock) palette
  tickingFluidCount := counters.tickingFluidCount +
    entriesWith (fun state => (table.blockStateSectionCounts state).randomlyTickingFluid) palette

structure Fits (counters : SectionCounters) : Prop where
  nonEmptyBlockCount : counters.nonEmptyBlockCount < 65536
  fluidCount : counters.fluidCount < 65536
  tickingBlockCount : counters.tickingBlockCount < 65536
  tickingFluidCount : counters.tickingFluidCount < 65536

variable {table} {counters : SectionCounters} {palette : Palette BlockStateId}

theorem addEntries_cons (entry : BlockStateId × ℕ) :
    counters.addEntries table (entry :: palette) =
      (counters.addEntries table [entry]).addEntries table palette := by
  simp only [addEntries, entriesWith_cons, ← Nat.add_assoc]
  rfl

theorem Fits.of_addEntries (h : (counters.addEntries table palette).Fits) : counters.Fits where
  nonEmptyBlockCount := (Nat.le_add_right _ _).trans_lt h.nonEmptyBlockCount
  fluidCount := (Nat.le_add_right _ _).trans_lt h.fluidCount
  tickingBlockCount := (Nat.le_add_right _ _).trans_lt h.tickingBlockCount
  tickingFluidCount := (Nat.le_add_right _ _).trans_lt h.tickingFluidCount

theorem accumulateCounterTraits_eq {entry : BlockStateId × ℕ}
    (h : (counters.addEntries table [entry]).Fits) :
    counters.accumulateCounterTraits overflowChecks
      (table.blockStateSectionCounts entry.1) entry.2 =
      some (counters.addEntries table [entry]) := by
  obtain ⟨hblocks, hfluids, hticks, hflows⟩ := h
  simp only [addEntries, entriesWith_cons, entriesWith_nil, Nat.add_zero]
    at hblocks hfluids hticks hflows ⊢
  rw [accumulateCounterTraits, accumulateTrait_eq overflowChecks hblocks,
    accumulateTrait_eq overflowChecks hfluids, accumulateTrait_eq overflowChecks hticks,
    accumulateTrait_eq overflowChecks hflows]
  rfl

theorem foldlM_accumulate (h : (counters.addEntries table palette).Fits) :
    palette.foldlM (fun counters (entry : BlockStateId × ℕ) =>
        counters.accumulateCounterTraits overflowChecks (table.blockStateSectionCounts entry.1)
          entry.2) counters =
      some (counters.addEntries table palette) := by
  induction palette generalizing counters with
  | nil => rfl
  | cons entry palette ih =>
    rw [addEntries_cons] at h ⊢
    rw [foldlM_cons, accumulateCounterTraits_eq overflowChecks h.of_addEntries]
    exact ih h

variable {contents : Cube BlockStateId 16}

theorem fits_recount : (recount table contents).Fits := by
  constructor <;> simp only [recount] <;> exact cellsWith_lt_u16 _ contents

theorem addEntries_zero (h : Lists palette fun state => contents.values.count state) :
    zero.addEntries table palette = recount table contents := by
  simp only [addEntries, zero, entriesWith_eq h, Nat.zero_add, recount]

theorem addEntries_homogeneous (state : BlockStateId) :
    zero.addEntries table [(state, blocksPerSection)] = recount table fun _ => state := by
  simp only [addEntries, zero, recount, cellsWith_const, entriesWith_cons, entriesWith_nil,
    Nat.add_zero, Nat.zero_add, blocksPerSection]

/-- A palette is counted as its cells are. -/
theorem countPalette_eq {states : BlockPalette} (h : states.Represents contents)
    (hbuilding : isBuilding states = false) :
    ChunkSection.countPalette overflowChecks table states = some (recount table contents) := by
  cases states with
  | homogeneous state =>
    obtain rfl : contents = fun _ => state := funext h
    have hfits : (zero.addEntries table [(state, blocksPerSection)]).Fits := by
      rw [addEntries_homogeneous]
      exact fits_recount
    rw [← addEntries_homogeneous]
    exact accumulateCounterTraits_eq overflowChecks hfits
  | heterogeneous data =>
    have hfits : (zero.addEntries table data.palette).Fits := by
      rw [addEntries_zero h.2.1]
      exact fits_recount
    rw [← addEntries_zero h.2.1]
    exact foldlM_accumulate overflowChecks hfits
  | building cube => cases hbuilding

theorem changeTrait_eq (property : BlockStateId → Bool) (pos : CubePos 16) (state : BlockStateId) :
    changeTrait overflowChecks (cellsWith property contents) (property (contents pos))
        (property state) =
      some (cellsWith property (update contents pos state)) := by
  have hupdate := cellsWith_update property contents pos state
  have hle := cellsWith_le property contents
  unfold changeTrait
  cases hold : property (contents pos) <;> cases hnew : property state <;>
    simp only [hold, hnew, if_true, Bool.false_eq_true, if_false, Nat.add_zero,
      Nat.add_right_cancel_iff] at hupdate
  case true.false =>
    have hpos := cellsWith_pos property contents hold
    rw [← hupdate] at hpos ⊢
    rw [if_pos (by decide)]
    exact u16Result_pred overflowChecks hpos (by omega)
  case false.true =>
    rw [hupdate, if_neg (by decide), if_pos (by decide)]
    exact u16Result_succ overflowChecks (by omega)
  all_goals
    rw [hupdate]
    rfl

/-- **One cell.** The counters follow the change of a cell, and none leaves its range. -/
theorem applyCountChange_eq (pos : CubePos 16) (state : BlockStateId) :
    (recount table contents).applyCountChange overflowChecks
        (table.blockStateSectionCounts (contents pos)) (table.blockStateSectionCounts state) =
      some (recount table (update contents pos state)) := by
  simp only [applyCountChange, recount]
  rw [changeTrait_eq overflowChecks (fun state => !(table.blockStateSectionCounts state).isAir) pos
      state,
    changeTrait_eq overflowChecks (fun state => (table.blockStateSectionCounts state).hasFluid) pos
      state,
    changeTrait_eq overflowChecks
      (fun state => (table.blockStateSectionCounts state).randomlyTickingBlock) pos state,
    changeTrait_eq overflowChecks
      (fun state => (table.blockStateSectionCounts state).randomlyTickingFluid) pos state]
  rfl

end SectionCounters

end Steel.Sections

import Steel.Utils.Position

/-!
# The strength of a redstone wire

`calculateTargetStrength` inlines the signal queries of the neighbors, reuses the states it has
read and stops as soon as nothing can raise the signal any more. `calculateTargetStrengthReference`
asks every neighbor in full. What the blocks do is left open up to their laws.
-/

namespace Steel

open List

structure SignalQueryContext where
  wireSignalsEnabled : Bool

def SignalQueryContext.withoutWireSignals : SignalQueryContext :=
  { wireSignalsEnabled := false }

def minRedstoneSignal : Int := 0

def maxRedstoneSignal : Int := 15

/-- What the evaluator asks of block states and of the behaviors of their blocks. -/
structure RedstoneBehaviors (State : Type) where
  isAir : State → Bool
  isWire : State → Bool
  power : State → Fin 16
  getSignal : State → (BlockPos → State) → BlockPos → Direction → SignalQueryContext → Int
  getDirectSignal : State → (BlockPos → State) → BlockPos → Direction → SignalQueryContext → Int
  isRedstoneConductor : State → (BlockPos → State) → BlockPos → Bool
  getSignal_mem : ∀ state level pos direction context,
    0 ≤ getSignal state level pos direction context ∧
      getSignal state level pos direction context ≤ 15
  getDirectSignal_mem : ∀ state level pos direction context,
    0 ≤ getDirectSignal state level pos direction context ∧
      getDirectSignal state level pos direction context ≤ 15
  silent : ∀ state, isAir state = true ∨ isWire state = true → ∀ level pos,
    isRedstoneConductor state level pos = false ∧ ∀ direction,
      getSignal state level pos direction .withoutWireSignals = 0 ∧
        getDirectSignal state level pos direction .withoutWireSignals = 0

namespace RedstoneBehaviors

variable {State : Type} (blocks : RedstoneBehaviors State) (level : BlockPos → State)

def getWireSignal (state : State) : Int :=
  if blocks.isWire state then (blocks.power state).val else 0

/-- The loop over the directions not yet asked. -/
def directSignalFrom (pos : BlockPos) (directionToCenter : Direction) (context : SignalQueryContext)
    (ignoreCenterSignal : Bool) : List Direction → Int → Int
  | [], signal => signal
  | direction :: directions, signal =>
    if direction = directionToCenter ∧ ignoreCenterSignal then
      directSignalFrom pos directionToCenter context ignoreCenterSignal directions signal
    else
      let neighborPos := pos.relative direction
      let neighborState := level neighborPos
      if blocks.isAir neighborState || blocks.isWire neighborState then
        directSignalFrom pos directionToCenter context ignoreCenterSignal directions signal
      else
        let signal := max signal
          (blocks.getDirectSignal neighborState level neighborPos direction context)
        if signal = 15 then 15
        else directSignalFrom pos directionToCenter context ignoreCenterSignal directions signal

variable (pos : BlockPos)

def getDirectSignalTo (directionToCenter : Direction) (context : SignalQueryContext)
    (ignoreCenterSignal : Bool) : Int :=
  blocks.directSignalFrom level pos directionToCenter context ignoreCenterSignal Direction.all 0

def getNonWireSignal (state : State) (direction : Direction) (context : SignalQueryContext)
    (ignoreCenterSignal : Bool) : Int × Bool :=
  if blocks.isAir state then (0, false)
  else
    let signal := blocks.getSignal state level pos direction context
    let isConductor := blocks.isRedstoneConductor state level pos
    if isConductor && signal < 15 then
      (max signal (blocks.getDirectSignalTo level pos direction.opposite context
        ignoreCenterSignal), isConductor)
    else (signal, isConductor)

def getSignalFromVertical (state : State) (direction : Direction) (context : SignalQueryContext)
    (ignoreCenterSignal : Bool) : Int × Bool :=
  if blocks.isWire state then (0, false)
  else blocks.getNonWireSignal level pos state direction context ignoreCenterSignal

/-- The loop over the sides not yet asked. -/
def signalFromSides (pos : BlockPos) (context : SignalQueryContext)
    (ignoreCenterSignal aboveIsConductor : Bool) : List Direction → Int → Int
  | [], signal => signal
  | direction :: directions, signal =>
    let neighborPos := pos.relative direction
    let neighborState := level neighborPos
    if blocks.isWire neighborState then
      let signal := max signal (blocks.getWireSignal neighborState - 1)
      if signal = 15 then 15
      else signalFromSides pos context ignoreCenterSignal aboveIsConductor directions signal
    else
      let neighbor := blocks.getNonWireSignal level neighborPos neighborState direction context
        ignoreCenterSignal
      let signal := max signal neighbor.1
      if signal = 15 then 15
      else
        let signal :=
          if signal < 14 then
            if neighbor.2 && !aboveIsConductor then
              max signal (blocks.getWireSignal (level (neighborPos.relative .up)) - 1)
            else if !neighbor.2 then
              max signal (blocks.getWireSignal (level (neighborPos.relative .down)) - 1)
            else signal
          else signal
        if signal = 15 then 15
        else signalFromSides pos context ignoreCenterSignal aboveIsConductor directions signal

def calculateTargetStrength : Int :=
  let context := SignalQueryContext.withoutWireSignals
  let centerState := level pos
  let ignoreCenterSignal := blocks.isAir centerState || blocks.isWire centerState
  let belowPos := pos.relative .down
  let abovePos := pos.relative .up
  let below := blocks.getSignalFromVertical level belowPos (level belowPos) .down context
    ignoreCenterSignal
  if below.1 = 15 then 15
  else
    let above := blocks.getSignalFromVertical level abovePos (level abovePos) .up context
      ignoreCenterSignal
    let signal := max below.1 above.1
    if signal = 15 then 15
    else blocks.signalFromSides level pos context ignoreCenterSignal above.2 Direction.horizontal
      signal

section Reference

/-- The loop of the general `get_direct_signal_to`. -/
def directSignalOfAll (pos : BlockPos) (context : SignalQueryContext) :
    List Direction → Int → Int
  | [], result => result
  | direction :: directions, result =>
    let result := max result (blocks.getDirectSignal (level (pos.relative direction)) level
      (pos.relative direction) direction context)
    if result ≥ maxRedstoneSignal then result else directSignalOfAll pos context directions result

variable (pos : BlockPos)

/-- The signal a block passes on, a conductor also what its neighbors put into it. -/
def getSignalAt (direction : Direction) (context : SignalQueryContext) : Int :=
  let signal := blocks.getSignal (level pos) level pos direction context
  if blocks.isRedstoneConductor (level pos) level pos then
    max signal (blocks.directSignalOfAll level pos context Direction.all minRedstoneSignal)
  else signal

def bestSignalOf (pos : BlockPos) (context : SignalQueryContext) : List Direction → Int → Int
  | [], best => best
  | direction :: directions, best =>
    let signal := blocks.getSignalAt level (pos.relative direction) direction context
    if signal ≥ maxRedstoneSignal then maxRedstoneSignal
    else bestSignalOf pos context directions (max best signal)

def getBestNeighborSignal (context : SignalQueryContext) : Int :=
  blocks.bestSignalOf level pos context Direction.all minRedstoneSignal

/-- The wires that one side connects to: beside, over a conductor, or under an open side. -/
def wireSignalAtSide (aboveIsConductor : Bool) (signal : Int) (direction : Direction) : Int :=
  let neighborPos := pos.relative direction
  let neighborState := level neighborPos
  let signal := max signal (blocks.getWireSignal neighborState)
  if blocks.isRedstoneConductor neighborState level neighborPos && !aboveIsConductor then
    max signal (blocks.getWireSignal (level (neighborPos.relative .up)))
  else if !blocks.isRedstoneConductor neighborState level neighborPos then
    max signal (blocks.getWireSignal (level (neighborPos.relative .down)))
  else signal

def getIncomingWireSignalReference : Int :=
  let abovePos := pos.relative .up
  let aboveIsConductor := blocks.isRedstoneConductor (level abovePos) level abovePos
  Direction.horizontal.foldl (blocks.wireSignalAtSide level pos aboveIsConductor) 0 - 1

def calculateTargetStrengthReference : Int :=
  let blockSignal := blocks.getBestNeighborSignal level pos .withoutWireSignals
  if blockSignal = 15 then 15
  else max blockSignal (blocks.getIncomingWireSignalReference level pos)

end Reference

variable {blocks level}

theorem getWireSignal_mem (blocks : RedstoneBehaviors State) (state : State) :
    0 ≤ blocks.getWireSignal state ∧ blocks.getWireSignal state ≤ 15 := by
  have := (blocks.power state).isLt
  rw [getWireSignal]
  split <;> omega

section Bounds

variable {pos : BlockPos} {context : SignalQueryContext} {signal k : Int}

/-! A loop is compared with its reference through the bounds of its result, since cutting it off
at the largest signal does not change them. -/

variable {directions : List Direction}

theorem directSignalOfAll_le_iff (hsignal : signal ≤ 15) :
    blocks.directSignalOfAll level pos context directions signal ≤ k ↔ signal ≤ k ∧
      ∀ direction ∈ directions, blocks.getDirectSignal (level (pos.relative direction)) level
        (pos.relative direction) direction context ≤ k := by
  induction directions generalizing signal with
  | nil => simp [directSignalOfAll]
  | cons direction directions ih =>
    have hnext := blocks.getDirectSignal_mem (level (pos.relative direction)) level
      (pos.relative direction) direction context
    rw [directSignalOfAll, forall_mem_cons, ← and_assoc, ← Int.max_le]
    split
    · rename_i hmax
      rw [maxRedstoneSignal] at hmax
      refine ⟨fun h => ⟨h, ?_⟩, And.left⟩
      intro other _
      have := blocks.getDirectSignal_mem (level (pos.relative other)) level (pos.relative other)
        other context
      omega
    · exact ih (by omega)

theorem directSignalFrom_le_iff {directionToCenter : Direction}
    {ignoreCenterSignal : Bool} (hsignal : 0 ≤ signal ∧ signal ≤ 15)
    (hcenter : ignoreCenterSignal = true → blocks.isAir (level (pos.relative directionToCenter)) ∨
      blocks.isWire (level (pos.relative directionToCenter))) :
    blocks.directSignalFrom level pos directionToCenter .withoutWireSignals ignoreCenterSignal
        directions signal ≤ k ↔ signal ≤ k ∧
      ∀ direction ∈ directions, blocks.getDirectSignal (level (pos.relative direction)) level
        (pos.relative direction) direction .withoutWireSignals ≤ k := by
  induction directions generalizing signal with
  | nil => simp [directSignalFrom]
  | cons direction directions ih =>
    have hnext := blocks.getDirectSignal_mem (level (pos.relative direction)) level
      (pos.relative direction) direction .withoutWireSignals
    -- a neighbor that is skipped gives no signal
    have hskip : blocks.isAir (level (pos.relative direction)) = true ∨
        blocks.isWire (level (pos.relative direction)) = true →
        max signal (blocks.getDirectSignal (level (pos.relative direction)) level
          (pos.relative direction) direction .withoutWireSignals) = signal := by
      intro hsilent
      rw [((blocks.silent _ hsilent level _).2 direction).2]
      omega
    rw [directSignalFrom, forall_mem_cons, ← and_assoc, ← Int.max_le]
    split
    · rename_i hignored
      rw [hskip (hignored.1 ▸ hcenter hignored.2)]
      exact ih hsignal
    · dsimp only
      split
      · rename_i hsilent
        rw [hskip (by simpa using hsilent)]
        exact ih hsignal
      · split
        · rename_i hmax
          refine ⟨fun h => ⟨by omega, ?_⟩, fun h => by omega⟩
          intro other _
          have := blocks.getDirectSignal_mem (level (pos.relative other)) level
            (pos.relative other) other .withoutWireSignals
          omega
        · exact ih (by omega)

theorem directSignalOfAll_le :
    blocks.directSignalOfAll level pos context Direction.all minRedstoneSignal ≤ 15 :=
  (directSignalOfAll_le_iff (by decide)).mpr ⟨by decide, fun other _ =>
    (blocks.getDirectSignal_mem (level (pos.relative other)) level _ other context).2⟩

theorem getSignalAt_mem (blocks : RedstoneBehaviors State) (level : BlockPos → State)
    (pos : BlockPos) (direction : Direction) (context : SignalQueryContext) :
    0 ≤ blocks.getSignalAt level pos direction context ∧
      blocks.getSignalAt level pos direction context ≤ 15 := by
  have hsignal := blocks.getSignal_mem (level pos) level pos direction context
  have hdirect : blocks.directSignalOfAll level pos context Direction.all minRedstoneSignal ≤ 15 :=
    directSignalOfAll_le
  rw [getSignalAt]
  split <;> omega

theorem bestSignalOf_le_iff (hsignal : signal ≤ 15) :
    blocks.bestSignalOf level pos context directions signal ≤ k ↔ signal ≤ k ∧
      ∀ direction ∈ directions,
        blocks.getSignalAt level (pos.relative direction) direction context ≤ k := by
  induction directions generalizing signal with
  | nil => simp [bestSignalOf]
  | cons direction directions ih =>
    have hnext := blocks.getSignalAt_mem level (pos.relative direction) direction context
    rw [bestSignalOf, forall_mem_cons, ← and_assoc, ← Int.max_le]
    split
    · rename_i hmax
      rw [maxRedstoneSignal] at hmax ⊢
      refine ⟨fun h => ⟨by omega, ?_⟩, fun h => by omega⟩
      intro other _
      exact (blocks.getSignalAt_mem level (pos.relative other) other context).2.trans h
    · exact ih (by omega)

end Bounds

section Neighbors

variable {pos : BlockPos} (hpos : pos.InRange)

include hpos

/-- The direction back to the center is only ignored where it gives no signal. -/
theorem getDirectSignalTo_eq (direction : Direction) :
    blocks.getDirectSignalTo level (pos.relative direction) direction.opposite .withoutWireSignals
        (blocks.isAir (level pos) || blocks.isWire (level pos)) =
      blocks.directSignalOfAll level (pos.relative direction) .withoutWireSignals Direction.all
        minRedstoneSignal := by
  refine eq_of_forall_ge_iff fun k => ?_
  rw [getDirectSignalTo, directSignalOfAll_le_iff (by decide), directSignalFrom_le_iff (by decide)]
  · rfl
  · rw [hpos.relative_relative_opposite]
    simp

theorem getNonWireSignal_eq (direction : Direction) :
    blocks.getNonWireSignal level (pos.relative direction) (level (pos.relative direction))
        direction .withoutWireSignals (blocks.isAir (level pos) || blocks.isWire (level pos)) =
      (blocks.getSignalAt level (pos.relative direction) direction .withoutWireSignals,
        blocks.isRedstoneConductor (level (pos.relative direction)) level
          (pos.relative direction)) := by
  rw [getNonWireSignal, getSignalAt, getDirectSignalTo_eq hpos]
  split
  · rename_i hair
    obtain ⟨hconductor, hsilent⟩ := blocks.silent _ (.inl hair) level (pos.relative direction)
    rw [hconductor, if_neg Bool.false_ne_true, (hsilent direction).1]
  · dsimp only
    have hsignal := blocks.getSignal_mem (level (pos.relative direction)) level
      (pos.relative direction) direction .withoutWireSignals
    have hdirect : blocks.directSignalOfAll level (pos.relative direction) .withoutWireSignals
      Direction.all minRedstoneSignal ≤ 15 := directSignalOfAll_le
    cases hconductor : blocks.isRedstoneConductor (level (pos.relative direction)) level
      (pos.relative direction) with
    | false => rfl
    | true =>
      rw [Bool.true_and, if_pos rfl]
      split
      · rfl
      · rename_i hmax
        rw [decide_eq_true_eq] at hmax
        rw [max_eq_left (by omega)]

theorem getSignalFromVertical_eq (direction : Direction) :
    blocks.getSignalFromVertical level (pos.relative direction) (level (pos.relative direction))
        direction .withoutWireSignals (blocks.isAir (level pos) || blocks.isWire (level pos)) =
      (blocks.getSignalAt level (pos.relative direction) direction .withoutWireSignals,
        blocks.isRedstoneConductor (level (pos.relative direction)) level
          (pos.relative direction)) := by
  rw [getSignalFromVertical, getNonWireSignal_eq hpos]
  split
  · rename_i hwire
    obtain ⟨hconductor, hsilent⟩ := blocks.silent _ (.inr hwire) level (pos.relative direction)
    rw [getSignalAt, hconductor, if_neg Bool.false_ne_true, (hsilent direction).1]
  · rfl

end Neighbors

/-- No wire lies on another one. -/
def WiresSurvive (blocks : RedstoneBehaviors State) (level : BlockPos → State) : Prop :=
  ∀ pos, blocks.isWire (level pos) = true → blocks.isWire (level (pos.relative .down)) = false

section Sides

variable {pos : BlockPos} {aboveIsConductor : Bool} {signal k : Int}

theorem wireSignalAtSide_eq (direction : Direction) (hsignal : 0 ≤ signal) :
    blocks.wireSignalAtSide level pos aboveIsConductor signal direction =
      max signal (blocks.wireSignalAtSide level pos aboveIsConductor 0 direction) := by
  simp only [wireSignalAtSide]
  split_ifs <;> omega

theorem wireSignalAtSide_mem (direction : Direction) :
    0 ≤ blocks.wireSignalAtSide level pos aboveIsConductor 0 direction ∧
      blocks.wireSignalAtSide level pos aboveIsConductor 0 direction ≤ 15 := by
  have hbeside := blocks.getWireSignal_mem (level (pos.relative direction))
  have habove := blocks.getWireSignal_mem (level ((pos.relative direction).relative .up))
  have hbelow := blocks.getWireSignal_mem (level ((pos.relative direction).relative .down))
  simp only [wireSignalAtSide]
  split_ifs <;> omega

variable {directions : List Direction} {direction : Direction}

theorem foldl_wireSignalAtSide_le_iff (hsignal : 0 ≤ signal) :
    directions.foldl (blocks.wireSignalAtSide level pos aboveIsConductor) signal ≤ k ↔
      signal ≤ k ∧ ∀ direction ∈ directions,
        blocks.wireSignalAtSide level pos aboveIsConductor 0 direction ≤ k := by
  induction directions generalizing signal with
  | nil => simp
  | cons direction directions ih =>
    rw [foldl_cons, wireSignalAtSide_eq direction hsignal, ih (by omega),
      forall_mem_cons, ← and_assoc, Int.max_le]

theorem max_signal_of_wire (hwires : blocks.WiresSurvive level)
    (h : blocks.isWire (level (pos.relative direction)) = true) (hsignal : 0 ≤ signal) :
    max signal (blocks.getWireSignal (level (pos.relative direction)) - 1) = max signal
      (max (blocks.getSignalAt level (pos.relative direction) direction .withoutWireSignals)
        (blocks.wireSignalAtSide level pos aboveIsConductor 0 direction - 1)) := by
  obtain ⟨hconductor, hsilent⟩ := blocks.silent _ (.inr h) level (pos.relative direction)
  have hbeside := blocks.getWireSignal_mem (level (pos.relative direction))
  have hbelow : blocks.getWireSignal (level ((pos.relative direction).relative .down)) = 0 := by
    rw [getWireSignal, hwires _ h, if_neg Bool.false_ne_true]
  simp only [getSignalAt, wireSignalAtSide, hconductor, (hsilent direction).1, hbelow,
    Bool.false_and, Bool.not_false, Bool.false_eq_true, if_false, if_true]
  omega

/-- From 14 on a wire, which loses one on its way, is not asked any more. -/
theorem max_signal_of_not_wire (h : ¬ blocks.isWire (level (pos.relative direction)) = true) :
    (if max signal (blocks.getSignalAt level (pos.relative direction) direction
          .withoutWireSignals) < 14 then
        if blocks.isRedstoneConductor (level (pos.relative direction)) level
            (pos.relative direction) && !aboveIsConductor then
          max (max signal (blocks.getSignalAt level (pos.relative direction) direction
            .withoutWireSignals))
            (blocks.getWireSignal (level ((pos.relative direction).relative .up)) - 1)
        else if !blocks.isRedstoneConductor (level (pos.relative direction)) level
            (pos.relative direction) then
          max (max signal (blocks.getSignalAt level (pos.relative direction) direction
            .withoutWireSignals))
            (blocks.getWireSignal (level ((pos.relative direction).relative .down)) - 1)
        else max signal (blocks.getSignalAt level (pos.relative direction) direction
          .withoutWireSignals)
      else max signal (blocks.getSignalAt level (pos.relative direction) direction
        .withoutWireSignals)) = max signal
      (max (blocks.getSignalAt level (pos.relative direction) direction .withoutWireSignals)
        (blocks.wireSignalAtSide level pos aboveIsConductor 0 direction - 1)) := by
  have hbeside : blocks.getWireSignal (level (pos.relative direction)) = 0 := by
    rw [getWireSignal, if_neg h]
  have hasked := blocks.getSignalAt_mem level (pos.relative direction) direction
    .withoutWireSignals
  have habove := blocks.getWireSignal_mem (level ((pos.relative direction).relative .up))
  have hbelow := blocks.getWireSignal_mem (level ((pos.relative direction).relative .down))
  simp only [wireSignalAtSide, hbeside]
  split_ifs <;> omega

/-- The loop may stop at the maximum, as no side gives more. -/
theorem signalFromSides_le_iff (hpos : pos.InRange) (hwires : blocks.WiresSurvive level)
    (hsignal : 0 ≤ signal ∧ signal ≤ 15) : blocks.signalFromSides level pos .withoutWireSignals
        (blocks.isAir (level pos) || blocks.isWire (level pos)) aboveIsConductor directions signal
        ≤ k ↔
      signal ≤ k ∧ ∀ direction ∈ directions,
        max (blocks.getSignalAt level (pos.relative direction) direction .withoutWireSignals)
          (blocks.wireSignalAtSide level pos aboveIsConductor 0 direction - 1) ≤ k := by
  induction directions generalizing signal with
  | nil => simp [signalFromSides]
  | cons direction directions ih =>
    have hsides : ∀ other, max
        (blocks.getSignalAt level (pos.relative other) other .withoutWireSignals)
        (blocks.wireSignalAtSide level pos aboveIsConductor 0 other - 1) ≤ 15 := by
      intro other
      have hother := blocks.getSignalAt_mem level (pos.relative other) other .withoutWireSignals
      have hwire : _ ∧ blocks.wireSignalAtSide level pos aboveIsConductor 0 other ≤ 15 :=
        wireSignalAtSide_mem other
      omega
    have hcut : ∀ next : Int, 0 ≤ next ∧ next ≤ 15 →
        ((if next = 15 then 15 else blocks.signalFromSides level pos .withoutWireSignals
          (blocks.isAir (level pos) || blocks.isWire (level pos)) aboveIsConductor directions next)
          ≤ k ↔ next ≤ k ∧ ∀ other ∈ directions,
          max (blocks.getSignalAt level (pos.relative other) other .withoutWireSignals)
            (blocks.wireSignalAtSide level pos aboveIsConductor 0 other - 1) ≤ k) := by
      intro next hnext
      split
      · rename_i hmax
        rw [hmax]
        exact ⟨fun h => ⟨h, fun other _ => (hsides other).trans h⟩, And.left⟩
      · exact ih hnext
    have hwire : 0 ≤ blocks.wireSignalAtSide level pos aboveIsConductor 0 direction ∧ _ :=
      wireSignalAtSide_mem direction
    have hside := hsides direction
    rw [signalFromSides, forall_mem_cons, ← and_assoc, ← Int.max_le]
    split
    · rename_i hneighbor
      rw [max_signal_of_wire hwires hneighbor hsignal.1]
      exact hcut _ (by omega)
    · rename_i hneighbor
      rw [getNonWireSignal_eq hpos]
      dsimp only
      split
      · rename_i hmax
        refine ⟨fun h => ⟨by omega, fun other _ => (hsides other).trans h⟩, fun h => by omega⟩
      · rw [max_signal_of_not_wire hneighbor]
        exact hcut _ (by omega)

end Sides

theorem calculateTargetStrengthReference_le_iff {pos : BlockPos} {k : Int} :
    blocks.calculateTargetStrengthReference level pos ≤ k ↔ 0 ≤ k ∧
      (∀ direction ∈ Direction.all,
        blocks.getSignalAt level (pos.relative direction) direction .withoutWireSignals ≤ k) ∧
      ∀ direction ∈ Direction.horizontal, blocks.wireSignalAtSide level pos
        (blocks.isRedstoneConductor (level (pos.relative .up)) level (pos.relative .up)) 0
        direction ≤ k + 1 := by
  have hincoming : ∀ bound, blocks.getIncomingWireSignalReference level pos ≤ bound ↔
      0 ≤ bound + 1 ∧ ∀ direction ∈ Direction.horizontal, blocks.wireSignalAtSide level pos
        (blocks.isRedstoneConductor (level (pos.relative .up)) level (pos.relative .up)) 0
        direction ≤ bound + 1 := by
    intro bound
    rw [getIncomingWireSignalReference]
    refine Iff.trans ⟨fun h => ?_, fun h => ?_⟩ (foldl_wireSignalAtSide_le_iff le_rfl)
    · omega
    · omega
  have hsmall : blocks.getIncomingWireSignalReference level pos ≤ 14 :=
    (hincoming 14).mpr ⟨by decide, fun direction _ => (wireSignalAtSide_mem direction).2⟩
  have hmax : blocks.calculateTargetStrengthReference level pos =
      max (blocks.getBestNeighborSignal level pos .withoutWireSignals)
        (blocks.getIncomingWireSignalReference level pos) := by
    rw [calculateTargetStrengthReference]
    split <;> omega
  rw [hmax, Int.max_le, hincoming, getBestNeighborSignal, bestSignalOf_le_iff (by decide),
    minRedstoneSignal]
  refine ⟨fun ⟨⟨hk, hall⟩, _, hwires⟩ => ⟨hk, hall, hwires⟩, ?_⟩
  rintro ⟨hk, hall, hwires⟩
  exact ⟨⟨hk, hall⟩, by omega, hwires⟩

theorem calculateTargetStrength_le_iff {pos : BlockPos} {k : Int} (hpos : pos.InRange)
    (hwires : blocks.WiresSurvive level) :
    blocks.calculateTargetStrength level pos ≤ k ↔
      max (blocks.getSignalAt level (pos.relative .down) .down .withoutWireSignals)
        (blocks.getSignalAt level (pos.relative .up) .up .withoutWireSignals) ≤ k ∧
      ∀ direction ∈ Direction.horizontal,
        max (blocks.getSignalAt level (pos.relative direction) direction .withoutWireSignals)
          (blocks.wireSignalAtSide level pos
            (blocks.isRedstoneConductor (level (pos.relative .up)) level (pos.relative .up)) 0
            direction - 1) ≤ k := by
  have hbelow := blocks.getSignalAt_mem level (pos.relative .down) .down .withoutWireSignals
  have habove := blocks.getSignalAt_mem level (pos.relative .up) .up .withoutWireSignals
  have hsides : 15 ≤ k → ∀ direction ∈ Direction.horizontal,
      max (blocks.getSignalAt level (pos.relative direction) direction .withoutWireSignals)
        (blocks.wireSignalAtSide level pos
          (blocks.isRedstoneConductor (level (pos.relative .up)) level (pos.relative .up)) 0
          direction - 1) ≤ k := by
    intro hk direction _
    have hside := blocks.getSignalAt_mem level (pos.relative direction) direction
      .withoutWireSignals
    have hwire : _ ∧ blocks.wireSignalAtSide level pos
      (blocks.isRedstoneConductor (level (pos.relative .up)) level (pos.relative .up)) 0
      direction ≤ 15 := wireSignalAtSide_mem direction
    omega
  rw [calculateTargetStrength]
  dsimp only
  rw [getSignalFromVertical_eq hpos, getSignalFromVertical_eq hpos]
  dsimp only
  split
  · exact ⟨fun h => ⟨by omega, hsides h⟩, fun h => by omega⟩
  · split
    · exact ⟨fun h => ⟨by omega, hsides h⟩, fun h => by omega⟩
    · exact signalFromSides_le_iff hpos hwires (by omega)

/-- The shortcuts of the evaluator do not change the strength of a wire. -/
theorem calculateTargetStrength_eq_reference {pos : BlockPos} (hpos : pos.InRange)
    (hwires : blocks.WiresSurvive level) :
    blocks.calculateTargetStrength level pos =
      blocks.calculateTargetStrengthReference level pos := by
  have hbelow := blocks.getSignalAt_mem level (pos.relative .down) .down .withoutWireSignals
  refine eq_of_forall_ge_iff fun k => ?_
  rw [calculateTargetStrength_le_iff hpos hwires, calculateTargetStrengthReference_le_iff]
  simp only [Direction.all, Direction.horizontal, forall_mem_cons, not_mem_nil,
    Int.max_le]
  grind

inductive CircuitBlock where
  | air
  | wire
  | stone
  | torch
deriving DecidableEq

/-- A torch powers the block above it. -/
def circuitBlocks : RedstoneBehaviors CircuitBlock where
  isAir state := state = .air
  isWire state := state = .wire
  power _ := ⟨0, Nat.zero_lt_succ 15⟩
  getSignal state _ _ _ _ := if state = .torch then 15 else 0
  getDirectSignal state _ _ direction _ := if state = .torch ∧ direction = .down then 15 else 0
  isRedstoneConductor state _ _ := state = .stone
  getSignal_mem state _ _ _ _ := by cases state <;> decide
  getDirectSignal_mem state _ _ direction _ := by cases state <;> cases direction <;> decide
  silent state hsilent _ _ := by cases state <;> simp_all

/-- A stone beside the wire, over a torch. -/
def circuit : CircuitBlock :=
  if pos = ⟨1, 64, 0⟩ then .stone
  else if pos = ⟨1, 63, 0⟩ then .torch
  else if pos = ⟨0, 64, 0⟩ then .wire
  else .air

theorem calculateTargetStrength_eq_reference_conductor :
    circuitBlocks.calculateTargetStrength circuit ⟨0, 64, 0⟩ =
        circuitBlocks.calculateTargetStrengthReference circuit ⟨0, 64, 0⟩ ∧
      circuitBlocks.calculateTargetStrength circuit ⟨0, 64, 0⟩ = 15 := by
  refine ⟨calculateTargetStrength_eq_reference ⟨by decide, by decide, by decide⟩ ?_, by decide⟩
  intro pos hwire
  have honly : pos = ⟨0, 64, 0⟩ := by
    have hstate : circuit pos = .wire := of_decide_eq_true hwire
    unfold circuit at hstate
    split_ifs at hstate
    assumption
  subst honly
  decide

end RedstoneBehaviors

end Steel

import Mathlib.Tactic.Ring
import Steel.Utils.Position

/-!
# What a piston pushes

The resolver collects the blocks that a piston moves: a line in the push direction, the line behind
a sticky block, and branches beside sticky blocks. A line that runs into a block already collected
is put in front of it, so that the list can be moved from its end.
-/

namespace Steel

open List

/-- The blocks that the resolver compares with by name. -/
inductive PistonBlock where
  | obsidian
  | cryingObsidian
  | respawnAnchor
  | reinforcedDeepslate
  | slimeBlock
  | honeyBlock
  | other
deriving DecidableEq

inductive PushReaction where
  | pushPull
  | popped
  | immoveable
  | ignoreEntity
  | push
deriving DecidableEq

/-- What the resolver reads of a block state. In the registry no piston base is popped. -/
structure PistonState where
  block : PistonBlock
  isAir : Bool
  isPistonBase : Bool
  extended : Bool
  indestructible : Bool
  pushReaction : PushReaction
  hasBlockEntity : Bool
  pushReaction_of_isPistonBase : isPistonBase = true → pushReaction ≠ .popped

namespace PistonState

def isSticky (state : PistonState) : Bool :=
  state.block = .slimeBlock || state.block = .honeyBlock

def canStickToEachOther (first second : PistonState) : Bool :=
  if (first.block = .honeyBlock ∧ second.block = .slimeBlock) ∨
      (first.block = .slimeBlock ∧ second.block = .honeyBlock) then false
  else first.isSticky || second.isSticky

end PistonState

structure PistonLevel where
  getBlockState : BlockPos → PistonState
  isWithinWorldBorder : BlockPos → Bool
  minY : Int
  height : Int

namespace PistonLevel

def maxYExclusive (level : PistonLevel) : Int :=
  level.minY + level.height

def isOutsideBuildHeight (level : PistonLevel) (y : Int) : Bool :=
  decide (y < level.minY) || decide (y ≥ level.maxYExclusive)

def isPushable (level : PistonLevel) (state : PistonState) (pos : BlockPos) (direction : Direction)
    (allowDestroyable : Bool) (connectionDirection : Direction) : Bool :=
  if level.isOutsideBuildHeight pos.y || !level.isWithinWorldBorder pos then false
  else if state.isAir then true
  else if state.block = .obsidian ∨ state.block = .cryingObsidian ∨
      state.block = .respawnAnchor ∨ state.block = .reinforcedDeepslate then false
  else if (direction = .down ∧ pos.y = level.minY) ∨
      (direction = .up ∧ pos.y = level.maxYExclusive - 1) then false
  else if !state.isPistonBase then
    if state.indestructible then false
    else
      match state.pushReaction with
      | .immoveable => false
      | .popped => allowDestroyable
      | .push => direction = connectionDirection
      | .pushPull | .ignoreEntity => !state.hasBlockEntity
  else if state.extended then false
  else !state.hasBlockEntity

theorem pushReaction_ne_of_isPushable {level : PistonLevel} {state : PistonState} {pos : BlockPos}
    {direction connectionDirection : Direction} (hair : state.isAir = false)
    (h : level.isPushable state pos direction false connectionDirection = true) :
    state.pushReaction ≠ .popped := by
  intro hpopped
  have hbase : state.isPistonBase = false := by
    cases hbase : state.isPistonBase with
    | false => rfl
    | true => exact absurd hpopped (state.pushReaction_of_isPistonBase hbase)
  rw [isPushable] at h
  split_ifs at h <;> simp_all

end PistonLevel

def BlockPos.relativeN (pos : BlockPos) (direction : Direction) (n : Int) : BlockPos :=
  if n = 0 then pos
  else
    { x := wrapI32 (pos.x + direction.offset.1 * n)
      y := wrapI32 (pos.y + direction.offset.2.1 * n)
      z := wrapI32 (pos.z + direction.offset.2.2 * n) }

namespace BlockPos

def lineAt (direction : Direction) (start : BlockPos) (k : Int) : BlockPos where
  x := wrapI32 (start.x + direction.offset.1 * k)
  y := wrapI32 (start.y + direction.offset.2.1 * k)
  z := wrapI32 (start.z + direction.offset.2.2 * k)

variable {direction : Direction} {start : BlockPos}

theorem lineAt_inRange (k : Int) : (lineAt direction start k).InRange :=
  ⟨wrapI32_mem _, wrapI32_mem _, wrapI32_mem _⟩

theorem relative_inRange : (start.relative direction).InRange :=
  ⟨wrapI32_mem _, wrapI32_mem _, wrapI32_mem _⟩

theorem lineAt_zero (h : start.InRange) : lineAt direction start 0 = start := by
  simp only [lineAt, mul_zero, add_zero, wrapI32_eq_self h.1, wrapI32_eq_self h.2.1,
    wrapI32_eq_self h.2.2]

theorem relativeN_eq_lineAt (h : start.InRange) (n : Int) :
    start.relativeN direction n = lineAt direction start n := by
  rw [relativeN]
  split
  · rename_i hzero
    rw [hzero, lineAt_zero h]
  · rfl

theorem relativeN_opposite_eq_lineAt (h : start.InRange) (n : Int) :
    start.relativeN direction.opposite n = lineAt direction start (-n) := by
  rw [relativeN_eq_lineAt h]
  cases direction <;> simp [lineAt, Direction.opposite, Direction.offset]

theorem lineAt_relative (k : Int) :
    (lineAt direction start k).relative direction = lineAt direction start (k + 1) := by
  simp only [relative, lineAt, wrapI32_wrapI32_add, mul_add, mul_one, add_assoc]

theorem lineAt_injective {a b : Int} (h : lineAt direction start a = lineAt direction start b)
    (hsmall : (a - b).natAbs < 4294967296) : a = b := by
  simp only [lineAt, mk.injEq] at h
  have hstep : direction.offset.1 * a = direction.offset.1 * b ∧
      direction.offset.2.1 * a = direction.offset.2.1 * b ∧
      direction.offset.2.2 * a = direction.offset.2.2 * b := by
    refine ⟨wrapI32_add_injective h.1 ?_, wrapI32_add_injective h.2.1 ?_,
      wrapI32_add_injective h.2.2 ?_⟩ <;>
    cases direction <;> simp only [Direction.offset] <;> omega
  cases direction <;> simp only [Direction.offset] at hstep <;> omega

end BlockPos

structure PushLists where
  toPush : List BlockPos
  toDestroy : List BlockPos

structure PistonStructureResolver where
  level : PistonLevel
  pistonPos : BlockPos
  extending : Bool
  startPos : BlockPos
  pushDirection : Direction
  pistonDirection : Direction

namespace PistonStructureResolver

def maxPushDepth : ℕ := 12

def new (level : PistonLevel) (pistonPos : BlockPos) (direction : Direction) (extending : Bool) :
    PistonStructureResolver :=
  { level, pistonPos, extending
    startPos :=
      if extending then pistonPos.relative direction else pistonPos.relativeN direction 2
    pushDirection := if extending then direction else direction.opposite
    pistonDirection := direction }

variable (resolver : PistonStructureResolver)

/-- The loop over sticky blocks behind the start; `none` means that they are too many. -/
def countBehind (start : BlockPos) (pushed blockCount : ℕ) (nextState : PistonState) : Option ℕ :=
  if nextState.isSticky then
    let pos := start.relativeN resolver.pushDirection.opposite blockCount
    let previousState := nextState
    let nextState := resolver.level.getBlockState pos
    if nextState.isAir || !previousState.canStickToEachOther nextState ||
        !resolver.level.isPushable nextState pos resolver.pushDirection false
          resolver.pushDirection.opposite || pos = resolver.pistonPos then some blockCount
    else if blockCount + 1 + pushed > maxPushDepth then none
    else countBehind start pushed (blockCount + 1) nextState
  else some blockCount
termination_by maxPushDepth + 1 - (blockCount + pushed)

inductive LineEnd where
  | returned (result : Bool) (lists : PushLists)
  | collided (lists : PushLists) (blocksAdded collisionPos : ℕ)

def walkAhead (start : BlockPos) (lists : PushLists) (blocksAdded offset : ℕ) : LineEnd :=
  let pos := start.relativeN resolver.pushDirection offset
  match lists.toPush.idxOf? pos with
  | some collisionPos => .collided lists blocksAdded collisionPos
  | none =>
    let nextState := resolver.level.getBlockState pos
    if nextState.isAir then .returned true lists
    else if !resolver.level.isPushable nextState pos resolver.pushDirection true
        resolver.pushDirection || pos = resolver.pistonPos then .returned false lists
    else if nextState.pushReaction = .popped then
      .returned true { lists with toDestroy := lists.toDestroy ++ [pos] }
    else if lists.toPush.length ≥ maxPushDepth then .returned false lists
    else
      walkAhead start { lists with toPush := lists.toPush ++ [pos] } (blocksAdded + 1) (offset + 1)
termination_by maxPushDepth - lists.toPush.length
decreasing_by
  simp only [length_append, length_singleton]
  omega

/-- `none` is a slice out of range. -/
def reorderListAtCollision (toPush : List BlockPos) (blocksAdded collisionPos : ℕ) :
    Option (List BlockPos) :=
  let lastLineStart := toPush.length - blocksAdded
  if blocksAdded ≤ toPush.length ∧ collisionPos ≤ lastLineStart then
    some (toPush.take collisionPos ++ toPush.drop lastLineStart ++
      (toPush.take lastLineStart).drop collisionPos)
  else none

section Branches

/-- What adds a line of blocks; `none` is an index out of range or a recursion too deep. -/
abbrev AddBlockLine := BlockPos → Direction → PushLists → Option (Bool × PushLists)

/-- What follows `if !step { return false }`. -/
def andThen (outcome : Option (Bool × PushLists))
    (next : PushLists → Option (Bool × PushLists)) : Option (Bool × PushLists) :=
  match outcome with
  | none => none
  | some (false, lists) => some (false, lists)
  | some (true, lists) => next lists

/-- The loop over the directions not yet branched into. -/
def branchInto (addBlockLine : AddBlockLine) (fromPos : BlockPos) :
    List Direction → PushLists → Option (Bool × PushLists)
  | [], lists => some (true, lists)
  | direction :: directions, lists =>
    if direction.getAxis = resolver.pushDirection.getAxis then
      branchInto addBlockLine fromPos directions lists
    else
      let neighborPos := fromPos.relative direction
      if (resolver.level.getBlockState neighborPos).canStickToEachOther
          (resolver.level.getBlockState fromPos) then
        andThen (addBlockLine neighborPos direction lists) fun lists =>
          branchInto addBlockLine fromPos directions lists
      else branchInto addBlockLine fromPos directions lists

def addBranchingBlocks (addBlockLine : AddBlockLine) (fromPos : BlockPos) (lists : PushLists) :
    Option (Bool × PushLists) :=
  resolver.branchInto addBlockLine fromPos Direction.all lists

/-- The step of both loops over collected blocks. -/
def branchAt (addBlockLine : AddBlockLine) (index : ℕ) (lists : PushLists) :
    Option (Bool × PushLists) :=
  match lists.toPush[index]? with
  | none => none
  | some pos =>
    if (resolver.level.getBlockState pos).isSticky then
      resolver.addBranchingBlocks addBlockLine pos lists
    else some (true, lists)

/-- The loop `for index in index..` with so many rounds left. -/
def branchFrom (addBlockLine : AddBlockLine) :
    ℕ → ℕ → PushLists → Option (Bool × PushLists)
  | 0, _, lists => some (true, lists)
  | rounds + 1, index, lists =>
    andThen (resolver.branchAt addBlockLine index lists) fun lists =>
      branchFrom addBlockLine rounds (index + 1) lists

/-- The loop `while index < to_push.len()`; `none` also if the rounds do not suffice. -/
def branchWhile (addBlockLine : AddBlockLine) :
    ℕ → ℕ → PushLists → Option (Bool × PushLists)
  | 0, _, _ => none
  | rounds + 1, index, lists =>
    if index < lists.toPush.length then
      andThen (resolver.branchAt addBlockLine index lists) fun lists =>
        branchWhile addBlockLine rounds (index + 1) lists
    else some (true, lists)

/-- A line that collides is put in front of what it met, and the list up to it branches again. -/
def finishLine (addBlockLine : AddBlockLine) : LineEnd → Option (Bool × PushLists)
  | .returned result lists => some (result, lists)
  | .collided lists blocksAdded collisionPos =>
    match reorderListAtCollision lists.toPush blocksAdded collisionPos with
    | none => none
    | some toPush =>
      resolver.branchFrom addBlockLine (collisionPos + blocksAdded + 1) 0 { lists with toPush }

end Branches

def addBlockLine : ℕ → AddBlockLine
  | 0, _, _, _ => none
  | depth + 1, start, direction, lists =>
    let nextState := resolver.level.getBlockState start
    if nextState.isAir then some (true, lists)
    else if !resolver.level.isPushable nextState start resolver.pushDirection false direction ||
        start = resolver.pistonPos || lists.toPush.contains start then some (true, lists)
    else if 1 + lists.toPush.length > maxPushDepth then some (false, lists)
    else
      match resolver.countBehind start lists.toPush.length 1 nextState with
      | none => some (false, lists)
      | some blockCount =>
        let behind := (range blockCount).reverse.map fun offset : ℕ =>
          start.relativeN resolver.pushDirection.opposite offset
        resolver.finishLine (addBlockLine depth)
          (resolver.walkAhead start { lists with toPush := lists.toPush ++ behind } blockCount 1)

def resolve : Option (Bool × PushLists) :=
  let nextState := resolver.level.getBlockState resolver.startPos
  if !resolver.level.isPushable nextState resolver.startPos resolver.pushDirection false
      resolver.pistonDirection then
    if resolver.extending && nextState.pushReaction = .popped then
      some (true, { toPush := [], toDestroy := [resolver.startPos] })
    else some (false, { toPush := [], toDestroy := [] })
  else
    andThen (resolver.addBlockLine (maxPushDepth + 1) resolver.startPos resolver.pushDirection
        { toPush := [], toDestroy := [] }) fun lists =>
      resolver.branchWhile (resolver.addBlockLine (maxPushDepth + 1)) (maxPushDepth + 1) 0 lists

/-- The lists can be moved from the end of `toPush` without overwriting a block that stays. -/
structure Movable (lists : PushLists) : Prop where
  length_le : lists.toPush.length ≤ maxPushDepth
  nodup : lists.toPush.Nodup
  piston_notMem : resolver.pistonPos ∉ lists.toPush
  not_popped : ∀ pos ∈ lists.toPush, (resolver.level.getBlockState pos).pushReaction ≠ .popped
  popped : ∀ pos ∈ lists.toDestroy, (resolver.level.getBlockState pos).pushReaction = .popped
  ahead : ∀ pos ∈ lists.toPush,
    (resolver.level.getBlockState (pos.relative resolver.pushDirection)).isAir = true ∨
      pos.relative resolver.pushDirection ∈ lists.toDestroy ∨
      [pos, pos.relative resolver.pushDirection].Sublist lists.toPush

def Fresh (lists : PushLists) (pos : BlockPos) : Prop :=
  pos ∉ lists.toPush ∧ pos ≠ resolver.pistonPos ∧
    (resolver.level.getBlockState pos).pushReaction ≠ .popped

variable {resolver} {lists : PushLists}

/-- A line that ends in front of a block of the list is moved after that block. -/
theorem Movable.insertLine (h : resolver.Movable lists) {line : List BlockPos}
    (destroyed : List BlockPos) (index : ℕ) (hline : line.Nodup)
    (hfresh : ∀ pos ∈ line, resolver.Fresh lists pos)
    (hlength : lists.toPush.length + line.length ≤ maxPushDepth)
    (hdestroyed : ∀ pos ∈ destroyed, (resolver.level.getBlockState pos).pushReaction = .popped)
    (hahead : ∀ pos ∈ line,
      (resolver.level.getBlockState (pos.relative resolver.pushDirection)).isAir = true ∨
        pos.relative resolver.pushDirection ∈ lists.toDestroy ++ destroyed ∨
        [pos, pos.relative resolver.pushDirection].Sublist (line ++ lists.toPush.drop index)) :
    resolver.Movable
      { toPush := lists.toPush.take index ++ line ++ lists.toPush.drop index
        toDestroy := lists.toDestroy ++ destroyed } := by
  have hperm : (lists.toPush.take index ++ line ++ lists.toPush.drop index).Perm
      (lists.toPush ++ line) := by
    rw [append_assoc]
    refine (perm_append_comm.append_left _).trans ?_
    rw [← append_assoc, take_append_drop]
  have hkept : lists.toPush.Sublist
      (lists.toPush.take index ++ line ++ lists.toPush.drop index) := by
    have := (sublist_append_left (lists.toPush.take index) line).append
      (List.Sublist.refl (lists.toPush.drop index))
    rwa [take_append_drop] at this
  have hinserted : (line ++ lists.toPush.drop index).Sublist
      (lists.toPush.take index ++ line ++ lists.toPush.drop index) := by
    rw [append_assoc]
    exact sublist_append_right _ _
  have hmem : ∀ pos, pos ∈ lists.toPush.take index ++ line ++ lists.toPush.drop index ↔
      pos ∈ lists.toPush ∨ pos ∈ line := fun pos => by rw [hperm.mem_iff, mem_append]
  refine ⟨?_, hperm.nodup_iff.mpr ?_, ?_, ?_, ?_, ?_⟩
  · rw [hperm.length_eq, length_append]
    exact hlength
  · rw [nodup_append]
    refine ⟨h.nodup, hline, ?_⟩
    rintro pos hold _ hnew rfl
    exact (hfresh pos hnew).1 hold
  · rw [hmem]
    rintro (hold | hnew)
    · exact h.piston_notMem hold
    · exact (hfresh _ hnew).2.1 rfl
  · intro pos hpos
    rcases (hmem pos).mp hpos with hold | hnew
    · exact h.not_popped pos hold
    · exact (hfresh pos hnew).2.2
  · intro pos hpos
    rcases mem_append.mp hpos with hold | hnew
    · exact h.popped pos hold
    · exact hdestroyed pos hnew
  · intro pos hpos
    rcases (hmem pos).mp hpos with hold | hnew
    · exact (h.ahead pos hold).imp_right
        (Or.imp (mem_append_left _) (·.trans hkept))
    · exact (hahead pos hnew).imp_right (.imp_right (·.trans hinserted))

section Line

variable (resolver) in
/-- A line in the push direction, the first blocks of it behind the start. -/
def line (start : BlockPos) (behind count : ℕ) : List BlockPos :=
  (range count).map fun i : ℕ => BlockPos.lineAt resolver.pushDirection start (i - behind)

variable {start : BlockPos} {behind count : ℕ}

theorem line_succ : resolver.line start behind (count + 1) = resolver.line start behind count ++
    [BlockPos.lineAt resolver.pushDirection start (count - behind)] := by
  rw [line, range_succ, map_append, map_singleton, line]

theorem length_line : (resolver.line start behind count).length = count := by
  rw [line, length_map, length_range]

theorem lineAt_notMem_line (hcount : count < 4294967296) :
    BlockPos.lineAt resolver.pushDirection start (count - behind) ∉
      resolver.line start behind count := by
  intro hmem
  obtain ⟨i, hi, heq⟩ := mem_map.mp hmem
  rw [mem_range] at hi
  have := BlockPos.lineAt_injective heq (by omega)
  omega

theorem nodup_line (hcount : count < 4294967296) : (resolver.line start behind count).Nodup := by
  induction count with
  | zero => exact nodup_nil
  | succ count ih =>
    rw [line_succ, nodup_append]
    refine ⟨ih (by omega), nodup_singleton _, ?_⟩
    rintro pos hpos _ hlast rfl
    rw [mem_singleton.mp hlast] at hpos
    exact lineAt_notMem_line (by omega) hpos

/-- In front of each block of a line but the last one lies the next. -/
theorem line_ahead {pos : BlockPos} (h : pos ∈ resolver.line start behind (count + 1)) :
    pos.relative resolver.pushDirection =
        BlockPos.lineAt resolver.pushDirection start ((count + 1 : ℕ) - behind) ∨
      [pos, pos.relative resolver.pushDirection].Sublist
        (resolver.line start behind (count + 1)) := by
  have hfront : ∀ k : ℕ, (BlockPos.lineAt resolver.pushDirection start (k - behind)).relative
      resolver.pushDirection =
        BlockPos.lineAt resolver.pushDirection start ((k + 1 : ℕ) - behind) := by
    intro k
    rw [BlockPos.lineAt_relative]
    exact congrArg _ (by omega)
  induction count with
  | zero =>
    rw [mem_singleton.mp h]
    exact .inl (hfront 0)
  | succ count ih =>
    rw [line_succ] at h ⊢
    rcases mem_append.mp h with hbefore | hlast
    · rcases ih hbefore with hnext | hsub
      · right
        rw [hnext]
        exact (singleton_sublist.mpr hbefore).append (List.Sublist.refl _)
      · exact .inr (hsub.trans (sublist_append_left _ _))
    · rw [mem_singleton.mp hlast]
      exact .inl (hfront (count + 1))

end Line

def LineEnd.Sound (resolver : PistonStructureResolver) (lists : PushLists) : LineEnd → Prop
  | .returned result lists' =>
    lists.toPush.length ≤ lists'.toPush.length ∧ (result = true → resolver.Movable lists')
  | .collided lists' blocksAdded collisionPos =>
    lists'.toDestroy = lists.toDestroy ∧ collisionPos < lists.toPush.length ∧
      ∃ line, lists'.toPush = lists.toPush ++ line ∧ line.length = blocksAdded ∧
        0 < line.length ∧ resolver.Movable
          { toPush := lists.toPush.take collisionPos ++ line ++ lists.toPush.drop collisionPos
            toDestroy := lists.toDestroy }

variable {behind count : ℕ} {start : BlockPos}

theorem Movable.appendLine (h : resolver.Movable lists)
    (destroyed : List BlockPos) (hfresh : ∀ pos ∈ resolver.line start behind (count + 1),
      resolver.Fresh lists pos)
    (hlength : lists.toPush.length + (count + 1) ≤ maxPushDepth)
    (hdestroyed : ∀ pos ∈ destroyed, (resolver.level.getBlockState pos).pushReaction = .popped)
    (hend : (resolver.level.getBlockState
        (BlockPos.lineAt resolver.pushDirection start ((count + 1 : ℕ) - behind))).isAir = true ∨
      BlockPos.lineAt resolver.pushDirection start ((count + 1 : ℕ) - behind) ∈ destroyed) :
    resolver.Movable
      { toPush := lists.toPush ++ resolver.line start behind (count + 1)
        toDestroy := lists.toDestroy ++ destroyed } := by
  have hcount : count + 1 < 4294967296 := by
    rw [maxPushDepth] at hlength
    omega
  have hinserted := h.insertLine destroyed lists.toPush.length (nodup_line hcount) hfresh
    (by rwa [length_line]) hdestroyed (by
      intro pos hpos
      rcases line_ahead hpos with hnext | hsub
      · rw [hnext]
        exact hend.imp_right fun hmem => .inl (mem_append_right _ hmem)
      · exact .inr (.inr (hsub.trans (sublist_append_left _ _))))
  rwa [take_length, drop_length, append_nil] at hinserted

/-- Every block the walk adds was free and leaves the lists movable. -/
theorem walkAhead_sound (h : resolver.Movable lists) (hstart : start.InRange)
    (hbehind : behind ≤ count) (hlength : lists.toPush.length + (count + 1) ≤ maxPushDepth)
    (hfresh : ∀ pos ∈ resolver.line start behind (count + 1), resolver.Fresh lists pos) :
    (resolver.walkAhead start
      { lists with toPush := lists.toPush ++ resolver.line start behind (count + 1) } (count + 1)
      (count + 1 - behind)).Sound resolver lists := by
  induction hrest : maxPushDepth - (lists.toPush.length + (count + 1)) using Nat.strongRecOn
    generalizing count with
  | ind rest ih =>
    have hcount : count + 1 < 4294967296 := by
      rw [maxPushDepth] at hlength
      omega
    rw [walkAhead, BlockPos.relativeN_eq_lineAt hstart, Nat.cast_sub (by omega)]
    dsimp only
    generalize hpos : BlockPos.lineAt resolver.pushDirection start ((count + 1 : ℕ) - behind) = pos
    have hnew : pos ∉ resolver.line start behind (count + 1) := hpos ▸ lineAt_notMem_line hcount
    split
    · rename_i collisionPos hcollision
      obtain ⟨hlt, heq, _⟩ := idxOf?_eq_some_iff.mp hcollision
      have hold : collisionPos < lists.toPush.length := by
        refine Nat.lt_of_not_le fun hle => hnew ?_
        rw [← heq, getElem_append_right hle]
        exact getElem_mem _
      rw [getElem_append_left hold] at heq
      have hmem : pos ∈ lists.toPush.drop collisionPos := by
        rw [drop_eq_getElem_cons hold, heq]
        exact mem_cons_self
      refine ⟨rfl, hold, _, rfl, length_line, by rw [length_line]; omega, ?_⟩
      have := h.insertLine [] collisionPos (nodup_line hcount) hfresh
        (by rwa [length_line]) (by simp) fun other hother => .inr (.inr ((line_ahead hother).elim
          (fun hnext => by
            rw [hnext, hpos]
            exact (singleton_sublist.mpr hother).append (singleton_sublist.mpr hmem))
          (·.trans (sublist_append_left _ _))))
      rwa [append_nil] at this
    · rename_i hnone
      have hnotMem : pos ∉ lists.toPush := fun hmem =>
        idxOf?_eq_none_iff.mp hnone (mem_append_left _ hmem)
      split
      · rename_i hair
        refine ⟨by simp, fun _ => ?_⟩
        have := h.appendLine [] hfresh hlength (by simp) (.inl (hpos ▸ hair))
        rwa [append_nil] at this
      · split
        · exact ⟨by simp, fun hfalse => absurd hfalse Bool.false_ne_true⟩
        · rename_i hallowed
          split
          · rename_i hpopped
            refine ⟨by simp, fun _ => h.appendLine [pos] hfresh hlength ?_ ?_⟩
            · simpa using hpopped
            · exact .inr (hpos ▸ mem_singleton_self _)
          · rename_i hpopped
            have hpiston : pos ≠ resolver.pistonPos := by
              intro heq
              simp [heq] at hallowed
            split
            · exact ⟨by simp, fun hfalse => absurd hfalse Bool.false_ne_true⟩
            · rename_i hroom
              rw [append_assoc, ← hpos, ← line_succ,
                show count + 1 - behind + 1 = count + 1 + 1 - behind by omega]
              rw [length_append, length_line] at hroom
              refine ih _ (by omega) (by omega) (by omega) ?_ rfl
              rw [line_succ, hpos]
              refine forall_mem_append.mpr ⟨hfresh, ?_⟩
              rw [forall_mem_singleton]
              exact ⟨hnotMem, hpiston, hpopped⟩

variable (resolver) in
/-- A block that a sticky block ahead of it pulls along. -/
structure Pulled (pos : BlockPos) : Prop where
  isAir : (resolver.level.getBlockState pos).isAir = false
  isPushable : resolver.level.isPushable (resolver.level.getBlockState pos) pos
    resolver.pushDirection false resolver.pushDirection.opposite = true
  ne_pistonPos : pos ≠ resolver.pistonPos

theorem countBehind_spec {pushed blockCount : ℕ} {nextState : PistonState}
    (h : resolver.countBehind start pushed blockCount nextState = some count)
    (hroom : blockCount + pushed ≤ maxPushDepth) :
    blockCount ≤ count ∧ count + pushed ≤ maxPushDepth ∧ ∀ j : ℕ, blockCount ≤ j → j < count →
      resolver.Pulled (start.relativeN resolver.pushDirection.opposite j) := by
  fun_induction resolver.countBehind start pushed blockCount nextState with
  | case1 blockCount _ _ _ _ _ hstop =>
    cases h
    exact ⟨le_rfl, hroom, fun j hle hlt => absurd hlt (by omega)⟩
  | case2 => cases h
  | case3 blockCount _ _ pos _ nextState hgoes hfits ih =>
    obtain ⟨hle, hlength, hall⟩ := ih h (by omega)
    refine ⟨by omega, hlength, ?_⟩
    intro j hj hlt
    obtain rfl | hlater := Nat.eq_or_lt_of_le hj
    · simp only [Bool.or_eq_true, Bool.not_eq_true', not_or, Bool.not_eq_true,
        Bool.not_eq_false, decide_eq_true_eq] at hgoes
      exact ⟨hgoes.1.1.1, hgoes.1.2, hgoes.2⟩
    · exact hall j hlater hlt
  | case4 =>
    cases h
    exact ⟨le_rfl, hroom, fun j hle hlt => absurd hlt (by omega)⟩

/-- A block behind the start that is collected already would have taken the start along. -/
theorem Movable.fresh_behind (h : resolver.Movable lists)
    (hstart : start.InRange) {direction : Direction}
    (hair : (resolver.level.getBlockState start).isAir = false)
    (hpushable : resolver.level.isPushable (resolver.level.getBlockState start) start
      resolver.pushDirection false direction = true)
    (hpiston : start ≠ resolver.pistonPos) (hnew : start ∉ lists.toPush)
    (hbehind : ∀ j : ℕ, 1 ≤ j → j < count →
      resolver.Pulled (start.relativeN resolver.pushDirection.opposite j))
    {j : ℕ} (hj : j < count) :
    (resolver.level.getBlockState
        (BlockPos.lineAt resolver.pushDirection start (-j))).isAir = false ∧
      resolver.Fresh lists (BlockPos.lineAt resolver.pushDirection start (-j)) := by
  induction j with
  | zero =>
    rw [Nat.cast_zero, neg_zero, BlockPos.lineAt_zero hstart]
    exact ⟨hair, hnew, hpiston, PistonLevel.pushReaction_ne_of_isPushable hair hpushable⟩
  | succ j ih =>
    obtain ⟨hairAhead, hnewAhead, _, hpopped⟩ := ih (by omega)
    obtain ⟨hair, hpushable, hpiston⟩ := hbehind (j + 1) (by omega) hj
    rw [BlockPos.relativeN_opposite_eq_lineAt hstart] at hair hpushable hpiston
    refine ⟨hair, ?_, hpiston, PistonLevel.pushReaction_ne_of_isPushable hair hpushable⟩
    intro hmem
    have hahead := h.ahead _ hmem
    rw [BlockPos.lineAt_relative,
      show -((j + 1 : ℕ) : Int) + 1 = -(j : Int) by push_cast; ring] at hahead
    rcases hahead with hair' | hdestroyed | hlater
    · rw [hairAhead] at hair'
      exact Bool.false_ne_true hair'
    · exact hpopped (h.popped _ hdestroyed)
    · exact hnewAhead (hlater.subset (by simp))

theorem reorderListAtCollision_eq {old line : List BlockPos} {collisionPos : ℕ}
    (h : collisionPos < old.length) :
    reorderListAtCollision (old ++ line) line.length collisionPos =
      some (old.take collisionPos ++ line ++ old.drop collisionPos) := by
  rw [reorderListAtCollision, length_append, Nat.add_sub_cancel,
    if_pos ⟨Nat.le_add_left _ _, h.le⟩, take_append_of_le_length h.le, drop_left,
    take_left]

variable (resolver) in
/-- What a step of the resolver returns: never a panic, and movable lists if it succeeds. -/
def Grows (lists : PushLists) (outcome : Option (Bool × PushLists)) : Prop :=
  ∃ result lists', outcome = some (result, lists') ∧
    lists.toPush.length ≤ lists'.toPush.length ∧ (result = true → resolver.Movable lists')

variable (resolver) in
/-- What adding a line does if so many lines can still be nested. -/
def AddsLines (depth : ℕ) (add : AddBlockLine) : Prop :=
  ∀ start direction lists, start.InRange → resolver.Movable lists →
    maxPushDepth < depth + lists.toPush.length → resolver.Grows lists (add start direction lists)

theorem Grows.refl (h : resolver.Movable lists) : resolver.Grows lists (some (true, lists)) :=
  ⟨true, lists, rfl, le_rfl, fun _ => h⟩

theorem Grows.andThen {outcome : Option (Bool × PushLists)}
    {next : PushLists → Option (Bool × PushLists)} (h : resolver.Grows lists outcome)
    (hnext : ∀ lists', lists.toPush.length ≤ lists'.toPush.length → resolver.Movable lists' →
      resolver.Grows lists' (next lists')) :
    resolver.Grows lists (PistonStructureResolver.andThen outcome next) := by
  obtain ⟨result, lists', rfl, hle, hmovable⟩ := h
  cases result with
  | false => exact ⟨false, lists', rfl, hle, hmovable⟩
  | true =>
    obtain ⟨result, lists'', heq, hle', hmovable'⟩ := hnext lists' hle (hmovable rfl)
    exact ⟨result, lists'', heq, hle.trans hle', hmovable'⟩

section Branches

variable {depth : ℕ} {add : AddBlockLine} (hadd : resolver.AddsLines depth add)

include hadd

theorem branchInto_grows {fromPos : BlockPos} (directions : List Direction)
    (h : resolver.Movable lists) (hdepth : maxPushDepth < depth + lists.toPush.length) :
    resolver.Grows lists (resolver.branchInto add fromPos directions lists) := by
  induction directions generalizing lists with
  | nil => exact .refl h
  | cons direction directions ih =>
    rw [branchInto]
    split
    · exact ih h hdepth
    · dsimp only
      split
      · refine Grows.andThen (hadd _ _ _ BlockPos.relative_inRange h hdepth) ?_
        intro lists' hle hmovable
        exact ih hmovable (by omega)
      · exact ih h hdepth

theorem branchAt_grows {index : ℕ} (h : resolver.Movable lists)
    (hdepth : maxPushDepth < depth + lists.toPush.length) (hindex : index < lists.toPush.length) :
    resolver.Grows lists (resolver.branchAt add index lists) := by
  rw [branchAt, getElem?_eq_getElem hindex]
  dsimp only
  split
  · exact branchInto_grows hadd _ h hdepth
  · exact .refl h

theorem branchFrom_grows {rounds index : ℕ} (h : resolver.Movable lists)
    (hdepth : maxPushDepth < depth + lists.toPush.length)
    (hindex : index + rounds ≤ lists.toPush.length) :
    resolver.Grows lists (resolver.branchFrom add rounds index lists) := by
  induction rounds generalizing index lists with
  | zero => exact .refl h
  | succ rounds ih =>
    rw [branchFrom]
    refine Grows.andThen (branchAt_grows hadd h hdepth (by omega)) ?_
    intro lists' hle hmovable
    exact ih hmovable (by omega) (by omega)

theorem branchWhile_grows {rounds index : ℕ} (h : resolver.Movable lists)
    (hdepth : maxPushDepth < depth + lists.toPush.length) (hindex : index ≤ lists.toPush.length)
    (hrounds : maxPushDepth < rounds + index) :
    resolver.Grows lists (resolver.branchWhile add rounds index lists) := by
  induction rounds generalizing index lists with
  | zero =>
    have := h.length_le
    omega
  | succ rounds ih =>
    rw [branchWhile]
    split
    · rename_i hlt
      refine Grows.andThen (branchAt_grows hadd h hdepth hlt) ?_
      intro lists' hle hmovable
      exact ih hmovable (by omega) (by omega) (by omega)
    · exact .refl h

end Branches

theorem behind_eq_line (hstart : start.InRange) (behind : ℕ) :
    ((range (behind + 1)).reverse.map fun offset : ℕ =>
      start.relativeN resolver.pushDirection.opposite offset) =
      resolver.line start behind (behind + 1) := by
  refine ext_getElem (by simp [line]) fun i hi hi' => ?_
  rw [length_line] at hi'
  simp only [line, getElem_map, getElem_reverse, getElem_range, length_range,
    BlockPos.relativeN_opposite_eq_lineAt hstart]
  exact congrArg _ (by omega)

theorem LineEnd.Sound.grows {depth : ℕ} {add : AddBlockLine} {lineEnd : LineEnd}
    (h : lineEnd.Sound resolver lists) (hadd : resolver.AddsLines depth add)
    (hdepth : maxPushDepth < depth + 1 + lists.toPush.length) :
    resolver.Grows lists (resolver.finishLine add lineEnd) := by
  cases lineEnd with
  | returned result lists' => exact ⟨result, lists', rfl, h⟩
  | collided lists' blocksAdded collisionPos =>
    obtain ⟨hdestroy, hcollision, line, hpush, rfl, hpositive, hmovable⟩ := h
    have hlength : (lists.toPush.take collisionPos ++ line ++
        lists.toPush.drop collisionPos).length = lists.toPush.length + line.length := by
      simp only [length_append, length_take, length_drop]
      omega
    rw [finishLine, hpush, reorderListAtCollision_eq hcollision, hdestroy]
    have hdepth' : maxPushDepth < depth + (lists.toPush.take collisionPos ++ line ++
        lists.toPush.drop collisionPos).length := by omega
    have hrounds : 0 + (collisionPos + line.length + 1) ≤ (lists.toPush.take collisionPos ++
        line ++ lists.toPush.drop collisionPos).length := by omega
    obtain ⟨result, lists'', heq, hle, hmovable'⟩ :=
      branchFrom_grows hadd hmovable hdepth' hrounds
    exact ⟨result, lists'', heq, by dsimp only at hle; omega, hmovable'⟩

/-- Each nested line collects at least one block, so that their number bounds the depth. -/
theorem addsLines_addBlockLine (depth : ℕ) :
    resolver.AddsLines depth (resolver.addBlockLine depth) := by
  induction depth with
  | zero =>
    intro start direction lists _ h hdepth
    have := h.length_le
    omega
  | succ depth ih =>
    intro start direction lists hstart h hdepth
    rw [addBlockLine]
    dsimp only
    split
    · exact .refl h
    · rename_i hair
      split
      · exact .refl h
      · rename_i hallowed
        split
        · exact ⟨false, lists, rfl, le_rfl, fun hfalse => absurd hfalse Bool.false_ne_true⟩
        · rename_i hroom
          split
          · exact ⟨false, lists, rfl, le_rfl, fun hfalse => absurd hfalse Bool.false_ne_true⟩
          · rename_i blockCount hcount
            simp only [Bool.or_eq_true, Bool.not_eq_true', not_or, Bool.not_eq_false,
              decide_eq_true_eq, contains_eq_mem] at hallowed
            obtain ⟨hpositive, hlength, hbehind⟩ := countBehind_spec hcount (by omega)
            obtain ⟨behind, rfl⟩ : ∃ behind, blockCount = behind + 1 := ⟨blockCount - 1, by omega⟩
            refine LineEnd.Sound.grows ?_ ih (by omega)
            rw [behind_eq_line hstart]
            have hwalk := walkAhead_sound h hstart (le_refl behind) (by omega) (by
              intro pos hpos
              obtain ⟨i, hi, rfl⟩ := mem_map.mp hpos
              rw [mem_range] at hi
              have hfresh := h.fresh_behind hstart (by simpa using hair) hallowed.1.1 hallowed.1.2
                hallowed.2 hbehind (show behind - i < behind + 1 by omega)
              rw [show (i : Int) - behind = -((behind - i : ℕ) : Int) by omega]
              exact hfresh.2)
            rwa [Nat.add_sub_cancel_left] at hwalk

theorem exists_later_of_sublist {α : Type} {l : List α} {a b : α} (hnodup : l.Nodup)
    (h : [a, b].Sublist l) {i : ℕ} (hi : l[i]? = some a) : ∃ j, i < j ∧ l[j]? = some b := by
  obtain ⟨before, after, rfl, hbefore, hafter⟩ := cons_sublist_iff.mp h
  obtain ⟨k, hk⟩ := getElem?_of_mem (singleton_sublist.mp hafter)
  have hlt : i < before.length := by
    refine Nat.lt_of_not_le fun hle => ?_
    rw [getElem?_append_right hle] at hi
    exact (nodup_append.mp hnodup).2.2 a hbefore a (mem_of_getElem? hi) rfl
  exact ⟨before.length + k, by omega,
    by rw [getElem?_append_right (by omega), Nat.add_sub_cancel_left, hk]⟩

theorem resolve_grows (hstart : resolver.startPos.InRange) :
    resolver.Grows { toPush := [], toDestroy := [] } resolver.resolve := by
  have hempty : ∀ destroyed : List BlockPos,
      (∀ pos ∈ destroyed, (resolver.level.getBlockState pos).pushReaction = .popped) →
      resolver.Movable { toPush := [], toDestroy := destroyed } := fun destroyed hdestroyed =>
    ⟨Nat.zero_le _, nodup_nil, not_mem_nil, by simp, hdestroyed, by simp⟩
  have hadd : resolver.AddsLines (maxPushDepth + 1) (resolver.addBlockLine (maxPushDepth + 1)) :=
    addsLines_addBlockLine _
  rw [resolve]
  split
  · split
    · rename_i hpopped
      refine ⟨_, _, rfl, le_rfl, fun _ => hempty _ ?_⟩
      simpa using (Bool.and_eq_true_iff.mp hpopped).2
    · exact ⟨_, _, rfl, le_rfl, fun hfalse => absurd hfalse Bool.false_ne_true⟩
  · refine Grows.andThen (hadd _ _ _ hstart (hempty _ (by simp)) (by simp)) ?_
    intro lists' _ hmovable
    exact branchWhile_grows hadd hmovable (by omega) (Nat.zero_le _) (by omega)

/-- Resolving never panics, and what it returns can be moved from the end of the list. -/
theorem resolve_spec (level : PistonLevel) (pistonPos : BlockPos) (direction : Direction)
    (extending : Bool) :
    ∃ result lists,
      (PistonStructureResolver.new level pistonPos direction extending).resolve =
        some (result, lists) ∧
      (result = true →
        lists.toPush.length ≤ 12 ∧ lists.toPush.Nodup ∧ pistonPos ∉ lists.toPush ∧
          (∀ pos ∈ lists.toPush, pos ∉ lists.toDestroy) ∧
          ∀ (i : ℕ) (pos front : BlockPos), lists.toPush[i]? = some pos →
            front = pos.relative
              (PistonStructureResolver.new level pistonPos direction extending).pushDirection →
            (level.getBlockState front).isAir = true ∨ front ∈ lists.toDestroy ∨
              ∃ j, i < j ∧ lists.toPush[j]? = some front) := by
  have hstart : (PistonStructureResolver.new level pistonPos direction
      extending).startPos.InRange := by
    cases extending
    · exact BlockPos.lineAt_inRange 2
    · exact BlockPos.relative_inRange
  obtain ⟨result, lists, heq, _, hmovable⟩ := resolve_grows hstart
  refine ⟨result, lists, heq, fun hresult => ?_⟩
  have h := hmovable hresult
  refine ⟨h.length_le, h.nodup, h.piston_notMem, ?_, ?_⟩
  · intro pos hpush hdestroy
    exact h.not_popped pos hpush (h.popped pos hdestroy)
  · rintro i pos _ hi rfl
    rcases h.ahead pos (mem_of_getElem? hi) with hair | hdestroyed | hlater
    · exact .inl hair
    · exact .inr (.inl hdestroyed)
    · exact .inr (.inr (exists_later_of_sublist h.nodup hlater hi))

end PistonStructureResolver

end Steel

import Steel.Utils.Traversal

/-!
# The blocks by Manhattan distance

The iterator goes over the cells of all shells, where a cell is a depth with two coordinates, and
yields the one or two blocks of each cell that are in reach.
-/

namespace Steel

open List

namespace BlockPosWithinManhattan

/-! ### The cells that are left -/

section Cells

variable (origin : BlockPos) (reachX reachY reachZ : ℤ)

structure Cell where
  depth : ℤ
  x : ℤ
  y : ℤ

def rowCells (depth x : ℤ) : List Cell :=
  let maxY := min reachY (depth - x.natAbs)
  (Int.range (-maxY) (maxY + 1)).map fun y => { depth, x, y }

def shellCells (depth : ℤ) : List Cell :=
  let maxX := min reachX depth
  (Int.range (-maxX) (maxX + 1)).flatMap (rowCells reachY depth)

def Cell.blocks (cell : Cell) : List BlockPos :=
  let z := cell.depth - cell.x.natAbs - cell.y.natAbs
  if reachZ < z then []
  else if z ≠ 0 then [origin.offsetCoords cell.x cell.y z, origin.offsetCoords cell.x cell.y (-z)]
  else [origin.offsetCoords cell.x cell.y z]

def cellsLeft (walk : BlockPosWithinManhattan) : List Cell :=
  (Int.range walk.y (walk.maxY + 1)).map
      (fun y => { depth := walk.currentDepth, x := walk.x, y }) ++
    ((Int.range (walk.x + 1) (walk.maxX + 1)).flatMap (rowCells reachY walk.currentDepth) ++
      (Int.range (walk.currentDepth + 1) (reachX + reachY + reachZ + 1)).flatMap
        (shellCells reachX reachY))

def remaining (walk : BlockPosWithinManhattan) : List BlockPos :=
  walk.pendingZMirror.toList ++
    if walk.done then [] else
      (cellsLeft reachX reachY reachZ walk).flatMap (Cell.blocks origin reachZ)

/-- The iterator has these bounds and is within the shell of its depth. -/
structure Walking (walk : BlockPosWithinManhattan) : Prop where
  origin_eq : walk.origin = origin
  reachX_eq : walk.reachX = reachX
  reachY_eq : walk.reachY = reachY
  reachZ_eq : walk.reachZ = reachZ
  maxDepth_eq : walk.maxDepth = reachX + reachY + reachZ
  depth_nonneg : 0 ≤ walk.currentDepth
  maxX_le : walk.maxX ≤ walk.currentDepth
  neg_maxX_le : -walk.maxX ≤ walk.x

end Cells

variable {origin : BlockPos} {reachX reachY reachZ : ℤ} {walk : BlockPosWithinManhattan}

/-! ### One round -/

theorem cellsLeft_eq_cons (h : walk.y ≤ walk.maxY) :
    cellsLeft reachX reachY reachZ walk =
      { depth := walk.currentDepth, x := walk.x, y := walk.y } ::
      cellsLeft reachX reachY reachZ { walk with y := walk.y + 1 } := by
  rw [cellsLeft, intRange_eq_cons (by omega)]
  rfl

/-- A row that has been started has all its cells before it. -/
theorem cellsLeft_startRow (hreachY : walk.reachY = reachY) :
    cellsLeft reachX reachY reachZ walk.startRow =
      rowCells reachY walk.currentDepth walk.x ++
        ((Int.range (walk.x + 1) (walk.maxX + 1)).flatMap (rowCells reachY walk.currentDepth) ++
          (Int.range (walk.currentDepth + 1) (reachX + reachY + reachZ + 1)).flatMap
            (shellCells reachX reachY)) := by
  simp only [cellsLeft, startRow, rowCells, hreachY]

theorem startRow_nonempty (hreachY : 0 ≤ walk.reachY) (hx : walk.x.natAbs ≤ walk.currentDepth) :
    walk.startRow.y ≤ walk.startRow.maxY := by
  dsimp only [startRow]
  omega

/-- A round ends the walk or comes to the next cell with a row to visit. -/
theorem round_cases (hreachX : 0 ≤ reachX) (hreachY : 0 ≤ reachY)
    (h : Walking origin reachX reachY reachZ walk) :
    (cellsLeft reachX reachY reachZ walk = [] ∧ ∃ ended, walk.round = .leave (none, ended)) ∨
      ∃ visited, walk.round = visited.visit ∧ Walking origin reachX reachY reachZ visited ∧
        visited.pendingZMirror = walk.pendingZMirror ∧ visited.done = walk.done ∧
        visited.y ≤ visited.maxY ∧
        cellsLeft reachX reachY reachZ visited = cellsLeft reachX reachY reachZ walk := by
  have hdepth := h.depth_nonneg
  have hmaxX := h.maxX_le
  have hx := h.neg_maxX_le
  rw [round]
  by_cases hrow : walk.maxY < walk.y
  · have hnil : Int.range walk.y (walk.maxY + 1) = [] := intRange_eq_nil (by omega)
    rw [if_pos hrow]
    by_cases hshell : walk.maxX < walk.x + 1
    · have hrows : Int.range (walk.x + 1) (walk.maxX + 1) = [] := intRange_eq_nil (by omega)
      dsimp only
      rw [if_pos hshell, h.maxDepth_eq, h.reachX_eq]
      by_cases hdone : reachX + reachY + reachZ < walk.currentDepth + 1
      · rw [if_pos hdone]
        refine .inl ⟨?_, _, rfl⟩
        rw [cellsLeft, hnil, hrows, intRange_eq_nil (by omega)]
        rfl
      · rw [if_neg hdone]
        refine .inr ⟨_, rfl, ?_, rfl, rfl, startRow_nonempty ?_ ?_, ?_⟩
        · exact ⟨h.origin_eq, rfl, h.reachY_eq, h.reachZ_eq, rfl,
            Int.add_nonneg hdepth (by decide), min_le_right _ _, le_rfl⟩
        · exact h.reachY_eq ▸ hreachY
        · dsimp only
          omega
        · have hfirst : Int.range (-min reachX (walk.currentDepth + 1))
              (min reachX (walk.currentDepth + 1) + 1) = _ := intRange_eq_cons (by omega)
          refine (cellsLeft_startRow (by exact h.reachY_eq)).trans ?_
          conv_rhs => rw [cellsLeft, hnil, hrows, intRange_eq_cons (by omega)]
          simp only [map_nil, flatMap_nil, nil_append, flatMap_cons, shellCells,
            hfirst, append_assoc]
    · dsimp only
      rw [if_neg hshell]
      refine .inr ⟨_, rfl, ?_, rfl, rfl, startRow_nonempty ?_ ?_, ?_⟩
      · exact ⟨h.origin_eq, h.reachX_eq, h.reachY_eq, h.reachZ_eq, h.maxDepth_eq, hdepth, hmaxX,
          hx.trans (Int.le_add_one le_rfl)⟩
      · exact h.reachY_eq ▸ hreachY
      · dsimp only
        omega
      · refine (cellsLeft_startRow (by exact h.reachY_eq)).trans ?_
        conv_rhs => rw [cellsLeft, hnil, intRange_eq_cons (by omega)]
        simp only [map_nil, nil_append, flatMap_cons, append_assoc]
  · rw [if_neg hrow]
    exact .inr ⟨walk, rfl, h, rfl, rfl, by omega, rfl⟩

/-- Visiting a cell yields its blocks, the second one from what is pending. -/
theorem visit_cases (h : Walking origin reachX reachY reachZ walk) (hy : walk.y ≤ walk.maxY)
    (hpending : walk.pendingZMirror = none) (hdone : walk.done = false) :
    (∃ next, walk.visit = .again next ∧ Walking origin reachX reachY reachZ next ∧
      next.pendingZMirror = none ∧ next.done = false ∧
      (cellsLeft reachX reachY reachZ next).length < (cellsLeft reachX reachY reachZ walk).length ∧
      remaining origin reachX reachY reachZ next = remaining origin reachX reachY reachZ walk) ∨
    ∃ pos next, walk.visit = .leave (some pos, next) ∧ Walking origin reachX reachY reachZ next ∧
      remaining origin reachX reachY reachZ walk =
        pos :: remaining origin reachX reachY reachZ next := by
  obtain ⟨rfl, rfl, rfl, rfl, hmaxDepth, hdepth, hmaxX, hx⟩ := h
  have hcells : cellsLeft walk.reachX walk.reachY walk.reachZ walk = _ := cellsLeft_eq_cons hy
  have hremaining : remaining walk.origin walk.reachX walk.reachY walk.reachZ walk =
      Cell.blocks walk.origin walk.reachZ
          { depth := walk.currentDepth, x := walk.x, y := walk.y } ++
        (cellsLeft walk.reachX walk.reachY walk.reachZ { walk with y := walk.y + 1 }).flatMap
          (Cell.blocks walk.origin walk.reachZ) := by
    rw [remaining, hpending, hdone, hcells]
    rfl
  rw [visit, hremaining]
  dsimp only [Cell.blocks]
  split_ifs with hreach hz
  · refine .inl ⟨_, rfl, ⟨rfl, rfl, rfl, rfl, hmaxDepth, hdepth, hmaxX, hx⟩,
      hpending, hdone, ?_, ?_⟩
    · rw [hcells]
      exact Nat.lt_succ_self _
    · rw [remaining, hpending, hdone]
      rfl
  · refine .inr ⟨_, _, rfl, ⟨rfl, rfl, rfl, rfl, hmaxDepth, hdepth, hmaxX, hx⟩, ?_⟩
    rw [remaining, hdone]
    rfl
  · refine .inr ⟨_, _, rfl, ⟨rfl, rfl, rfl, rfl, hmaxDepth, hdepth, hmaxX, hx⟩, ?_⟩
    rw [remaining, hpending, hdone]
    rfl

/-! ### The whole iterator -/

/-- The loop of `next` has yielded nothing of what remains. -/
structure Yielding (origin : BlockPos) (reachX reachY reachZ : ℤ) (blocks : List BlockPos)
    (walk : BlockPosWithinManhattan) : Prop where
  walking : Walking origin reachX reachY reachZ walk
  pending : walk.pendingZMirror = none
  done : walk.done = false
  remaining : remaining origin reachX reachY reachZ walk = blocks

def Yielded (origin : BlockPos) (reachX reachY reachZ : ℤ) (blocks : List BlockPos)
    (result : Option BlockPos × BlockPosWithinManhattan) : Prop :=
  (blocks = [] ∧ result.1 = none) ∨
    ∃ pos, result.1 = some pos ∧ Walking origin reachX reachY reachZ result.2 ∧
      blocks = pos :: remaining origin reachX reachY reachZ result.2

variable (hreachX : 0 ≤ reachX) (hreachY : 0 ≤ reachY)

include hreachX hreachY

variable {blocks : List BlockPos} {depth : ℤ} {cell : Cell} {pos : BlockPos}

theorem Yielding.round (h : Yielding origin reachX reachY reachZ blocks walk) :
    (∃ next, (some ∘ BlockPosWithinManhattan.round) walk = some (.again next) ∧
      Yielding origin reachX reachY reachZ blocks next ∧
      (cellsLeft reachX reachY reachZ next).length < (cellsLeft reachX reachY reachZ walk).length) ∨
    ∃ result, (some ∘ BlockPosWithinManhattan.round) walk = some (.leave result) ∧
      Yielded origin reachX reachY reachZ blocks result := by
  obtain ⟨hempty, ended, hround⟩ | ⟨visited, hround, hwalking, hpending, hdone, hy, hcells⟩ :=
    round_cases hreachX hreachY h.walking
  · refine .inr ⟨(none, ended), congrArg some hround, .inl ⟨?_, rfl⟩⟩
    rw [← h.remaining, BlockPosWithinManhattan.remaining, h.pending, h.done, hempty]
    rfl
  · rw [h.pending] at hpending
    rw [h.done] at hdone
    have hremaining : BlockPosWithinManhattan.remaining origin reachX reachY reachZ visited =
        blocks := by
      rw [← h.remaining, BlockPosWithinManhattan.remaining, BlockPosWithinManhattan.remaining,
        hpending, hdone, h.pending, h.done, hcells]
    obtain ⟨next, hvisit, hwalking', hpending', hdone', hless, hnext⟩ |
      ⟨pos, next, hvisit, hwalking', hnext⟩ := visit_cases hwalking hy hpending hdone
    · refine .inl ⟨next, congrArg some (hround.trans hvisit),
        ⟨hwalking', hpending', hdone', hnext.trans hremaining⟩, ?_⟩
      rw [← hcells]
      exact hless
    · exact .inr ⟨(some pos, next), congrArg some (hround.trans hvisit),
        .inr ⟨pos, rfl, hwalking', hremaining.symm.trans hnext⟩⟩

/-- With enough rounds `next` yields the first of what remains. -/
theorem next_eq (h : Walking origin reachX reachY reachZ walk) :
    ∃ enough,
      (remaining origin reachX reachY reachZ walk = [] ∧
        ∃ ended, ∀ fuel ≥ enough, walk.next fuel = some (none, ended)) ∨
      ∃ pos next, (∀ fuel ≥ enough, walk.next fuel = some (some pos, next)) ∧
        Walking origin reachX reachY reachZ next ∧
        remaining origin reachX reachY reachZ walk =
          pos :: remaining origin reachX reachY reachZ next := by
  cases hpending : walk.pendingZMirror with
  | some pos =>
    refine ⟨0, .inr ⟨pos, { walk with pendingZMirror := none }, fun fuel _ => ?_, ?_, ?_⟩⟩
    · rw [next, hpending]
    · exact ⟨h.origin_eq, h.reachX_eq, h.reachY_eq, h.reachZ_eq, h.maxDepth_eq, h.depth_nonneg,
        h.maxX_le, h.neg_maxX_le⟩
    · rw [remaining, hpending]
      rfl
  | none =>
    cases hdone : walk.done with
    | true =>
      refine ⟨0, .inl ⟨?_, walk, fun fuel _ => ?_⟩⟩
      · rw [remaining, hpending, hdone]
        rfl
      · rw [next, hpending, hdone]
        rfl
    | false =>
      obtain ⟨enough, ⟨item, next⟩, hloop, hresult⟩ := loop_leaves
        (Yielding origin reachX reachY reachZ (remaining origin reachX reachY reachZ walk))
        (Yielded origin reachX reachY reachZ (remaining origin reachX reachY reachZ walk))
        (· < ·) wellFounded_lt (fun state => (cellsLeft reachX reachY reachZ state).length)
        (fun state hstate => hstate.round hreachX hreachY) walk ⟨h, hpending, hdone, rfl⟩
      have hnext : ∀ fuel ≥ enough, walk.next fuel = some (item, next) := by
        intro fuel hfuel
        rw [BlockPosWithinManhattan.next, hpending, hdone]
        exact loop_mono hloop hfuel
      obtain ⟨hempty, rfl⟩ | ⟨pos, rfl, hwalking, hremaining⟩ := hresult
      · exact ⟨enough, .inl ⟨hempty, next, hnext⟩⟩
      · exact ⟨enough, .inr ⟨pos, next, hnext, hwalking, hremaining⟩⟩

theorem collect_find_eq (predicate : BlockPos → Bool) (h : Walking origin reachX reachY reachZ walk)
    (hblocks : remaining origin reachX reachY reachZ walk = blocks) :
    ∃ enough, ∀ fuel ≥ enough, walk.collect fuel = some blocks ∧
      walk.find predicate fuel = some (blocks.find? predicate) := by
  induction blocks generalizing walk with
  | nil =>
    obtain ⟨enough, ⟨-, ended, hnext⟩ | ⟨pos, next, -, -, hcons⟩⟩ := next_eq hreachX hreachY h
    · refine ⟨enough + 1, fun fuel hfuel => ?_⟩
      obtain ⟨fuel, rfl⟩ : ∃ less, fuel = less + 1 := ⟨fuel - 1, by omega⟩
      have hround := hnext (fuel + 1) (by omega)
      simp [collect, find, hround]
    · rw [hblocks] at hcons
      cases hcons
  | cons first rest ih =>
    obtain ⟨enough, ⟨hnil, -⟩ | ⟨pos, next, hnext, hwalking, hcons⟩⟩ := next_eq hreachX hreachY h
    · rw [hblocks] at hnil
      cases hnil
    · rw [hblocks, cons.injEq] at hcons
      obtain ⟨rfl, hrest⟩ := hcons
      obtain ⟨enough', hmore⟩ := ih hwalking hrest.symm
      refine ⟨max enough enough' + 1, fun fuel hfuel => ?_⟩
      obtain ⟨fuel, rfl⟩ : ∃ less, fuel = less + 1 := ⟨fuel - 1, by omega⟩
      obtain ⟨hcollect, hfind⟩ := hmore fuel (by omega)
      have hround := hnext (fuel + 1) (by omega)
      simp only [collect, find, hround, hcollect, hfind, Option.map_some, true_and, find?_cons]
      cases predicate first <;> rfl

omit hreachX hreachY

/-! ### Which blocks these are -/

theorem mem_rowCells {x : ℤ} : cell ∈ rowCells reachY depth x ↔ cell.depth = depth ∧ cell.x = x ∧
      cell.y.natAbs ≤ min reachY (depth - x.natAbs) := by
  simp only [rowCells, mem_map, Int.mem_range_iff]
  constructor
  · rintro ⟨y, hy, rfl⟩
    refine ⟨rfl, rfl, ?_⟩
    dsimp only
    omega
  · rintro ⟨rfl, rfl, hy⟩
    exact ⟨cell.y, by omega, rfl⟩

theorem mem_shellCells : cell ∈ shellCells reachX reachY depth ↔ cell.depth = depth ∧
      cell.x.natAbs ≤ min reachX depth ∧ cell.y.natAbs ≤ min reachY (depth - cell.x.natAbs) := by
  simp only [shellCells, mem_flatMap, mem_rowCells, Int.mem_range_iff]
  constructor
  · rintro ⟨x, hx, rfl, rfl, hy⟩
    exact ⟨rfl, by omega, hy⟩
  · rintro ⟨rfl, hx, hy⟩
    exact ⟨cell.x, by omega, rfl, rfl, hy⟩

def allCells (reachX reachY reachZ : ℤ) : List Cell :=
  (Int.range 0 (reachX + reachY + reachZ + 1)).flatMap (shellCells reachX reachY)

theorem mem_allCells : cell ∈ allCells reachX reachY reachZ ↔
    (0 ≤ cell.depth ∧ cell.depth ≤ reachX + reachY + reachZ) ∧
      cell.x.natAbs ≤ min reachX cell.depth ∧
      cell.y.natAbs ≤ min reachY (cell.depth - cell.x.natAbs) := by
  simp only [allCells, mem_flatMap, mem_shellCells, Int.mem_range_iff]
  constructor
  · rintro ⟨depth, hdepth, rfl, hx, hy⟩
    exact ⟨by omega, hx, hy⟩
  · rintro ⟨hdepth, hx, hy⟩
    exact ⟨cell.depth, by omega, rfl, hx, hy⟩

def distance (p q : BlockPos) : ℤ := (p.x - q.x).natAbs + (p.y - q.y).natAbs + (p.z - q.z).natAbs

def cellOf (origin pos : BlockPos) : Cell :=
  { depth := distance pos origin, x := pos.x - origin.x, y := pos.y - origin.y }

theorem mem_blocks (hcell : cell.x.natAbs + cell.y.natAbs ≤ cell.depth) :
    pos ∈ cell.blocks origin reachZ ↔
      cellOf origin pos = cell ∧ (pos.z - origin.z).natAbs ≤ reachZ := by
  obtain ⟨depth, x, y⟩ := cell
  obtain ⟨posX, posY, posZ⟩ := pos
  simp only [Cell.blocks, cellOf, distance, Cell.mk.injEq] at hcell ⊢
  split_ifs with hreach hz
  · simp only [not_mem_nil, false_iff]
    omega
  · simp only [mem_cons, not_mem_nil, or_false, BlockPos.offsetCoords, BlockPos.mk.injEq]
    omega
  · simp only [mem_cons, not_mem_nil, or_false, BlockPos.offsetCoords, BlockPos.mk.injEq]
    omega

theorem nodup_blocks (cell : Cell) : (cell.blocks origin reachZ).Nodup := by
  simp only [Cell.blocks]
  split_ifs with hreach hz
  · exact nodup_nil
  · rw [nodup_cons, mem_singleton]
    refine ⟨fun heq => hz ?_, nodup_singleton _⟩
    have hmirror := congrArg BlockPos.z heq
    dsimp only [BlockPos.offsetCoords] at hmirror
    omega
  · exact nodup_singleton _

theorem pairwise_allCells (reachX reachY reachZ : ℤ) :
    (allCells reachX reachY reachZ).Pairwise fun p q => p ≠ q ∧ p.depth ≤ q.depth := by
  rw [allCells, pairwise_flatMap]
  refine ⟨fun depth _ => ?_, ?_⟩
  · rw [shellCells, pairwise_flatMap]
    refine ⟨fun x _ => ?_, ?_⟩
    · rw [rowCells, pairwise_map]
      refine (pairwise_intRange _ _).imp fun {y y'} hless => ⟨fun heq => ?_, le_rfl⟩
      exact hless.ne (congrArg Cell.y heq)
    · refine (pairwise_intRange _ _).imp fun {x x'} hless p hp q hq => ?_
      rw [mem_rowCells] at hp hq
      refine ⟨fun heq => hless.ne ?_, le_of_eq (hp.1.trans hq.1.symm)⟩
      rw [← hp.2.1, ← hq.2.1, heq]
  · refine (pairwise_intRange _ _).imp fun {depth depth'} hless p hp q hq => ?_
    rw [mem_shellCells] at hp hq
    refine ⟨fun heq => hless.ne ?_, ?_⟩
    · rw [← hp.1, ← hq.1, heq]
    · rw [hp.1, hq.1]
      exact hless.le

def allBlocks (origin : BlockPos) (reachX reachY reachZ : ℤ) : List BlockPos :=
  (allCells reachX reachY reachZ).flatMap (Cell.blocks origin reachZ)

def WithinReach (origin : BlockPos) (reachX reachY reachZ : ℤ) (pos : BlockPos) : Prop :=
  (pos.x - origin.x).natAbs ≤ reachX ∧ (pos.y - origin.y).natAbs ≤ reachY ∧
    (pos.z - origin.z).natAbs ≤ reachZ

theorem mem_blocks_of_mem_allCells (hcell : cell ∈ allCells reachX reachY reachZ) :
    pos ∈ cell.blocks origin reachZ ↔
      cellOf origin pos = cell ∧ (pos.z - origin.z).natAbs ≤ reachZ := by
  rw [mem_allCells] at hcell
  exact mem_blocks (by omega)

theorem mem_allBlocks : pos ∈ allBlocks origin reachX reachY reachZ ↔
    WithinReach origin reachX reachY reachZ pos := by
  rw [allBlocks, mem_flatMap]
  constructor
  · rintro ⟨cell, hcell, hpos⟩
    obtain ⟨rfl, hz⟩ := (mem_blocks_of_mem_allCells hcell).mp hpos
    rw [mem_allCells] at hcell
    dsimp only [cellOf] at hcell
    exact ⟨by omega, by omega, hz⟩
  · rintro ⟨hx, hy, hz⟩
    have hcell : cellOf origin pos ∈ allCells reachX reachY reachZ := by
      rw [mem_allCells]
      dsimp only [cellOf, distance]
      omega
    exact ⟨_, hcell, (mem_blocks_of_mem_allCells hcell).mpr ⟨rfl, hz⟩⟩

theorem pairwise_allBlocks (origin : BlockPos) (reachX reachY reachZ : ℤ) :
    (allBlocks origin reachX reachY reachZ).Pairwise fun p q =>
      p ≠ q ∧ distance p origin ≤ distance q origin := by
  rw [allBlocks, pairwise_flatMap]
  constructor
  · intro cell hcell
    refine (nodup_blocks cell).imp_of_mem fun {p q} hp hq hne => ⟨hne, ?_⟩
    obtain ⟨hp, -⟩ := (mem_blocks_of_mem_allCells hcell).mp hp
    obtain ⟨hq, -⟩ := (mem_blocks_of_mem_allCells hcell).mp hq
    exact (congrArg Cell.depth (hp.trans hq.symm)).le
  · refine (pairwise_allCells reachX reachY reachZ).imp_of_mem
      fun {cell cell'} hcell hcell' hpair p hp q hq => ?_
    obtain ⟨rfl, -⟩ := (mem_blocks_of_mem_allCells hcell).mp hp
    obtain ⟨rfl, -⟩ := (mem_blocks_of_mem_allCells hcell').mp hq
    exact ⟨fun heq => hpair.1 (congrArg (cellOf origin) heq), hpair.2⟩

theorem walking_withinManhattan (origin : BlockPos) (reachX reachY reachZ : ℤ) :
    Walking origin reachX reachY reachZ (origin.withinManhattan reachX reachY reachZ) :=
  ⟨rfl, rfl, rfl, rfl, rfl, le_rfl, le_rfl, le_rfl⟩

theorem remaining_withinManhattan (hreachX : 0 ≤ reachX) (hreachY : 0 ≤ reachY)
    (hreachZ : 0 ≤ reachZ) :
    remaining origin reachX reachY reachZ (origin.withinManhattan reachX reachY reachZ) =
      allBlocks origin reachX reachY reachZ := by
  have hfirst : Int.range 0 (reachX + reachY + reachZ + 1) =
      0 :: Int.range (0 + 1) (reachX + reachY + reachZ + 1) := intRange_eq_cons (by omega)
  have hrow : rowCells reachY 0 0 = [{ depth := 0, x := 0, y := 0 }] := by
    have hmaxY : min reachY (0 - ((0 : ℤ).natAbs : ℤ)) = 0 := min_eq_right hreachY
    simp only [rowCells, hmaxY]
    rfl
  have hshell : shellCells reachX reachY 0 = [{ depth := 0, x := 0, y := 0 }] := by
    simp only [shellCells, min_eq_right hreachX]
    exact (flatMap_singleton _ _).trans hrow
  have hcells : cellsLeft reachX reachY reachZ (origin.withinManhattan reachX reachY reachZ) =
      allCells reachX reachY reachZ := by
    rw [allCells, hfirst, flatMap_cons, hshell]
    rfl
  rw [remaining, hcells]
  rfl

theorem distance_le_of_find? {predicate : BlockPos → Bool} {found : BlockPos}
    (hblocks : blocks.Pairwise fun p q => distance p origin ≤ distance q origin)
    (hfound : blocks.find? predicate = some found) (hpos : pos ∈ blocks)
    (htrue : predicate pos = true) : distance found origin ≤ distance pos origin := by
  obtain ⟨-, before, after, rfl, hbefore⟩ := find?_eq_some_iff_append.mp hfound
  rw [pairwise_append, pairwise_cons] at hblocks
  obtain hpos | hpos := mem_append.mp hpos
  · have hfalse := hbefore pos hpos
    rw [htrue] at hfalse
    cases hfalse
  · obtain rfl | hpos := mem_cons.mp hpos
    · exact le_rfl
    · exact hblocks.2.1.1 pos hpos

/-- The walk by Manhattan distance yields every block in reach once, and none before one that is
closer. So the first match is a closest one. -/
theorem withinManhattan_closest (origin : BlockPos) (hreachX : 0 ≤ reachX) (hreachY : 0 ≤ reachY)
    (hreachZ : 0 ≤ reachZ) :
    (∃ fuel blocks, (origin.withinManhattan reachX reachY reachZ).collect fuel = some blocks ∧
      blocks.Nodup ∧ (∀ pos, pos ∈ blocks ↔ WithinReach origin reachX reachY reachZ pos) ∧
      blocks.Pairwise fun p q => distance p origin ≤ distance q origin) ∧
    ∀ predicate, ∃ fuel result, origin.findClosestMatch reachX reachY predicate fuel = some result ∧
      (result = none ↔ ∀ pos, WithinReach origin reachX reachY reachX pos → predicate pos = false) ∧
      ∀ found, result = some found → WithinReach origin reachX reachY reachX found ∧
        predicate found = true ∧
        ∀ pos, WithinReach origin reachX reachY reachX pos → predicate pos = true →
          distance found origin ≤ distance pos origin := by
  constructor
  · obtain ⟨fuel, hfuel⟩ := collect_find_eq hreachX hreachY (fun _ => true)
      (walking_withinManhattan origin reachX reachY reachZ)
      (remaining_withinManhattan hreachX hreachY hreachZ)
    have hpairwise := pairwise_allBlocks origin reachX reachY reachZ
    exact ⟨fuel, _, (hfuel fuel le_rfl).1, hpairwise.imp And.left, fun pos => mem_allBlocks,
      hpairwise.imp And.right⟩
  · intro predicate
    obtain ⟨fuel, hfuel⟩ := collect_find_eq hreachX hreachY predicate
      (walking_withinManhattan origin reachX reachY reachX)
      (remaining_withinManhattan hreachX hreachY hreachX)
    refine ⟨fuel, _, (hfuel fuel le_rfl).2, ?_, fun found hfound => ?_⟩
    · rw [find?_eq_none]
      constructor
      · intro hnone pos hpos
        exact Bool.eq_false_of_not_eq_true (hnone pos (mem_allBlocks.mpr hpos))
      · intro hnone pos hpos htrue
        rw [hnone pos (mem_allBlocks.mp hpos)] at htrue
        cases htrue
    · refine ⟨mem_allBlocks.mp (mem_of_find?_eq_some hfound), find?_some hfound,
        fun pos hpos htrue => ?_⟩
      exact distance_le_of_find? ((pairwise_allBlocks origin reachX reachY reachX).imp And.right)
        hfound (mem_allBlocks.mpr hpos) htrue

theorem withinManhattan_closest_corner :
    ∃ fuel blocks, (BlockPos.withinManhattan ⟨0, 0, 0⟩ 1 2 3).collect fuel = some blocks ∧
      ⟨1, -2, -3⟩ ∈ blocks := by
  have hone : (0 : ℤ) ≤ 1 := by decide
  have htwo : (0 : ℤ) ≤ 2 := by decide
  have hthree : (0 : ℤ) ≤ 3 := by decide
  obtain ⟨⟨fuel, blocks, hcollect, -, hmem, -⟩, -⟩ :=
    withinManhattan_closest ⟨0, 0, 0⟩ hone htwo hthree
  exact ⟨fuel, blocks, hcollect, (hmem _).mpr ⟨by decide, by decide, by decide⟩⟩

end BlockPosWithinManhattan

end Steel

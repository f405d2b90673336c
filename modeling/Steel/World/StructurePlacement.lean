import Steel.Utils.LegacyRandom

/-!
# Where structures are placed

The chunks are divided into cells, and a generator that is seeded for a cell picks one chunk of it,
away from the far edges.
-/

namespace Steel

open Function

/-! ### Placements -/

inductive SpreadType where
  | linear
  | triangular
deriving DecidableEq, Repr

def SpreadType.evaluate (spreadType : SpreadType) (rounds : ℕ) (random : LegacyRandom)
    (limit : Int) : Option (Int × LegacyRandom) :=
  match spreadType with
  | .linear => random.nextI32Bounded rounds limit
  | .triangular => do
    let (first, random) ← random.nextI32Bounded rounds limit
    let (second, random) ← random.nextI32Bounded rounds limit
    some ((wrapI32 (first + second)).tdiv 2, random)

inductive PlacementKind where
  | randomSpread (spacing separation : Int) (spreadType : SpreadType)
  | concentricRings

/-- The frequency is the value of the source's float. -/
structure StructurePlacement where
  salt : Int
  frequency : ℚ
  kind : PlacementKind

namespace StructurePlacement

def getPotentialStructureChunk (rounds : ℕ) (seed : Int64) (salt sourceX sourceZ spacing
    separation : Int) (spreadType : SpreadType) : Option ChunkPos := do
  let gridX := sourceX / spacing
  let gridZ := sourceZ / spacing
  let random := LegacyRandom.setLargeFeatureWithSalt seed gridX gridZ salt
  let limit := spacing - separation
  let (spreadX, random) ← spreadType.evaluate rounds random limit
  let (spreadZ, _) ← spreadType.evaluate rounds random limit
  some ⟨gridX * spacing + spreadX, gridZ * spacing + spreadZ⟩

def isPlacementChunk (placement : StructurePlacement) (rounds : ℕ) (seed : Int64)
    (sourceX sourceZ : Int) (ringPositions : Option (List ChunkPos)) : Option Bool :=
  match placement.kind with
  | .randomSpread spacing separation spreadType => do
    let potential ← getPotentialStructureChunk rounds seed placement.salt sourceX sourceZ spacing
      separation spreadType
    some (potential.x = sourceX && potential.y = sourceZ)
  | .concentricRings =>
    some (ringPositions.any fun positions => positions.contains ⟨sourceX, sourceZ⟩)

/-- `shouldGenerate` is the frequency reduction. -/
def isStructureChunk (placement : StructurePlacement) (shouldGenerate : Int → Int → Bool)
    (rounds : ℕ) (seed : Int64) (sourceX sourceZ : Int)
    (ringPositions : Option (List ChunkPos)) : Option Bool := do
  if !(← placement.isPlacementChunk rounds seed sourceX sourceZ ringPositions) then some false
  else if placement.frequency < 1 && !shouldGenerate sourceX sourceZ then some false
  else some true

end StructurePlacement

/-- The sum of two draws does not wrap if the limit of a triangular spread is at most `2^30`. -/
theorem SpreadType.evaluate_some {spreadType : SpreadType} {limit : Int} (hlimit : 0 < limit)
    (hsmall : limit < 2147483648) (hspread : spreadType = .triangular → limit ≤ 1073741824)
    {rounds : ℕ} (hrounds : LegacyRandom.enoughRounds ≤ rounds) (random : LegacyRandom) :
    ∃ offset after, spreadType.evaluate rounds random limit = some (offset, after) ∧ 0 ≤ offset ∧
      offset < limit := by
  cases spreadType with
  | linear => exact LegacyRandom.nextI32Bounded_some hlimit hsmall hrounds random
  | triangular =>
    obtain ⟨first, middle, hfirst, hfirstLow, hfirstHigh⟩ :=
      LegacyRandom.nextI32Bounded_some hlimit hsmall hrounds random
    obtain ⟨second, after, hsecond, hsecondLow, hsecondHigh⟩ :=
      LegacyRandom.nextI32Bounded_some hlimit hsmall hrounds middle
    have hsum : wrapI32 (first + second) = first + second := by
      have hhalf := hspread rfl
      exact wrapI32_eq_self (by omega)
    refine ⟨(first + second).tdiv 2, after, ?_, ?_⟩
    · simp [evaluate, hfirst, hsecond, hsum]
    · rw [Int.tdiv_eq_ediv_of_nonneg (by omega)]
      omega

/-! ### Cells -/

namespace StructurePlacement

variable {spacing separation : Int}

variable {spreadType : SpreadType} {rounds : ℕ}

/-- The chunk of a cell depends on the cell only, and keeps the separation from its far edges. -/
theorem exists_potentialChunk (hseparation : 0 ≤ separation) (hspacing : separation < spacing)
    (hsmall : spacing < 2147483648)
    (hspread : spreadType = .triangular → spacing - separation ≤ 1073741824)
    (hrounds : LegacyRandom.enoughRounds ≤ rounds) (seed : Int64) (salt gridX gridZ : Int) :
    ∃ spreadX spreadZ, (0 ≤ spreadX ∧ spreadX < spacing - separation) ∧
      (0 ≤ spreadZ ∧ spreadZ < spacing - separation) ∧
      ∀ sourceX sourceZ, sourceX / spacing = gridX → sourceZ / spacing = gridZ →
        getPotentialStructureChunk rounds seed salt sourceX sourceZ spacing separation spreadType =
          some ⟨gridX * spacing + spreadX, gridZ * spacing + spreadZ⟩ := by
  obtain ⟨spreadX, middle, hx, hxrange⟩ := SpreadType.evaluate_some
    (by omega : 0 < spacing - separation) (by omega) hspread hrounds
    (LegacyRandom.setLargeFeatureWithSalt seed gridX gridZ salt)
  obtain ⟨spreadZ, after, hz, hzrange⟩ := SpreadType.evaluate_some
    (by omega : 0 < spacing - separation) (by omega) hspread hrounds middle
  refine ⟨spreadX, spreadZ, hxrange, hzrange, ?_⟩
  rintro sourceX sourceZ rfl rfl
  simp [getPotentialStructureChunk, hx, hz]

theorem isStructureChunk_eq {placement : StructurePlacement}
    (hkind : placement.kind = .randomSpread spacing separation spreadType)
    (hfrequency : placement.frequency = 1) (shouldGenerate : Int → Int → Bool)
    {seed : Int64} {x z : Int} {ringPositions : Option (List ChunkPos)} {potential : ChunkPos}
    (hpotential : getPotentialStructureChunk rounds seed placement.salt x z spacing separation
      spreadType = some potential) :
    placement.isStructureChunk shouldGenerate rounds seed x z ringPositions =
      some (potential.x = x && potential.y = z) := by
  simp only [isStructureChunk, isPlacementChunk, hkind, hpotential, hfrequency, lt_irrefl,
    decide_false, Bool.false_and, Option.bind_eq_bind, Option.bind_some]
  cases hat : (decide (potential.x = x) && decide (potential.y = z)) with
  | true | false => rfl

/-- Offsets that keep away from the far edge keep chunks of different cells apart. -/
theorem apart_of_cells_ne (hseparation : 0 ≤ separation) (hpos : 0 < spacing)
    {first second firstSpread secondSpread : Int}
    (hfirst : first = first / spacing * spacing + firstSpread)
    (hsecond : second = second / spacing * spacing + secondSpread)
    (hfirstRange : 0 ≤ firstSpread ∧ firstSpread < spacing - separation)
    (hsecondRange : 0 ≤ secondSpread ∧ secondSpread < spacing - separation)
    (hne : first / spacing ≠ second / spacing) : separation < |first - second| := by
  obtain hlt | hgt := lt_or_gt_of_ne hne
  · have hstep : first / spacing * spacing + spacing ≤ second / spacing * spacing := by
      rw [← add_one_mul]
      exact Int.mul_le_mul_of_nonneg_right hlt hpos.le
    rw [abs_of_neg (by omega)]
    omega
  · have hstep : second / spacing * spacing + spacing ≤ first / spacing * spacing := by
      rw [← add_one_mul]
      exact Int.mul_le_mul_of_nonneg_right hgt hpos.le
    rw [abs_of_pos (by omega)]
    omega

/-- A cell has one structure chunk, and along every axis on which two cells differ their chunks are
more than the separation apart. -/
theorem existsUnique_structureChunk {placement : StructurePlacement} {spreadType : SpreadType}
    (hkind : placement.kind = .randomSpread spacing separation spreadType)
    (hfrequency : placement.frequency = 1) (hseparation : 0 ≤ separation)
    (hspacing : separation < spacing) (hsmall : spacing < 2147483648)
    (hspread : spreadType = .triangular → spacing - separation ≤ 1073741824)
    (shouldGenerate : Int → Int → Bool) {rounds : ℕ}
    (hrounds : LegacyRandom.enoughRounds ≤ rounds) (seed : Int64)
    (ringPositions : Option (List ChunkPos)) :
    (∀ gridX gridZ, ∃! pos : ChunkPos, (pos.x / spacing = gridX ∧ pos.y / spacing = gridZ) ∧
      placement.isStructureChunk shouldGenerate rounds seed pos.x pos.y ringPositions =
        some true) ∧
    ∀ first second : ChunkPos,
      placement.isStructureChunk shouldGenerate rounds seed first.x first.y ringPositions =
        some true →
      placement.isStructureChunk shouldGenerate rounds seed second.x second.y ringPositions =
        some true →
      (first.x / spacing ≠ second.x / spacing → separation < |first.x - second.x|) ∧
        (first.y / spacing ≠ second.y / spacing → separation < |first.y - second.y|) := by
  have hpos : 0 < spacing := by omega
  have hchunk := exists_potentialChunk hseparation hspacing hsmall hspread hrounds seed
    placement.salt
  -- A structure chunk is the chunk of its cell.
  have hoffset : ∀ pos : ChunkPos,
      placement.isStructureChunk shouldGenerate rounds seed pos.x pos.y ringPositions =
        some true →
      ∃ spreadX spreadZ, (0 ≤ spreadX ∧ spreadX < spacing - separation) ∧
        (0 ≤ spreadZ ∧ spreadZ < spacing - separation) ∧
        pos.x = pos.x / spacing * spacing + spreadX ∧
        pos.y = pos.y / spacing * spacing + spreadZ := by
    intro pos hpos
    obtain ⟨spreadX, spreadZ, hx, hz, hpotential⟩ := hchunk (pos.x / spacing) (pos.y / spacing)
    rw [isStructureChunk_eq hkind hfrequency shouldGenerate
      (hpotential pos.x pos.y rfl rfl)] at hpos
    simp only [Option.some.injEq, Bool.and_eq_true, decide_eq_true_eq] at hpos
    exact ⟨spreadX, spreadZ, hx, hz, hpos.1.symm, hpos.2.symm⟩
  refine ⟨fun gridX gridZ => ?_, fun first second hfirst hsecond => ?_⟩
  · obtain ⟨spreadX, spreadZ, hx, hz, hpotential⟩ := hchunk gridX gridZ
    have hcell : ∀ {grid spread : Int}, 0 ≤ spread → spread < spacing - separation →
        (grid * spacing + spread) / spacing = grid := by
      intro grid spread hlow hhigh
      rw [Int.add_comm, Int.add_mul_ediv_right _ _ hpos.ne', Int.ediv_eq_zero_of_lt hlow (by omega),
        Int.zero_add]
    refine ⟨⟨gridX * spacing + spreadX, gridZ * spacing + spreadZ⟩,
      ⟨⟨hcell hx.1 hx.2, hcell hz.1 hz.2⟩, ?_⟩, ?_⟩
    · rw [isStructureChunk_eq hkind hfrequency shouldGenerate
        (hpotential _ _ (hcell hx.1 hx.2) (hcell hz.1 hz.2))]
      simp
    · rintro pos ⟨⟨hgridX, hgridZ⟩, hpos⟩
      rw [isStructureChunk_eq hkind hfrequency shouldGenerate
        (hpotential _ _ hgridX hgridZ)] at hpos
      simp only [Option.some.injEq, Bool.and_eq_true, decide_eq_true_eq] at hpos
      cases pos
      simp only [ChunkPos.mk.injEq]
      exact ⟨hpos.1.symm, hpos.2.symm⟩
  · obtain ⟨a, b, ha, hb, hax, hby⟩ := hoffset first hfirst
    obtain ⟨c, d, hc, hd, hcx, hdy⟩ := hoffset second hsecond
    exact ⟨apart_of_cells_ne hseparation hpos hax hcx ha hc,
      apart_of_cells_ne hseparation hpos hby hdy hb hd⟩

def villages : StructurePlacement where
  salt := 10387312
  frequency := 1
  kind := .randomSpread 34 8 .linear

theorem existsUnique_structureChunk_villages :
    ∃! pos : ChunkPos, (pos.x / 34 = -1 ∧ pos.y / 34 = 2) ∧
      villages.isStructureChunk (fun _ _ => false) LegacyRandom.enoughRounds 42 pos.x pos.y none =
        some true := by
  have hkind : villages.kind = .randomSpread 34 8 .linear := rfl
  exact (existsUnique_structureChunk hkind rfl (by decide) (by decide) (by decide)
    (fun hspread => nomatch hspread) (fun _ _ => false) le_rfl 42 none).1 (-1) 2

end StructurePlacement

end Steel

import Steel.Lib.HighestTrue
import Steel.Light.SkySources

/-!
# Filled and updated sky light sources

A change of a block changes the two edges next to it, and the update keeps the height at the highest
edge that is occluded. The scan of the sections does not look at edges whose lower block is in a
section without blocks, where only the face of the upper block can occlude.
-/

namespace Steel

open List Function

/-! ### Edges -/

section Edges

variable {shape1 shape1' shape2 : VoxelShape} {face1 face2 : Direction}

theorem faceShapeOccludes_of_isEmpty (h : shape1.isEmpty = true) (h' : shape1'.isEmpty = true) :
    faceShapeOccludes shape1 face1 shape2 face2 = faceShapeOccludes shape1' face1 shape2 face2 := by
  simp only [faceShapeOccludes, h, h', shape1.isFullBlock_of_isEmpty h,
    shape1'.isFullBlock_of_isEmpty h', shape1.face_of_isEmpty h, shape1'.face_of_isEmpty h']

theorem faceShapeOccludes_empty (h : shape1.isEmpty = true) (h' : shape2.isEmpty = true) :
    faceShapeOccludes shape1 face1 shape2 face2 = false := by
  simp [faceShapeOccludes, h, h', shape1.isFullBlock_of_isEmpty h, shape2.isFullBlock_of_isEmpty h']

variable {top bottom : SkyBlockState}

theorem isEdgeOccluded_of_isAir (h : top.isAir = true) (bottom : SkyBlockState) :
    isEdgeOccluded top bottom = isEdgeOccluded .airState bottom := by
  have hair : SkyBlockState.airState.lightOcclusionShape.isEmpty = true := rfl
  simp only [isEdgeOccluded, lightFaceOccludes,
    faceShapeOccludes_of_isEmpty (top.isAir_passes h).2 hair]

theorem isEdgeOccluded_air (htop : top.isAir = true) (hbottom : bottom.isAir = true) :
    isEdgeOccluded top bottom = false := by
  have hdampening := (bottom.isAir_passes hbottom).1
  simp [isEdgeOccluded, hdampening, lightFaceOccludes,
    faceShapeOccludes_empty (top.isAir_passes htop).2 (bottom.isAir_passes hbottom).2]

end Edges

namespace ChunkSections

variable {chunk : ChunkSections} {x z : Fin 16} {y : ℤ}

/-! ### Blocks -/

variable {index : ℕ} {states : SectionStates}

theorem sectionIndex_localY {k : Fin 16} (hy : y = chunk.minY + 16 * index + k) :
    chunk.sectionIndex y = index ∧ localY y = k := by
  have haligned := chunk.aligned
  refine ⟨?_, Fin.ext ?_⟩
  · rw [sectionIndex]
    omega
  · simp only [localY, Fin.ofNat]
    omega

/-- A block at a height of a section. -/
theorem getBlockState_eq (hstates : chunk.sections[index]? = some states) (k : Fin 16)
    (hy : y = chunk.minY + 16 * index + k) : chunk.getBlockState x y z = states x k z := by
  have hindex := (List.getElem?_eq_some_iff.mp hstates).1
  obtain ⟨hsection, hlocal⟩ := sectionIndex_localY hy
  rw [getBlockState, if_neg, hsection, hstates, hlocal]
  rw [maxY]
  omega

theorem getBlockState_of_outside (h : y < chunk.minY ∨ chunk.maxY ≤ y) :
    chunk.getBlockState x y z = .airState := by
  rw [getBlockState, if_pos h]

/-- Every height of the chunk is in a section. -/
theorem exists_section (hy : chunk.minY ≤ y) (hy' : y < chunk.maxY) :
    ∃ (index : ℕ) (states : SectionStates) (k : Fin 16), chunk.sections[index]? = some states ∧
      y = chunk.minY + 16 * index + k := by
  rw [maxY] at hy'
  have hindex : ((y - chunk.minY) / 16).toNat < chunk.sections.length := by omega
  refine ⟨((y - chunk.minY) / 16).toNat, _, ⟨((y - chunk.minY) % 16).toNat, by omega⟩,
    getElem?_eq_getElem hindex, ?_⟩
  dsimp only
  omega

theorem maxY_setBlockState (chunk : ChunkSections) (x : Fin 16) (y : ℤ) (z : Fin 16)
    (state : SkyBlockState) : (chunk.setBlockState x y z state).maxY = chunk.maxY := by
  simp only [maxY, setBlockState, length_modify]

theorem getBlockState_setBlockState (hy : chunk.minY ≤ y) (hy' : y < chunk.maxY)
    (state : SkyBlockState) (x' : Fin 16) (y' : ℤ) (z' : Fin 16) :
    (chunk.setBlockState x y z state).getBlockState x' y' z' =
      if x' = x ∧ y' = y ∧ z' = z then state else chunk.getBlockState x' y' z' := by
  have hmaxY : (chunk.setBlockState x y z state).maxY = chunk.maxY := chunk.maxY_setBlockState ..
  by_cases hinside : chunk.minY ≤ y' ∧ y' < chunk.maxY
  · obtain ⟨index, states, k, hstates, hk⟩ := exists_section hy hy'
    obtain ⟨index', states', k', hstates', hk'⟩ := exists_section hinside.1 hinside.2
    obtain ⟨hsection, hlocal⟩ := sectionIndex_localY hk
    rw [getBlockState_eq hstates' k' hk']
    by_cases hindex : index' = index
    · subst hindex
      obtain rfl := Option.some.inj (hstates.symm.trans hstates')
      have hchanged : (chunk.setBlockState x y z state).sections[index']? =
          some (update states x
            (update (states x) k (update (states x k) z state))) := by
        simp [setBlockState, hsection, hlocal, hstates]
      rw [getBlockState_eq hchanged k' hk']
      have hsame : y' = y ↔ k' = k := by
        rw [Fin.ext_iff]
        omega
      simp only [update_apply, hsame]
      by_cases hx : x' = x
      · subst hx
        by_cases hk : k' = k
        · subst hk
          by_cases hz : z' = z
          · simp [hz]
          · simp [hz]
        · simp [hk]
      · simp [hx]
    · have hsame : (chunk.setBlockState x y z state).sections[index']? = some states' := by
        simp [setBlockState, hsection, Ne.symm hindex, hstates']
      rw [getBlockState_eq hsame k' hk', if_neg]
      rintro ⟨-, rfl, -⟩
      omega
  · have houtside : y' < chunk.minY ∨ chunk.maxY ≤ y' := by omega
    rw [getBlockState_of_outside (hmaxY ▸ houtside), getBlockState_of_outside houtside, if_neg]
    rintro ⟨-, rfl, -⟩
    omega

def Occluded (chunk : ChunkSections) (x z : Fin 16) (y : ℤ) : Prop :=
  isEdgeOccluded (chunk.getBlockState x (y + 1) z) (chunk.getBlockState x y z) = true

def InBlocks (chunk : ChunkSections) (y : ℤ) : Prop :=
  ∃ (index : ℕ) (states : SectionStates), chunk.sections[index]? = some states ∧
    states.isEmpty = false ∧ chunk.minY + 16 * index ≤ y ∧ y < chunk.minY + 16 * index + 16

/-- Heights in one section are in blocks together. -/
theorem InBlocks.isEmpty_eq_false (h : chunk.InBlocks y)
    (hstates : chunk.sections[index]? = some states) (hy : chunk.minY + 16 * index ≤ y)
    (hy' : y < chunk.minY + 16 * index + 16) : states.isEmpty = false := by
  obtain ⟨index', states', hstates', hblocks, hlow, hhigh⟩ := h
  obtain rfl : index' = index := by omega
  obtain rfl := Option.some.inj (hstates.symm.trans hstates')
  exact hblocks

theorem InBlocks.inside (h : chunk.InBlocks y) : chunk.minY ≤ y ∧ y < chunk.maxY := by
  obtain ⟨index, states, hstates, -, hlow, hhigh⟩ := h
  have hlength := (List.getElem?_eq_some_iff.mp hstates).1
  rw [maxY]
  omega

def Scanned (chunk : ChunkSections) (x z : Fin 16) (y : ℤ) : Prop :=
  chunk.Occluded x z y ∧ chunk.InBlocks y

end ChunkSections

/-! ### The scan of the sections -/

namespace ChunkSkyLightSources

open ChunkSections

variable {chunk : ChunkSections} {x z : Fin 16}

/-- A scan that has come down to a height without finding an edge. -/
structure At (chunk : ChunkSections) (x z : Fin 16) (y : ℤ) (scan : Scan) : Prop where
  topY : scan.topY = y
  bottomY : scan.bottomY = y - 1
  topState : ∀ bottom, isEdgeOccluded scan.topState bottom =
    isEdgeOccluded (chunk.getBlockState x y z) bottom
  clear : ∀ other, y ≤ other → ¬ chunk.Scanned x z other

/-- What a part of the scan comes to: an edge, or the height at its end. -/
def Scans (chunk : ChunkSections) (x z : Fin 16) (bottom : ℤ) : Except ℤ Scan → Prop
  | .error edge => chunk.Scanned x z (edge - 1) ∧ ∀ other, edge ≤ other → ¬ chunk.Scanned x z other
  | .ok scan => At chunk x z bottom scan

theorem Scans.bind {middle bottom : ℤ} {result : Except ℤ Scan} {next : Scan → Except ℤ Scan}
    (h : Scans chunk x z middle result)
    (hnext : ∀ scan, At chunk x z middle scan → Scans chunk x z bottom (next scan)) :
    Scans chunk x z bottom (result >>= next) := by
  cases result with
  | error edge => exact h
  | ok scan => exact hnext scan h

variable {index : ℕ} {states : SectionStates} {scan : Scan} {y minY : ℤ}
  {sources : ChunkSkyLightSources} {sections : List SectionStates}

/-- A turn of the scan of a section. -/
theorem scans_layer (hstates : chunk.sections[index]? = some states)
    (hblocks : states.isEmpty = false) (layer : Fin 16)
    (h : At chunk x z (chunk.minY + 16 * index + layer + 1) scan) :
    Scans chunk x z (chunk.minY + 16 * index + layer) (scanLayer states x z scan layer) := by
  have hbottom : chunk.getBlockState x (chunk.minY + 16 * index + layer) z = states x layer z :=
    getBlockState_eq hstates layer rfl
  have hoccluded : chunk.Occluded x z (chunk.minY + 16 * index + layer) ↔
      isEdgeOccluded scan.topState (states x layer z) = true := by
    rw [Occluded, hbottom, h.topState]
  have hin : chunk.InBlocks (chunk.minY + 16 * index + layer) :=
    ⟨index, states, hstates, hblocks, by omega, by omega⟩
  rw [scanLayer]
  by_cases hedge : isEdgeOccluded scan.topState (states x layer z) = true
  · rw [if_pos hedge]
    refine ⟨⟨?_, ?_⟩, ?_⟩
    · rwa [h.topY, add_sub_cancel_right, hoccluded]
    · rwa [h.topY, add_sub_cancel_right]
    · rw [h.topY]
      exact h.clear
  · rw [if_neg hedge]
    have hbottomY := h.bottomY
    refine ⟨?_, ?_, fun bottom => by rw [hbottom], ?_⟩
    · dsimp only
      omega
    · dsimp only
      omega
    · intro other hother hscanned
      by_cases heq : other = chunk.minY + 16 * index + layer
      · rw [heq] at hscanned
        exact hedge (hoccluded.mp hscanned.1)
      · exact h.clear other (by omega) hscanned

theorem scans_layers (hstates : chunk.sections[index]? = some states)
    (hblocks : states.isEmpty = false) {layers : ℕ} (hlayers : layers ≤ 16)
    (h : At chunk x z (chunk.minY + 16 * index + layers) scan) :
    Scans chunk x z (chunk.minY + 16 * index)
      (((finRange 16).take layers).reverse.foldlM (scanLayer states x z) scan) := by
  induction layers generalizing scan with
  | zero => simpa [Scans, pure, Except.pure] using h
  | succ layers ih =>
    have hlayer : layers < 16 := hlayers
    have htake : ((finRange 16).take (layers + 1)).reverse =
        ⟨layers, hlayer⟩ :: ((finRange 16).take layers).reverse := by
      rw [take_add_one]
      simp [hlayer]
    rw [htake, foldlM_cons]
    refine Scans.bind (scans_layer hstates hblocks ⟨layers, hlayer⟩ ?_)
      fun scan hscan => ih (by omega) hscan
    push_cast at h
    rwa [← add_assoc] at h

/-- Above a section without blocks nothing is occluded by it. -/
theorem at_of_isAir (hair : (chunk.getBlockState x y z).isAir = true)
    (hclear : ∀ other, y ≤ other → ¬ chunk.Scanned x z other) :
    At chunk x z y { topY := y, bottomY := y - 1, topState := .airState } where
  topY := rfl
  bottomY := rfl
  topState bottom := (isEdgeOccluded_of_isAir hair bottom).symm
  clear := hclear

/-- The sections are scanned downward, each from where the last one ended. -/
theorem scans_sections (hsources : sources.minY = chunk.minY - 1) {count : ℕ}
    (h : At chunk x z (chunk.minY + 16 * count) scan) (hcount : count ≤ chunk.sections.length) :
    Scans chunk x z chunk.minY
      ((range count).reverse.foldlM (sources.scanSection chunk.sections x z) scan) := by
  induction count generalizing scan with
  | zero => simpa [Scans, pure, Except.pure] using h
  | succ count ih =>
    rw [range_succ, reverse_append, reverse_singleton, singleton_append, foldlM_cons]
    obtain ⟨states, hstates⟩ : ∃ states, chunk.sections[count]? = some states :=
      ⟨_, getElem?_eq_getElem (by omega)⟩
    refine Scans.bind (?_ : Scans chunk x z (chunk.minY + 16 * count) _)
      fun scan hscan => ih hscan (by omega)
    rw [scanSection, hstates]
    dsimp only
    by_cases hblocks : states.isEmpty = true
    · have haligned := chunk.aligned
      have hbase : sectionToBlockCoord (sources.sectionYFromIndex count) =
          chunk.minY + 16 * count := by
        rw [sectionToBlockCoord, sectionYFromIndex, hsources]
        omega
      rw [if_pos hblocks, hbase]
      refine at_of_isAir ?_ ?_
      · rw [getBlockState_eq hstates ⟨0, by decide⟩ (by simp)]
        exact of_decide_eq_true hblocks _ _ _
      · intro other hother hscanned
        by_cases habove : chunk.minY + 16 * (count + 1 : ℕ) ≤ other
        · exact h.clear other habove hscanned
        · have := hscanned.2.isEmpty_eq_false hstates hother (by omega)
          simp [this] at hblocks
    · rw [if_neg hblocks]
      refine scans_layers hstates (by simpa using hblocks) (le_refl 16) ?_
      have hheight : chunk.minY + 16 * (count : ℤ) + (16 : ℕ) =
          chunk.minY + 16 * (count + 1 : ℕ) := by
        omega
      rwa [hheight]

/-- Above the highest section with a block there is none. -/
theorem topSectionIndex_some (h : topSectionIndex sections = some index) : index < sections.length ∧
      ∀ above states, index < above → sections[above]? = some states → states.isEmpty = true := by
  rw [topSectionIndex, find?_eq_some_iff_append] at h
  obtain ⟨-, before, after, hsplit, hbefore⟩ := h
  have hmem : index ∈ (range sections.length).reverse := by
    rw [hsplit]
    simp
  refine ⟨by simpa using hmem, fun above states habove hstates => ?_⟩
  have hlength := (List.getElem?_eq_some_iff.mp hstates).1
  have hdescending : (range sections.length).reverse.Pairwise (· > ·) := by
    rw [pairwise_reverse]
    exact pairwise_lt_range
  rw [hsplit, pairwise_append, pairwise_cons] at hdescending
  have hmemAbove : above ∈ before ++ index :: after := by
    rw [← hsplit]
    simpa using hlength
  rw [mem_append, mem_cons] at hmemAbove
  obtain hmemBefore | rfl | hmemAfter := hmemAbove
  · simpa [hstates] using hbefore above hmemBefore
  · omega
  · have := hdescending.2.1.1 above hmemAfter
    omega

theorem topSectionIndex_none (h : topSectionIndex sections = none)
    (hstates : sections[index]? = some states) : states.isEmpty = true := by
  have hlength := (List.getElem?_eq_some_iff.mp hstates).1
  rw [topSectionIndex, find?_eq_none] at h
  simpa [hstates] using h index (by simpa using hlength)

/-- The state above the highest section with a block. -/
theorem getBlockState_isAir
    (hempty : ∀ (index : ℕ) states, chunk.sections[index]? = some states →
      y < chunk.minY + 16 * index + 16 → states.isEmpty = true) :
    (chunk.getBlockState x y z).isAir = true := by
  by_cases hinside : chunk.minY ≤ y ∧ y < chunk.maxY
  · obtain ⟨index, states, k, hstates, hk⟩ := exists_section hinside.1 hinside.2
    rw [getBlockState_eq hstates k hk]
    exact of_decide_eq_true (hempty index states hstates (by omega)) _ _ _
  · rw [getBlockState_of_outside (by omega)]
    rfl

/-- The heights that are filled in are at the highest edge that the scan looks at. -/
theorem fillFromSections_isTop (hsources : sources.minY = chunk.minY - 1) (x z : Fin 16) :
    IsTop (chunk.Scanned x z) (chunk.minY - 1) chunk.maxY
      ((sources.fillFromSections chunk.sections).heightmap x z) := by
  have hmaxY : chunk.minY ≤ chunk.maxY := by
    rw [maxY]
    omega
  rw [fillFromSections]
  cases htop : topSectionIndex chunk.sections with
  | none =>
    refine ⟨?_, ?_, ?_, ?_⟩
    · exact hsources.ge
    · dsimp only
      omega
    · rintro y - - ⟨-, index, states, hstates, hblocks, -⟩
      simp [topSectionIndex_none htop hstates] at hblocks
    · intro hlow
      dsimp only at hlow
      omega
  | some index =>
    obtain ⟨hlength, habove⟩ := topSectionIndex_some htop
    have haligned := chunk.aligned
    have hstart : sectionToBlockCoord (sources.sectionYFromIndex index + 1) =
        chunk.minY + 16 * (index + 1 : ℕ) := by
      rw [sectionToBlockCoord, sectionYFromIndex, hsources]
      omega
    have hclear : ∀ other, chunk.minY + 16 * (index + 1 : ℕ) ≤ other →
        ¬ chunk.Scanned x z other := by
      rintro other hother ⟨-, index', states, hstates, hblocks, -, hhigh⟩
      simp [habove index' states (by omega) hstates] at hblocks
    have hair : (chunk.getBlockState x (chunk.minY + 16 * (index + 1 : ℕ)) z).isAir = true :=
      getBlockState_isAir fun index' states hstates hy => habove index' states (by omega) hstates
    have hscans := scans_sections hsources (at_of_isAir hair hclear) hlength
    dsimp only
    rw [findLowestSourceY, hstart]
    generalize (range (index + 1)).reverse.foldlM (sources.scanSection chunk.sections x z) _ =
      result at hscans ⊢
    cases result with
    | error edge =>
      obtain ⟨hscanned, hclear⟩ := hscans
      have hinside := hscanned.2.inside
      have hmax : max edge sources.minY = edge := max_eq_left (by omega)
      dsimp only
      rw [hmax]
      exact ⟨by omega, by omega, fun y hy _ => hclear y hy, fun _ => hscanned⟩
    | ok scan =>
      dsimp only
      rw [max_self, hsources]
      refine ⟨le_rfl, by omega, ?_, fun hlow => absurd hlow (lt_irrefl _)⟩
      intro y hy hhigh hscanned
      exact hscans.clear y hscanned.2.inside.1 hscanned

/-! ### The update of a column -/

/-- The search goes down to the highest edge below. -/
theorem searchBelow_isTop {stateAt : ℤ → SkyBlockState} (rounds : ℕ) (topY : ℤ)
    (hrounds : topY = minY + rounds) :
    IsTop (fun y => isEdgeOccluded (stateAt (y + 1)) (stateAt y) = true) minY topY
      (searchBelow minY stateAt rounds topY (stateAt topY)) := by
  induction rounds generalizing topY with
  | zero =>
    rw [searchBelow]
    exact ⟨le_rfl, by omega, fun y hy hy' => by omega, fun hlow => absurd hlow (lt_irrefl _)⟩
  | succ rounds ih =>
    rw [searchBelow]
    by_cases hedge : isEdgeOccluded (stateAt topY) (stateAt (topY - 1)) = true
    · rw [if_pos hedge]
      exact ⟨by omega, le_rfl, fun y hy hy' => by omega, fun _ => by rwa [sub_add_cancel]⟩
    · rw [if_neg hedge]
      have hbelow := ih (topY - 1) (by omega)
      refine ⟨hbelow.low_le, hbelow.le_high.trans (by omega), fun y hy hhigh => ?_, hbelow.holds⟩
      by_cases heq : y = topY - 1
      · rw [heq, sub_add_cancel]
        exact hedge
      · exact hbelow.clear y hy (by omega)

def EdgeOccluded (stateAt : ℤ → SkyBlockState) (y : ℤ) : Prop :=
  isEdgeOccluded (stateAt (y + 1)) (stateAt y) = true

section Edge

variable {sources : ChunkSkyLightSources} {stateAt : ℤ → SkyBlockState} {edges : ℤ → Prop}
  {high y top : ℤ}

theorem findLowestSourceBelow_isTop (hy : sources.minY ≤ y) :
    IsTop (EdgeOccluded stateAt) sources.minY y
      (sources.findLowestSourceBelow y (stateAt y) stateAt) :=
  searchBelow_isTop _ y (by omega)

variable {bottomState topState : SkyBlockState}

/-- What is done about one edge, where the height is not above it. -/
theorem updateEdge_settles {changed : ℤ → Prop}
    (h : IsTop edges sources.minY high top)
    (hothers : ∀ other, other ≠ y → (changed other ↔ edges other))
    (hchanged : changed y ↔ isEdgeOccluded topState bottomState = true)
    (hlow : sources.minY ≤ y) (hhigh : y < high) (htop : top ≤ y + 1)
    (hbelow : top = y + 1 →
      IsTop changed sources.minY y (sources.findLowestSourceBelow y bottomState stateAt)) :
    IsTop changed sources.minY high
      ((sources.updateEdge top (y + 1) topState y bottomState stateAt).getD top) := by
  rw [updateEdge]
  by_cases hedge : isEdgeOccluded topState bottomState = true
  · rw [if_pos hedge]
    have hraised := h.raise hothers (hchanged.mpr hedge) htop hhigh hlow
    by_cases hlt : top < y + 1
    · rw [if_pos hlt]
      exact hraised
    · obtain rfl : top = y + 1 := by omega
      rw [if_neg hlt]
      exact hraised
  · rw [if_neg hedge]
    have hfails := mt hchanged.mp hedge
    by_cases heq : y + 1 = top
    · subst heq
      rw [if_pos rfl]
      exact h.lower hothers hfails (hbelow rfl)
    · rw [if_neg heq]
      have hy : top ≤ y := by omega
      exact h.stay hothers hfails hy

/-- An edge above the height is only looked at to raise it. -/
theorem updateEdge_above {height : ℤ} (htop : top < y + 1)
    (h : sources.updateEdge top (y + 1) topState y bottomState stateAt = some height) :
    height = y + 1 := by
  rw [updateEdge, if_pos htop, if_neg htop.ne'] at h
  by_cases hedge : isEdgeOccluded topState bottomState = true
  · rw [if_pos hedge] at h
    exact (Option.some.inj h).symm
  · rw [if_neg hedge] at h
    exact absurd h (by simp)

/-- An edge below the height is left alone. -/
theorem updateEdge_below (htop : y + 1 < top) :
    sources.updateEdge top (y + 1) topState y bottomState stateAt = none := by
  rw [updateEdge, if_neg htop.not_gt, if_neg htop.ne, ite_self]

def updated (sources : ChunkSkyLightSources) (stateAt : ℤ → SkyBlockState) (y top : ℤ) : ℤ :=
  ((sources.updateEdge top (y + 1) (stateAt (y + 1)) y (stateAt y) stateAt).or
    (sources.updateEdge top y (stateAt y) (y - 1) (stateAt (y - 1)) stateAt)).getD top

/-- A block changes the edges above and below it. -/
theorem updated_isTop (h : IsTop edges sources.minY high top)
    (hothers : ∀ other, other ≠ y → other ≠ y - 1 → (EdgeOccluded stateAt other ↔ edges other))
    (hlow : sources.minY < y) (hhigh : y < high) (htop : top ≤ y + 1) :
    IsTop (EdgeOccluded stateAt) sources.minY high (updated sources stateAt y top) := by
  have hlower : y - 1 + 1 = y := sub_add_cancel y 1
  obtain rfl | hle : top = y + 1 ∨ top ≤ y := by omega
  · -- The lower edge is below the height, so it changes first.
    let first := fun other => if other = y - 1 then EdgeOccluded stateAt other else edges other
    have hfirst : IsTop first sources.minY high (y + 1) := by
      have hothersFirst : ∀ other, other ≠ y - 1 → (first other ↔ edges other) :=
        fun other hother => by simp [first, hother]
      exact h.change_below hothersFirst (by omega)
    have hsame : ∀ other, other ≠ y → (EdgeOccluded stateAt other ↔ first other) := by
      intro other hother
      by_cases heq : other = y - 1
      · simp [first, heq]
      · simp [first, heq, hothers other hother heq]
    have hbelow : sources.updateEdge (y + 1) y (stateAt y) (y - 1) (stateAt (y - 1)) stateAt =
        none := by
      have hnone : sources.updateEdge (y + 1) (y - 1 + 1) (stateAt y) (y - 1) (stateAt (y - 1))
          stateAt = none := updateEdge_below (by omega)
      rwa [hlower] at hnone
    rw [updated, hbelow, Option.or_none]
    exact updateEdge_settles hfirst hsame Iff.rfl hlow.le hhigh le_rfl
      fun _ => findLowestSourceBelow_isTop hlow.le
  · -- The upper edge changes first, and only what it does not settle is left to the lower one.
    let first := fun other => if other = y then EdgeOccluded stateAt other else edges other
    have hfirst : IsTop first sources.minY high
        ((sources.updateEdge top (y + 1) (stateAt (y + 1)) y (stateAt y) stateAt).getD top) :=
      updateEdge_settles h (fun other hother => by simp [first, hother])
        (by simp [first, EdgeOccluded]) hlow.le hhigh htop (by omega)
    have hsame : ∀ other, other ≠ y - 1 → (EdgeOccluded stateAt other ↔ first other) := by
      intro other hother
      by_cases heq : other = y
      · simp [first, heq]
      · simp [first, heq, hothers other heq hother]
    rw [updated]
    cases hupper : sources.updateEdge top (y + 1) (stateAt (y + 1)) y (stateAt y) stateAt with
    | some height =>
      rw [hupper, Option.getD_some] at hfirst
      obtain rfl := updateEdge_above (by omega) hupper
      rw [Option.some_or, Option.getD_some]
      exact hfirst.change_below hsame (by omega)
    | none =>
      rw [hupper, Option.getD_none] at hfirst
      have hsecond : IsTop (EdgeOccluded stateAt) sources.minY high
          ((sources.updateEdge top (y - 1 + 1) (stateAt y) (y - 1) (stateAt (y - 1))
            stateAt).getD top) :=
        updateEdge_settles hfirst hsame (by rw [EdgeOccluded, hlower]) (by omega) (by omega)
          (by omega) fun _ => findLowestSourceBelow_isTop (by omega)
      rwa [hlower] at hsecond

end Edge

theorem set_heightmap (sources : ChunkSkyLightSources) (x z : Fin 16) (value : ℤ) (x' z' : Fin 16) :
    (sources.set x z value).heightmap x' z' =
      if x' = x ∧ z' = z then value else sources.heightmap x' z' := by
  simp only [set, update_apply]
  by_cases hx : x' = x
  · subst hx
    by_cases hz : z' = z
    · simp [hz]
    · simp [hz]
  · simp [hx]

theorem set_self (sources : ChunkSkyLightSources) (x z : Fin 16) :
    sources.set x z (sources.heightmap x z) = sources := by
  simp only [set, update_eq_self]

/-- What an update does to the heights, where it does not stop at the end of the numbers. -/
theorem update_eq (hmax : y ≠ i32Max) (hmin : y ≠ i32Min)
    (stateAt : Fin 16 → ℤ → Fin 16 → SkyBlockState) : (sources.update x y z stateAt).2 =
      if y + 1 < sources.heightmap x z then sources
      else
        sources.set x z (updated sources (fun y => stateAt x y z) y (sources.heightmap x z)) := by
  rw [update, if_neg hmax]
  dsimp only
  by_cases hbelow : y + 1 < sources.heightmap x z
  · rw [if_pos hbelow, if_pos hbelow]
  · rw [if_neg hbelow, if_neg hbelow, updated, if_neg hmin]
    cases sources.updateEdge (sources.heightmap x z) (y + 1) (stateAt x (y + 1) z) y
      (stateAt x y z) fun y => stateAt x y z with
    | some height => rfl
    | none =>
      cases sources.updateEdge (sources.heightmap x z) y (stateAt x y z) (y - 1)
        (stateAt x (y - 1) z) fun y => stateAt x y z with
      | some height => rfl
      | none => exact (set_self sources x z).symm

/-! ### Runs -/

/-- Heights that were filled in from the sections of a chunk, and then updated after each of any
number of changes of its blocks. -/
inductive Run (initial : ChunkSections) : ChunkSections → ChunkSkyLightSources → Prop
  | fill {sources : ChunkSkyLightSources}
      (hnew : new initial.minY (16 * initial.sections.length) = some sources) :
      Run initial initial (sources.fillFromSections initial.sections)
  | change {chunk : ChunkSections} {sources : ChunkSkyLightSources} (h : Run initial chunk sources)
      (x : Fin 16) {y : ℤ} (z : Fin 16) (state : SkyBlockState) (hy : chunk.minY ≤ y)
      (hy' : y < chunk.maxY) :
      Run initial (chunk.setBlockState x y z state)
        (sources.update x y z (chunk.setBlockState x y z state).getBlockState).2

structure Run.Good (chunk : ChunkSections) (sources : ChunkSkyLightSources) (x z : Fin 16) :
    Prop where
  minY : sources.minY = chunk.minY - 1
  i32Min_le : i32Min ≤ sources.minY
  le_i32Max : chunk.maxY ≤ i32Max
  isTop : IsTop (chunk.Occluded x z) sources.minY chunk.maxY (sources.heightmap x z)

theorem fillFromSections_minY (sources : ChunkSkyLightSources) (sections : List SectionStates) :
    (sources.fillFromSections sections).minY = sources.minY := by
  rw [fillFromSections]
  cases topSectionIndex sections with
  | none | some index => rfl

theorem new_some {height : ℤ} (h : new minY height = some sources) :
    sources.minY = minY - 1 ∧ i32Min ≤ minY - 1 ∧ minY + height ≤ i32Max := by
  rw [new] at h
  split_ifs at h with hbounds
  obtain rfl := Option.some.inj h
  dsimp only
  omega

theorem Run.Good.fill (hnew : new chunk.minY (16 * chunk.sections.length) = some sources)
    (hfilled : ∀ y, chunk.Occluded x z y → chunk.InBlocks y) :
    Run.Good chunk (sources.fillFromSections chunk.sections) x z := by
  obtain ⟨hminY, hmin, hmax⟩ := new_some hnew
  have hscanned : chunk.Scanned x z = chunk.Occluded x z :=
    funext fun y => propext ⟨And.left, fun hoccluded => ⟨hoccluded, hfilled y hoccluded⟩⟩
  have htop := fillFromSections_isTop hminY x z
  rw [hscanned, ← hminY] at htop
  refine ⟨?_, ?_, hmax, ?_⟩
  · rw [fillFromSections_minY, hminY]
  · rw [fillFromSections_minY, hminY]
    exact hmin
  · rwa [fillFromSections_minY]

/-- Edges that are not next to a changed block are as before. -/
theorem occluded_setBlockState (hy : chunk.minY ≤ y) (hy' : y < chunk.maxY) (x' z' : Fin 16)
    (state : SkyBlockState) {other : ℤ} (hother : (x = x' ∧ z = z') → other ≠ y ∧ other ≠ y - 1) :
    (chunk.setBlockState x' y z' state).Occluded x z other ↔ chunk.Occluded x z other := by
  rw [Occluded, Occluded, getBlockState_setBlockState hy hy', getBlockState_setBlockState hy hy',
    if_neg, if_neg]
  · rintro ⟨rfl, rfl, rfl⟩
    exact (hother ⟨rfl, rfl⟩).1 rfl
  · rintro ⟨rfl, rfl, rfl⟩
    exact (hother ⟨rfl, rfl⟩).2 (by omega)

theorem Run.Good.change (h : Run.Good chunk sources x z) (hy : chunk.minY ≤ y)
    (hy' : y < chunk.maxY) (x' z' : Fin 16) (state : SkyBlockState) :
    Run.Good (chunk.setBlockState x' y z' state)
      (sources.update x' y z' (chunk.setBlockState x' y z' state).getBlockState).2 x z := by
  have hmin := h.i32Min_le
  have hmax := h.le_i32Max
  have hminY := h.minY
  have hmaxY := maxY_setBlockState chunk x' y z' state
  rw [update_eq (by omega) (by omega)]
  by_cases hbelow : y + 1 < sources.heightmap x' z'
  · -- Both edges are below the height.
    rw [if_pos hbelow]
    refine ⟨hminY, hmin, hmaxY ▸ hmax, ?_⟩
    rw [hmaxY]
    refine h.isTop.congr fun other hother => occluded_setBlockState hy hy' x' z' state ?_
    rintro ⟨rfl, rfl⟩
    omega
  · rw [if_neg hbelow]
    refine ⟨hminY, hmin, hmaxY ▸ hmax, ?_⟩
    rw [set_heightmap, hmaxY]
    by_cases hcolumn : x = x' ∧ z = z'
    · obtain ⟨rfl, rfl⟩ := hcolumn
      have hlow : sources.minY < y := by omega
      rw [if_pos ⟨rfl, rfl⟩]
      refine updated_isTop h.isTop (fun other hupper hlower => ?_) hlow hy' (by omega)
      exact occluded_setBlockState hy hy' x z state fun _ => ⟨hupper, hlower⟩
    · rw [if_neg hcolumn]
      exact h.isTop.congr fun other _ =>
        occluded_setBlockState hy hy' x' z' state fun heq => absurd heq hcolumn

theorem Run.good {initial chunk : ChunkSections} (h : Run initial chunk sources)
    (hfilled : ∀ y, initial.Occluded x z y → initial.InBlocks y) : Run.Good chunk sources x z := by
  induction h with
  | fill hnew => exact .fill hnew hfilled
  | change h x' z' state hy hy' ih => exact ih.change hy hy' x' z' state

/-- After any changes of the blocks, the height of a column is at its highest edge that is occluded.
A fill from the sections gives the same height if and only if this edge is above a block of a
section with blocks, or there is none. -/
theorem Run.heightmap_eq_fill_iff {initial chunk : ChunkSections} {sources : ChunkSkyLightSources}
    (h : Run initial chunk sources) (x z : Fin 16)
    (hfilled : ∀ y, initial.Occluded x z y → initial.InBlocks y) :
    IsTop (chunk.Occluded x z) (chunk.minY - 1) chunk.maxY (sources.heightmap x z) ∧
      (sources.heightmap x z = (sources.fillFromSections chunk.sections).heightmap x z ↔
        sources.heightmap x z = chunk.minY - 1 ∨ chunk.InBlocks (sources.heightmap x z - 1)) := by
  have hgood := h.good hfilled
  have htop := hgood.isTop
  rw [hgood.minY] at htop
  have hfill := fillFromSections_isTop hgood.minY x z
  have hlow := htop.low_le
  refine ⟨htop, fun heq => ?_, fun hscanned => ?_⟩
  · rw [← heq] at hfill
    by_cases hminY : sources.heightmap x z = chunk.minY - 1
    · exact Or.inl hminY
    · exact Or.inr (hfill.holds (by omega)).2
  · refine IsTop.unique ⟨hlow, htop.le_high, ?_, ?_⟩ hfill
    · exact fun y hy hhigh hscannedY => htop.clear y hy hhigh hscannedY.1
    · intro hlt
      exact ⟨htop.holds hlt, hscanned.resolve_left (by omega)⟩

/-! ### A block over a section without blocks -/

def corner : Fin 16 := ⟨0, by decide⟩

def airChunk : ChunkSections where
  minY := 0
  aligned := rfl
  sections := replicate 2 fun _ _ _ => .airState

/-- The lower half of a block, which covers the face below it. -/
def slab : SkyBlockState where
  lightDampening := 0
  canOcclude := true
  useShapeForLightOcclusion := true
  occlusionShape :=
    { isEmpty := false
      isFullBlock := false
      face := fun direction => if direction = .down then Finset.univ else ∅
      isFullBlock_of_isEmpty := fun _ => rfl
      face_of_isEmpty := fun h => absurd h (by decide) }
  isAir := false
  isAir_passes := fun h => absurd h (by decide)

def airSources : ChunkSkyLightSources where
  minY := -1
  heightmap := fun _ _ => -1

def slabChunk : ChunkSections := airChunk.setBlockState corner 16 corner slab

def slabSources : ChunkSkyLightSources :=
  ((airSources.fillFromSections airChunk.sections).update corner 16 corner
    slabChunk.getBlockState).2

theorem slab_run : Run airChunk slabChunk slabSources := by
  have hnew : new airChunk.minY (16 * airChunk.sections.length) = some airSources := rfl
  exact .change (.fill hnew) corner corner slab (by decide) (by decide)

/-- The slab is above a section without blocks, where the scan does not look. -/
theorem update_ne_fill :
    Run airChunk slabChunk slabSources ∧ slabSources.heightmap corner corner = 16 ∧
      (slabSources.fillFromSections slabChunk.sections).heightmap corner corner = -1 :=
  ⟨slab_run, by decide +kernel, by decide +kernel⟩

theorem airChunk_not_occluded (y : ℤ) : ¬ airChunk.Occluded corner corner y := by
  have hair (y : ℤ) : (airChunk.getBlockState corner y corner).isAir = true := by
    refine getBlockState_isAir fun index states hstates _ => ?_
    obtain rfl := eq_of_mem_replicate (mem_of_getElem? hstates)
    decide
  rw [Occluded, isEdgeOccluded_air (hair (y + 1)) (hair y)]
  decide

theorem heightmap_eq_fill_iff_slab :
    (∀ y, airChunk.Occluded corner corner y → airChunk.InBlocks y) ∧
      IsTop (slabChunk.Occluded corner corner) (slabChunk.minY - 1) slabChunk.maxY
        (slabSources.heightmap corner corner) ∧
      (slabSources.heightmap corner corner =
          (slabSources.fillFromSections slabChunk.sections).heightmap corner corner ↔
        slabSources.heightmap corner corner = slabChunk.minY - 1 ∨
          slabChunk.InBlocks (slabSources.heightmap corner corner - 1)) :=
  ⟨fun y hoccluded => absurd hoccluded (airChunk_not_occluded y),
    Run.heightmap_eq_fill_iff slab_run corner corner
      fun y hoccluded => absurd hoccluded (airChunk_not_occluded y)⟩

end ChunkSkyLightSources

end Steel

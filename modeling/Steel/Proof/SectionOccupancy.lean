import Steel.Proof.SectionCells

/-!
# The certificate of a section

A certificate that is not unknown says of every cell whether it is occupied, and counts the occupied
cells.
-/

namespace Steel.Sections

open List CountList PalettedContainer

variable {table : SectionStates} {contents : Cube BlockStateId 16}

namespace SectionStates

def isOccupied (table : SectionStates) (state : BlockStateId) : Bool :=
  !table.isStableVanillaAir state

theorem eq_air_of_not_isOccupied {state : BlockStateId} (h : table.isOccupied state = false) :
    state = table.air ∨ state = table.caveAir ∨ state = table.voidAir := by
  simp only [isOccupied, isStableVanillaAir, Bool.not_eq_false', Bool.and_eq_true, Bool.or_eq_true,
    decide_eq_true_eq, or_assoc] at h
  exact h.2

end SectionStates

namespace StableAirOccupancy

def Certifies (table : SectionStates) (occupancy : StableAirOccupancy)
    (contents : Cube BlockStateId 16) : Prop :=
  match occupancy with
  | .unknown => True
  | .empty => ∀ pos, table.isOccupied (contents pos) = false
  | .full => ∀ pos, table.isOccupied (contents pos) = true
  | .mixed rows occupiedCount =>
    (∀ y z x : Fin 16, (rows (y, z)).getLsbD x = table.isOccupied (contents (y, z, x))) ∧
      occupiedCount = cellsWith table.isOccupied contents

/-! ### From a palette -/

variable (overflowChecks : Bool)

theorem foldlM_occupiedCount {palette : Palette BlockStateId} {count : ℕ}
    (hbound : count + entriesWith table.isOccupied palette < 65536) :
    palette.foldlM (fun occupiedCount (entry : BlockStateId × ℕ) =>
        if table.isStableVanillaAir entry.1 then some occupiedCount
        else u16Result overflowChecks (occupiedCount + entry.2)) count =
      some (count + entriesWith table.isOccupied palette) := by
  induction palette generalizing count with
  | nil => rfl
  | cons entry palette ih =>
    rw [entriesWith_cons, ← Nat.add_assoc] at hbound ⊢
    rw [foldlM_cons]
    cases hair : table.isStableVanillaAir entry.1 with
    | true =>
      simp only [SectionStates.isOccupied, hair, Bool.not_true, Bool.false_eq_true, if_false,
        Nat.add_zero] at hbound ⊢
      exact ih hbound
    | false =>
      simp only [SectionStates.isOccupied, hair, Bool.not_false, if_true] at hbound ⊢
      rw [if_neg Bool.false_ne_true, u16Result_add overflowChecks (by omega)]
      exact ih hbound

/-- The rows that are built cell by cell. -/
theorem getLsbD_foldl_rows (isAir : CubePos 16 → Bool) (y z x : Fin 16) :
    ∀ (cells : List (CubePos 16)) (rows : Rows),
      (cells.foldl (fun (rows : Rows) (y, z, x) =>
          if isAir (y, z, x) then rows
          else Function.update rows (y, z) (rows (y, z) ||| BitVec.twoPow 16 x)) rows
        (y, z)).getLsbD x =
      ((rows (y, z)).getLsbD x || (decide ((y, z, x) ∈ cells) && !isAir (y, z, x)))
  | [], rows => by simp
  | (cellY, cellZ, cellX) :: cells, rows => by
    rw [foldl_cons, getLsbD_foldl_rows isAir y z x cells]
    by_cases hair : isAir (cellY, cellZ, cellX) = true
    · by_cases heq : (y, z, x) = (cellY, cellZ, cellX)
      · simp [hair, heq]
      · simp only [hair, if_true, mem_cons, heq, false_or]
    · by_cases hrow : (y, z) = (cellY, cellZ)
      · obtain ⟨rfl, rfl⟩ := Prod.mk.inj hrow
        by_cases hx : x = cellX
        · subst hx
          simp [hair]
        · have hbit : (BitVec.twoPow 16 (cellX : ℕ)).getLsbD x = false := by
            rw [BitVec.getLsbD_twoPow]
            simpa [Fin.val_inj] using fun h => hx h.symm
          have hne : (y, z, x) ≠ (y, z, cellX) := by simp [hx]
          simp only [hair, Bool.false_eq_true, if_false, Function.update_self, BitVec.getLsbD_or,
            hbit, Bool.or_false, mem_cons, hne, false_or]
      · have hne : (y, z, x) ≠ (cellY, cellZ, cellX) := by
          rintro ⟨⟩
          exact hrow rfl
        simp only [hair, Bool.false_eq_true, if_false, Function.update_of_ne hrow, mem_cons, hne,
          false_or]

theorem certifies_fromPalette {states : BlockPalette} (overflowChecks : Bool)
    (h : states.Represents contents) :
    ∃ occupancy, fromPalette overflowChecks table states = some occupancy ∧
      Certifies table occupancy contents := by
  cases states with
  | homogeneous state =>
    refine ⟨_, rfl, ?_⟩
    cases hair : table.isStableVanillaAir state with
    | true | false => exact fun pos => by rw [h pos, SectionStates.isOccupied, hair]; rfl
  | building cube => exact ⟨_, rfl, trivial⟩
  | heterogeneous data =>
    obtain ⟨rfl, hlists, -⟩ := h
    have hcount := entriesWith_eq hlists table.isOccupied
    have hfold := @foldlM_occupiedCount table overflowChecks data.palette 0
      (by rw [hcount, Nat.zero_add]; exact cellsWith_lt_u16 _ _)
    rw [hcount, Nat.zero_add] at hfold
    have hcontains : ∀ pos, ((data.palette.map Prod.fst).filter
        table.isStableVanillaAir).contains (data.cube pos) =
          table.isStableVanillaAir (data.cube pos) := by
      intro pos
      obtain ⟨index, count, hentry⟩ := exists_index hlists (mem_values data.cube pos)
      have hmem : data.cube pos ∈ data.palette.map Prod.fst :=
        mem_map.mpr ⟨_, mem_of_getElem? hentry, rfl⟩
      rw [Bool.eq_iff_iff, contains_iff_mem, mem_filter]
      exact and_iff_right hmem
    simp only [fromPalette, hfold, Option.bind_eq_bind, Option.bind_some]
    split
    case isTrue hempty =>
      refine ⟨_, rfl, fun pos => ?_⟩
      rw [SectionStates.isOccupied, ← hcontains pos, isEmpty_iff.mp hempty]
      rfl
    case isFalse =>
      split
      case isTrue hzero => exact ⟨_, rfl, (cellsWith_eq_zero_iff _ _).mp hzero⟩
      case isFalse =>
        refine ⟨_, rfl, fun y z x => ?_, rfl⟩
        rw [getLsbD_foldl_rows fun pos => ((data.palette.map Prod.fst).filter
          table.isStableVanillaAir).contains (data.cube pos)]
        simp only [CubePos.mem_all, hcontains, SectionStates.isOccupied, decide_true, Bool.true_and,
          BitVec.ofNat_eq_ofNat, BitVec.getLsbD_zero, Bool.false_or]

/-! ### One cell -/

theorem getLsbD_twoPow_fin (x other : Fin 16) :
    (BitVec.twoPow 16 (other : ℕ)).getLsbD x = decide (x = other) := by
  rw [BitVec.getLsbD_twoPow, Bool.eq_iff_iff]
  simp only [Bool.and_eq_true, decide_eq_true_eq, Fin.ext_iff]
  omega

variable {pos : CubePos 16} {newState : BlockStateId} {occupancy : StableAirOccupancy}

/-- The rows follow a cell whose bit is set or cleared. -/
theorem rows_update {rows : Rows} {newRow : BitVec 16}
    (hrows : ∀ y z x : Fin 16, (rows (y, z)).getLsbD x = table.isOccupied (contents (y, z, x)))
    (hnew : ∀ x : Fin 16, newRow.getLsbD x =
      if x = pos.2.2 then table.isOccupied newState else (rows (pos.1, pos.2.1)).getLsbD x)
    (y z x : Fin 16) :
    (Function.update rows (pos.1, pos.2.1) newRow (y, z)).getLsbD x =
      table.isOccupied (Function.update contents pos newState (y, z, x)) := by
  obtain ⟨posY, posZ, posX⟩ := pos
  by_cases hrow : (y, z) = (posY, posZ)
  · obtain ⟨rfl, rfl⟩ := Prod.mk.inj hrow
    rw [Function.update_self, hnew]
    by_cases hx : x = posX
    · subst hx
      rw [if_pos rfl, Function.update_self]
    · rw [if_neg hx, Function.update_of_ne (by simp [hx]), hrows]
  · have hne : (y, z, x) ≠ (posY, posZ, posX) := by
      rintro ⟨⟩
      exact hrow rfl
    rw [Function.update_of_ne hrow, Function.update_of_ne hne, hrows]

theorem isStableVanillaAir_ne {state state' : BlockStateId}
    (h : table.isOccupied state ≠ table.isOccupied state') :
    (!table.isStableVanillaAir state) ≠ !table.isStableVanillaAir state' := h

/-- A cell becomes occupied. -/
theorem certifies_occupy (h : Certifies table occupancy contents)
    (hold : table.isOccupied (contents pos) = false) (hnew : table.isOccupied newState = true) :
    ∃ after, occupancy.recordChange overflowChecks table pos (contents pos) newState = some after ∧
      Certifies table after (Function.update contents pos newState) := by
  have hupdate := cellsWith_update table.isOccupied contents pos newState
  have hlt := cellsWith_lt table.isOccupied contents hold
  simp only [hold, hnew, Bool.false_eq_true, if_false, if_true, Nat.add_zero] at hupdate
  have hrow : ∀ (row : BitVec 16) (x : Fin 16),
      (row ||| BitVec.twoPow 16 (pos.2.2 : ℕ)).getLsbD x =
        if x = pos.2.2 then table.isOccupied newState else row.getLsbD x := by
    intro row x
    rw [BitVec.getLsbD_or, getLsbD_twoPow_fin, hnew]
    by_cases hx : x = pos.2.2 <;> simp [hx]
  unfold recordChange
  rw [if_neg (isStableVanillaAir_ne (by rw [hold, hnew]; decide))]
  cases occupancy with
  | unknown => exact ⟨_, rfl, trivial⟩
  | full =>
    rw [h pos] at hold
    cases hold
  | empty =>
    have hzero := (cellsWith_eq_zero_iff _ _).mpr h
    refine ⟨_, rfl, rows_update (fun y z x => ?_) (fun x => ?_), ?_⟩
    · rw [h]
      exact BitVec.getLsbD_zero
    · rw [← hrow]
      simp
    · rw [hupdate, hzero]
  | mixed rows occupiedCount =>
    obtain ⟨hrows, rfl⟩ := h
    have hif : (!table.isStableVanillaAir newState) = true := hnew
    simp only [hif, if_true]
    rw [u16Result_succ overflowChecks (by omega)]
    refine ⟨_, rfl, ?_⟩
    rw [← hupdate]
    split
    case isTrue hall => exact (cellsWith_eq_all_iff _ _).mp hall
    case isFalse => exact ⟨rows_update hrows fun x => hrow _ x, rfl⟩

/-- A cell becomes clear. -/
theorem certifies_clear (h : Certifies table occupancy contents)
    (hold : table.isOccupied (contents pos) = true) (hnew : table.isOccupied newState = false) :
    ∃ after, occupancy.recordChange overflowChecks table pos (contents pos) newState = some after ∧
      Certifies table after (Function.update contents pos newState) := by
  have hupdate := cellsWith_update table.isOccupied contents pos newState
  have hpos := cellsWith_pos table.isOccupied contents hold
  have hle := cellsWith_le table.isOccupied contents
  simp only [hold, hnew, Bool.false_eq_true, if_false, if_true, Nat.add_zero] at hupdate
  have hrow : ∀ (row : BitVec 16) (x : Fin 16),
      (row &&& ~~~BitVec.twoPow 16 (pos.2.2 : ℕ)).getLsbD x =
        if x = pos.2.2 then table.isOccupied newState else row.getLsbD x := by
    intro row x
    rw [BitVec.getLsbD_and, BitVec.getLsbD_not, getLsbD_twoPow_fin, hnew]
    by_cases hx : x = pos.2.2 <;> simp [hx]
  unfold recordChange
  rw [if_neg (isStableVanillaAir_ne (by rw [hold, hnew]; decide))]
  cases occupancy with
  | unknown => exact ⟨_, rfl, trivial⟩
  | empty =>
    rw [h pos] at hold
    cases hold
  | full =>
    have hall := (cellsWith_eq_all_iff _ _).mpr h
    refine ⟨_, rfl, rows_update (fun y z x => ?_) (fun x => hrow _ x), ?_⟩
    · rw [h, BitVec.getLsbD_allOnes]
      exact decide_eq_true x.isLt
    · rw [blocksPerSection]
      omega
  | mixed rows occupiedCount =>
    obtain ⟨hrows, rfl⟩ := h
    have hif : (!table.isStableVanillaAir newState) = false := hnew
    simp only [hif, Bool.false_eq_true, if_false]
    rw [u16Result_pred overflowChecks hpos (by omega)]
    refine ⟨_, rfl, ?_⟩
    rw [← hupdate, Nat.add_sub_cancel]
    split
    case isTrue hzero => exact (cellsWith_eq_zero_iff _ _).mp hzero
    case isFalse => exact ⟨rows_update hrows fun x => hrow _ x, rfl⟩

/-- Where a cell stays as occupied as it was, the certificate stays as it is. -/
theorem Certifies.update (h : Certifies table occupancy contents)
    (hsame : table.isOccupied (contents pos) = table.isOccupied newState) :
    Certifies table occupancy (Function.update contents pos newState) := by
  have hcells : ∀ other, table.isOccupied (Function.update contents pos newState other) =
      table.isOccupied (contents other) := by
    intro other
    rw [Function.update_apply]
    split
    case isTrue heq => rw [heq, hsame]
    case isFalse => rfl
  have hupdate := cellsWith_update table.isOccupied contents pos newState
  rw [hsame, Nat.add_right_cancel_iff] at hupdate
  cases occupancy with
  | unknown => trivial
  | empty | full => exact fun other => (hcells other).trans (h other)
  | mixed rows occupiedCount =>
    exact ⟨fun y z x => (h.1 y z x).trans (hcells _).symm, h.2.trans hupdate.symm⟩

/-- **One cell.** The certificate follows the change of a cell. -/
theorem certifies_recordChange (h : Certifies table occupancy contents) (pos : CubePos 16)
    (newState : BlockStateId) :
    ∃ after, occupancy.recordChange overflowChecks table pos (contents pos) newState = some after ∧
      Certifies table after (Function.update contents pos newState) := by
  cases hold : table.isOccupied (contents pos) <;> cases hnew : table.isOccupied newState
  case false.true => exact certifies_occupy overflowChecks h hold hnew
  case true.false => exact certifies_clear overflowChecks h hold hnew
  all_goals
    have hsame := hold.trans hnew.symm
    exact ⟨occupancy, if_pos hsame, h.update hsame⟩

/-! ### Boxes -/

theorem getLsbD_xMask (minX maxX x : Fin 16) :
    (xMask minX maxX).getLsbD x = decide (minX ≤ x ∧ x ≤ maxX) := by
  have hbelow : (if (maxX : ℕ) = 15 then BitVec.allOnes 16
      else BitVec.twoPow 16 ((maxX : ℕ) + 1) - 1) = BitVec.ofNat 16 (2 ^ ((maxX : ℕ) + 1) - 1) := by
    revert maxX
    decide
  rw [xMask, BitVec.getLsbD_and, BitVec.getLsbD_shiftLeft]
  rw [hbelow, BitVec.getLsbD_ofNat, Nat.testBit_two_pow_sub_one, BitVec.getLsbD_allOnes,
    Bool.eq_iff_iff]
  simp only [Bool.and_eq_true, decide_eq_true_eq, Bool.not_eq_true', decide_eq_false_iff_not,
    Fin.le_def]
  omega

theorem mem_localRange {first last coordinate : Fin 16} :
    coordinate ∈ localRange first last ↔ first ≤ coordinate ∧ coordinate ≤ last := by
  simp [localRange]

/-- **Boxes.** A box that is found clear has no occupied cell. -/
theorem Certifies.clear_of_boxIsClear (h : Certifies table occupancy contents)
    {minX maxX minY maxY minZ maxZ : Fin 16}
    (hclear : occupancy.boxIsClear minX maxX minY maxY minZ maxZ = true) {y z x : Fin 16}
    (hy : minY ≤ y ∧ y ≤ maxY) (hz : minZ ≤ z ∧ z ≤ maxZ) (hx : minX ≤ x ∧ x ≤ maxX) :
    table.isOccupied (contents (y, z, x)) = false := by
  cases occupancy with
  | unknown | full => cases hclear
  | empty => exact h _
  | mixed rows occupiedCount =>
    have hrow := all_eq_true.mp (all_eq_true.mp hclear y (mem_localRange.mpr hy)) z
      (mem_localRange.mpr hz)
    have hbit := congrArg (fun row => row.getLsbD x) (of_decide_eq_true hrow)
    simp only [BitVec.getLsbD_and, getLsbD_xMask, hx, and_self, decide_true, Bool.and_true,
      BitVec.ofNat_eq_ofNat, BitVec.getLsbD_zero] at hbit
    rw [← h.1]
    exact hbit

end StableAirOccupancy

end Steel.Sections

import Mathlib.Algebra.BigOperators.Group.Finset.Piecewise
import Mathlib.Data.Fin.VecNotation
import Mathlib.Data.Fintype.Basic
import Mathlib.Tactic.FinCases
import Steel.Lib.SquareSpiral
import Steel.Utils.Position

/-!
# Walking around a block in a square spiral

The iterator steps along a leg, turns at its end, and makes every second leg one longer. It steps
before it looks whether the walk is over, so it starts one block before the center.
-/

namespace Steel

structure SpiralAround where
  directions : Fin 4 → Direction
  cursor : BlockPos
  legs : Int
  leg : Int
  legSize : Int
  legIndex : Int
  last : BlockPos

namespace SpiralAround

def next (spiral : SpiralAround) : Option BlockPos × SpiralAround :=
  let directionIndex := Fin.ofNat 4 ((spiral.leg + 4) % 4).toNat
  let cursor := spiral.last.relative (spiral.directions directionIndex)
  let spiral := { spiral with cursor, last := cursor }
  if spiral.legIndex ≥ spiral.legSize then
    if spiral.leg ≥ spiral.legs then (none, spiral)
    else
      let leg := spiral.leg + 1
      (some cursor, { spiral with leg, legIndex := 1, legSize := leg.tdiv 2 + 1 })
  else (some cursor, { spiral with legIndex := spiral.legIndex + 1 })

/-- What the iterator yields until it ends, or `none` if it has not ended by then. -/
def collect : ℕ → SpiralAround → Option (List BlockPos)
  | 0, _ => none
  | fuel + 1, spiral =>
    match spiral.next with
    | (none, _) => some []
    | (some pos, spiral) => (collect fuel spiral).map (pos :: ·)

end SpiralAround

namespace BlockPos

/-- `none` is a failed assertion. -/
def spiralAround (center : BlockPos) (radius : Int) (firstDirection secondDirection : Direction) :
    Option SpiralAround :=
  if radius < 0 then none
  else if firstDirection.getAxis = secondDirection.getAxis then none
  else
    let cursor := center.relative secondDirection
    some
      { directions := ![firstDirection, secondDirection, firstDirection.opposite,
          secondDirection.opposite]
        cursor
        legs := wrapI32 (4 * radius)
        leg := -1
        legSize := 0
        legIndex := 0
        last := cursor }

/-- The block `a` steps in one direction and `b` steps in another. -/
def offsetBy (center : BlockPos) (first second : Direction) (a b : Int) : BlockPos :=
  { x := center.x + a * first.offset.1 + b * second.offset.1
    y := center.y + a * first.offset.2.1 + b * second.offset.2.1
    z := center.z + a * first.offset.2.2 + b * second.offset.2.2 }

def chebyshev (p q : BlockPos) : ℕ :=
  max (p.x - q.x).natAbs (max (p.y - q.y).natAbs (p.z - q.z).natAbs)

end BlockPos

/-!
### The spiral visits the square

In the plane of its two directions the iterator walks the rings around the center: a ring ends in
the middle of every fourth leg, one step before the walk looks whether it is over.
-/

namespace SpiralAround

open List SquareSpiral

section Walk

variable (center : BlockPos) (first second : Direction) (radius : ℕ)

/-- A cell of the plane as a block, with coordinates that wrap. -/
def place (cell : ℤ × ℤ) : BlockPos :=
  let pos := center.offsetBy first second cell.1 cell.2
  ⟨wrapI32 pos.x, wrapI32 pos.y, wrapI32 pos.z⟩

def onLeg (leg legSize legIndex : ℤ) (cell : ℤ × ℤ) : SpiralAround :=
  { directions := ![first, second, first.opposite, second.opposite]
    cursor := place center first second cell
    legs := 4 * radius
    leg
    legSize
    legIndex
    last := place center first second cell }

def planeStep : Fin 4 → ℤ × ℤ := ![(1, 0), (0, 1), (-1, 0), (0, -1)]

theorem offset_opposite (direction : Direction) : direction.opposite.offset =
    (-direction.offset.1, -direction.offset.2.1, -direction.offset.2.2) := by
  cases direction <;> rfl

theorem relative_place (cell : ℤ × ℤ) (index : Fin 4) :
    (place center first second cell).relative
        (![first, second, first.opposite, second.opposite] index) =
      place center first second (cell.1 + (planeStep index).1, cell.2 + (planeStep index).2) := by
  simp only [BlockPos.relative, place, wrapI32_wrapI32_add, BlockPos.offsetBy]
  fin_cases index <;>
    simp only [planeStep, offset_opposite, Fin.mk_zero, Fin.mk_one, Fin.reduceFinMk,
      Matrix.cons_val] <;>
    congr 2 <;> ring

variable {center first second radius} {leg legSize legIndex : ℤ} {cell : ℤ × ℤ}
  {spiral after : SpiralAround} {cells : List (ℤ × ℤ)}

/-- The iterator yields the blocks of some cells and goes on from there. -/
def Walks (center : BlockPos) (first second : Direction) (spiral : SpiralAround)
    (cells : List (ℤ × ℤ)) (after : SpiralAround) : Prop :=
  ∀ fuel, spiral.collect (cells.length + fuel) =
    (after.collect fuel).map (cells.map (place center first second) ++ ·)

theorem Walks.nil : Walks center first second spiral [] spiral := by
  intro fuel
  simp

theorem Walks.trans {middle : SpiralAround} {cells' : List (ℤ × ℤ)}
    (h : Walks center first second spiral cells middle)
    (h' : Walks center first second middle cells' after) :
    Walks center first second spiral (cells ++ cells') after := by
  intro fuel
  rw [length_append, Nat.add_assoc, h, h', Option.map_map]
  simp [Function.comp_def]

theorem walks_of_next
    (h : spiral.next = (some (place center first second cell), after)) :
    Walks center first second spiral [cell] after := by
  intro fuel
  rw [length_singleton, Nat.add_comm, collect, h]
  rfl

theorem fin_of_leg {index : Fin 4} (h : (leg + 4) % 4 = index.val) :
    Fin.ofNat 4 ((leg + 4) % 4).toNat = index := by
  apply Fin.ext
  rw [h, Int.toNat_natCast, Fin.val_ofNat]
  exact Nat.mod_eq_of_lt index.isLt

variable {index : Fin 4}

theorem walks_forward (hindex : (leg + 4) % 4 = index.val) (hlt : legIndex < legSize) :
    Walks center first second (onLeg center first second radius leg legSize legIndex cell)
      [(cell.1 + (planeStep index).1, cell.2 + (planeStep index).2)]
      (onLeg center first second radius leg legSize (legIndex + 1)
        (cell.1 + (planeStep index).1, cell.2 + (planeStep index).2)) := by
  apply walks_of_next
  simp only [next, onLeg, fin_of_leg hindex, relative_place, ge_iff_le, if_neg (not_le.mpr hlt)]

theorem walks_turn (hindex : (leg + 4) % 4 = index.val) (hend : legSize ≤ legIndex)
    (hleg : leg < 4 * radius) :
    Walks center first second (onLeg center first second radius leg legSize legIndex cell)
      [(cell.1 + (planeStep index).1, cell.2 + (planeStep index).2)]
      (onLeg center first second radius (leg + 1) ((leg + 1).tdiv 2 + 1) 1
        (cell.1 + (planeStep index).1, cell.2 + (planeStep index).2)) := by
  apply walks_of_next
  simp only [next, onLeg, fin_of_leg hindex, relative_place, ge_iff_le, if_pos hend,
    if_neg (not_le.mpr hleg)]

/-- Steps that do not reach the end of the leg. -/
theorem walks_straight (hindex : (leg + 4) % 4 = index.val) {n : ℕ} (hle : legIndex + n ≤ legSize) :
    Walks center first second (onLeg center first second radius leg legSize legIndex cell)
      (side (planeStep index).1 (planeStep index).2 cell.1 cell.2 n)
      (onLeg center first second radius leg legSize (legIndex + n)
        (cell.1 + n * (planeStep index).1, cell.2 + n * (planeStep index).2)) := by
  induction n with
  | zero => simpa [side] using Walks.nil
  | succ n ih =>
    rw [side_succ]
    refine (ih (by omega)).trans ?_
    have hlast := @walks_forward center first second radius leg legSize (legIndex + n)
      (cell.1 + n * (planeStep index).1, cell.2 + n * (planeStep index).2) index hindex (by omega)
    dsimp only at hlast
    rw [add_assoc, add_assoc, add_assoc, ← add_one_mul, ← add_one_mul] at hlast
    rw [Nat.cast_succ]
    exact hlast

/-- A whole leg, with the turn at its end. -/
theorem walks_leg {dx dy : ℤ} (hstep : planeStep index = (dx, dy))
    (hindex : (leg + 4) % 4 = index.val) (n : ℕ) (hsize : legSize = n + 1) (hleg : leg < 4 * radius)
    {nextLeg nextSize : ℤ} (hnext : nextLeg = leg + 1) (hpos : 0 ≤ nextLeg)
    (hnextSize : nextSize = nextLeg / 2 + 1) {corner : ℤ × ℤ}
    (hcorner : corner = (cell.1 + (n + 1) * dx, cell.2 + (n + 1) * dy)) :
    Walks center first second (onLeg center first second radius leg legSize 1 cell)
      (side dx dy cell.1 cell.2 (n + 1))
      (onLeg center first second radius nextLeg nextSize 1 corner) := by
  have hstraight := @walks_straight center first second radius leg legSize 1 cell index hindex n
    (by omega)
  have hturn := @walks_turn center first second radius leg legSize (1 + n)
    (cell.1 + n * dx, cell.2 + n * dy) index hindex (by omega) hleg
  rw [hstep] at hstraight hturn
  dsimp only at hturn
  rw [add_assoc, add_assoc, ← add_one_mul, ← add_one_mul, ← hcorner, ← hnext,
    Int.tdiv_eq_ediv_of_nonneg hpos, ← hnextSize] at hturn
  rw [side_succ, ← hcorner]
  exact hstraight.trans hturn

def ringEnd (center : BlockPos) (first second : Direction) (radius m : ℕ) : SpiralAround :=
  onLeg center first second radius (4 * m) (2 * m + 1) (2 * m + 1) (m, -m)

/-- From the end of a ring, a turn, three legs, and the next leg up to the end of the ring. -/
theorem walks_ring {m : ℕ} (hm : m < radius) :
    Walks center first second (ringEnd center first second radius m) (ring (m + 1))
      (ringEnd center first second radius (m + 1)) := by
  have hturn : Walks center first second (ringEnd center first second radius m)
      [((m : ℤ) + 1, -(m : ℤ))]
      (onLeg center first second radius (4 * m + 1) (2 * m + 1) 1 (m + 1, -m)) := by
    have h := @walks_turn center first second radius (4 * m) (2 * m + 1) (2 * m + 1) (m, -m) 0
      (by simp) le_rfl (by omega)
    have hsize : (4 * (m : ℤ) + 1).tdiv 2 + 1 = 2 * m + 1 := by
      rw [Int.tdiv_eq_ediv_of_nonneg (by omega)]
      omega
    rw [hsize] at h
    simpa [planeStep, ringEnd] using h
  have hright : Walks center first second
      (onLeg center first second radius (4 * m + 1) (2 * m + 1) 1 (m + 1, -m))
      (side 0 1 (m + 1) (-m) (2 * m + 1))
      (onLeg center first second radius (4 * m + 2) (2 * m + 2) 1 (m + 1, m + 1)) :=
    @walks_leg center first second radius _ _ _ 1 0 1 rfl (by simp) (2 * m) (by push_cast; rfl)
      (by omega) _ _ (by ring) (by omega) (by omega) _ (Prod.ext (by simp) (by simp; ring))
  have htop : Walks center first second
      (onLeg center first second radius (4 * m + 2) (2 * m + 2) 1 (m + 1, m + 1))
      (side (-1) 0 (m + 1) (m + 1) (2 * m + 1 + 1))
      (onLeg center first second radius (4 * m + 3) (2 * m + 2) 1 (-(m + 1), m + 1)) :=
    @walks_leg center first second radius _ _ _ 2 (-1) 0 rfl (by simp) (2 * m + 1)
      (by push_cast; ring) (by omega) _ _ (by ring) (by omega) (by omega) _
      (Prod.ext (by simp; ring) (by simp))
  have hleft : Walks center first second
      (onLeg center first second radius (4 * m + 3) (2 * m + 2) 1 (-(m + 1), m + 1))
      (side 0 (-1) (-(m + 1)) (m + 1) (2 * m + 1 + 1))
      (onLeg center first second radius (4 * m + 4) (2 * m + 3) 1 (-(m + 1), -(m + 1))) :=
    @walks_leg center first second radius _ _ _ 3 0 (-1) rfl (by simp) (2 * m + 1)
      (by push_cast; ring) (by omega) _ _ (by ring) (by omega) (by omega) _
      (Prod.ext (by simp) (by simp; ring))
  have hbottom : Walks center first second
      (onLeg center first second radius (4 * m + 4) (2 * m + 3) 1 (-(m + 1), -(m + 1)))
      (side 1 0 (-(m + 1)) (-(m + 1)) (2 * (m + 1)))
      (ringEnd center first second radius (m + 1)) := by
    have h := @walks_straight center first second radius (4 * m + 4) (2 * m + 3) 1
      (-(m + 1), -(m + 1)) 0 (by simp) (2 * (m + 1)) (by push_cast; omega)
    have hend : ringEnd center first second radius (m + 1) =
        onLeg center first second radius (4 * m + 4) (2 * m + 3) (1 + (2 * (m + 1) : ℕ))
          (-(m + 1) + (2 * (m + 1) : ℕ) * 1, -(m + 1) + (2 * (m + 1) : ℕ) * 0) := by
      have hleg : 4 * ((m + 1 : ℕ) : ℤ) = 4 * m + 4 := by
        push_cast
        ring
      have hsize : 2 * ((m + 1 : ℕ) : ℤ) + 1 = 2 * m + 3 := by
        push_cast
        ring
      have hindex : 1 + ((2 * (m + 1) : ℕ) : ℤ) = 2 * m + 3 := by
        push_cast
        ring
      have hcorner : -((m : ℤ) + 1) + ((2 * (m + 1) : ℕ) : ℤ) * 1 = ((m + 1 : ℕ) : ℤ) := by
        push_cast
        ring
      rw [ringEnd, hleg, hsize, hindex, hcorner, mul_zero, add_zero, Nat.cast_succ]
    rw [hend]
    exact h
  have hring : ring (m + 1) = [((m : ℤ) + 1, -(m : ℤ))] ++ side 0 1 (m + 1) (-m) (2 * m + 1) ++
      side (-1) 0 (m + 1) (m + 1) (2 * m + 1 + 1) ++
      (side 0 (-1) (-(m + 1)) (m + 1) (2 * m + 1 + 1) ++
        side 1 0 (-(m + 1)) (-(m + 1)) (2 * (m + 1))) := by
    have hlength : 2 * (m + 1) = 2 * m + 1 + 1 := by ring
    have hcorner : -((m : ℤ) + 1) + 1 = -m := by ring
    rw [ring, hlength, side_succ_eq_cons, Nat.cast_succ, hcorner, add_zero]
    rfl
  rw [hring]
  exact ((hturn.trans hright).trans htop).trans (hleft.trans hbottom)

theorem walks_spiral {spiral : SpiralAround} (hstart : Walks center first second spiral [(0, 0)]
    (ringEnd center first second radius 0)) {m : ℕ} (hm : m ≤ radius) :
    Walks center first second spiral (SquareSpiral.spiral m)
      (ringEnd center first second radius m) := by
  induction m with
  | zero => exact hstart
  | succ m ih =>
    rw [spiral_succ]
    exact (ih (by omega)).trans (walks_ring (by omega))

/-- At the end of the last ring the iterator ends. -/
theorem collect_ringEnd (fuel : ℕ) :
    (ringEnd center first second radius radius).collect (fuel + 1) = some [] := by
  simp [collect, next, ringEnd, onLeg]

theorem spiralAround_eq (haxis : first.getAxis ≠ second.getAxis)
    (hradius : 4 * (radius : ℤ) < 2147483648) :
    center.spiralAround radius first second =
      some (onLeg center first second radius (-1) 0 0 (0, 1)) := by
  have hcursor : center.relative second = place center first second (0, 1) := by
    simp [BlockPos.relative, place, BlockPos.offsetBy]
  rw [BlockPos.spiralAround, if_neg (not_lt.mpr (Int.natCast_nonneg radius)), if_neg haxis, hcursor,
    wrapI32_eq_self ⟨by omega, hradius⟩]
  rfl

theorem walks_center : Walks center first second
    (onLeg center first second radius (-1) 0 0 (0, 1)) [(0, 0)]
    (ringEnd center first second radius 0) := by
  have h := @walks_turn center first second radius (-1) 0 0 (0, 1) 3 (by decide) le_rfl (by omega)
  simpa [planeStep, ringEnd] using h

theorem collect_spiralAround {fuel : ℕ} (hfuel : (2 * radius + 1) ^ 2 < fuel) :
    (onLeg center first second radius (-1) 0 0 (0, 1)).collect fuel =
      some ((SquareSpiral.spiral radius).map (place center first second)) := by
  have hwalk := walks_spiral (@walks_center center first second radius) le_rfl
  obtain ⟨rest, rfl⟩ : ∃ rest, fuel = (SquareSpiral.spiral radius).length + (rest + 1) := by
    rw [length_spiral]
    exact ⟨fuel - (2 * radius + 1) ^ 2 - 1, by omega⟩
  rw [hwalk, collect_ringEnd, Option.map_some, append_nil]

end Walk

/-! ### Back in space -/

variable {center : BlockPos} {first second : Direction} {radius : ℕ}

theorem place_eq {cell : ℤ × ℤ} (h : (center.offsetBy first second cell.1 cell.2).InRange) :
    place center first second cell = center.offsetBy first second cell.1 cell.2 := by
  obtain ⟨hx, hy, hz⟩ := h
  simp only [place, wrapI32_eq_self hx, wrapI32_eq_self hy, wrapI32_eq_self hz]

/-- The steps along each axis. -/
theorem offsetBy_sub (a b : ℤ) :
    (center.offsetBy first second a b).x - center.x = a * first.offset.1 + b * second.offset.1 ∧
    (center.offsetBy first second a b).y - center.y =
      a * first.offset.2.1 + b * second.offset.2.1 ∧
    (center.offsetBy first second a b).z - center.z =
      a * first.offset.2.2 + b * second.offset.2.2 := by
  simp only [BlockPos.offsetBy]
  refine ⟨?_, ?_, ?_⟩ <;> ring

/-- Along two axes, the distance from the center is that in the plane. -/
theorem chebyshev_offsetBy (haxis : first.getAxis ≠ second.getAxis) (a b : ℤ) :
    (center.offsetBy first second a b).chebyshev center = SquareSpiral.norm (a, b) := by
  obtain ⟨hx, hy, hz⟩ := @offsetBy_sub center first second a b
  rw [BlockPos.chebyshev, hx, hy, hz, SquareSpiral.norm]
  cases first <;> cases second <;> simp [Direction.getAxis, Direction.offset, max_comm] at haxis ⊢

theorem offsetBy_injective (haxis : first.getAxis ≠ second.getAxis) {a b a' b' : ℤ}
    (h : center.offsetBy first second a b = center.offsetBy first second a' b') :
    (a, b) = (a', b') := by
  obtain ⟨hx, hy, hz⟩ := @offsetBy_sub center first second a b
  obtain ⟨hx', hy', hz'⟩ := @offsetBy_sub center first second a' b'
  rw [h, hx'] at hx
  rw [h, hy'] at hy
  rw [h, hz'] at hz
  cases first <;> cases second <;> simp [Direction.getAxis, Direction.offset]
    at haxis hx hy hz ⊢ <;> simp [hx, hy, hz]

/-- **The spiral visits the square around its center**: every block of it once, never coming closer
to the center, and then it ends. -/
theorem collect_spiral (center : BlockPos) (radius : ℕ) (first second : Direction)
    (haxis : first.getAxis ≠ second.getAxis) (hradius : 4 * (radius : ℤ) < 2147483648)
    (hrange : ∀ a b : ℤ, a.natAbs ≤ radius → b.natAbs ≤ radius →
      (center.offsetBy first second a b).InRange) :
    ∃ spiral positions, center.spiralAround radius first second = some spiral ∧
      (∀ fuel, (2 * radius + 1) ^ 2 < fuel → spiral.collect fuel = some positions) ∧
      positions.length = (2 * radius + 1) ^ 2 ∧ positions.Nodup ∧
      (∀ pos, pos ∈ positions ↔ ∃ a b : ℤ, a.natAbs ≤ radius ∧ b.natAbs ≤ radius ∧
        pos = center.offsetBy first second a b) ∧
      positions.Pairwise fun p q => p.chebyshev center ≤ q.chebyshev center := by
  have hnorm : ∀ cell : ℤ × ℤ, SquareSpiral.norm cell ≤ radius ↔
      cell.1.natAbs ≤ radius ∧ cell.2.natAbs ≤ radius := by
    intro cell
    rw [SquareSpiral.norm]
    omega
  have hplace : ∀ cell ∈ SquareSpiral.spiral radius,
      place center first second cell = center.offsetBy first second cell.1 cell.2 := by
    intro cell hcell
    obtain ⟨ha, hb⟩ := (hnorm cell).mp (mem_spiral.mp hcell)
    exact place_eq (hrange cell.1 cell.2 ha hb)
  refine ⟨_, (SquareSpiral.spiral radius).map (place center first second),
    spiralAround_eq haxis hradius, fun fuel => collect_spiralAround, ?_, ?_, ?_, ?_⟩
  · rw [length_map, length_spiral]
  · refine (nodup_spiral radius).map_on fun cell hcell cell' hcell' heq => ?_
    rw [hplace cell hcell, hplace cell' hcell'] at heq
    exact offsetBy_injective haxis heq
  · intro pos
    rw [mem_map]
    constructor
    · rintro ⟨cell, hcell, rfl⟩
      obtain ⟨ha, hb⟩ := (hnorm cell).mp (mem_spiral.mp hcell)
      exact ⟨cell.1, cell.2, ha, hb, hplace cell hcell⟩
    · rintro ⟨a, b, ha, hb, rfl⟩
      have hcell : (a, b) ∈ SquareSpiral.spiral radius :=
        mem_spiral.mpr ((hnorm (a, b)).mpr ⟨ha, hb⟩)
      exact ⟨(a, b), hcell, hplace (a, b) hcell⟩
  · rw [pairwise_map]
    refine (pairwise_spiral radius).imp_of_mem fun {cell cell'} hcell hcell' hle => ?_
    rw [hplace cell hcell, hplace cell' hcell', chebyshev_offsetBy haxis, chebyshev_offsetBy haxis]
    exact hle

theorem collect_spiral_threeByThree :
    ∃ spiral positions, (⟨0, 64, 0⟩ : BlockPos).spiralAround 1 .east .south = some spiral ∧
      spiral.collect 10 = some positions ∧ positions.length = 9 := by
  obtain ⟨spiral, positions, hspiral, hcollect, hlength, -⟩ :=
    collect_spiral ⟨0, 64, 0⟩ 1 .east .south (by decide) (by decide) (by
      intro a b ha hb
      simp only [BlockPos.InRange, BlockPos.offsetBy, Direction.offset]
      omega)
  exact ⟨spiral, positions, hspiral, hcollect 10 (by decide), hlength⟩

end SpiralAround

end Steel

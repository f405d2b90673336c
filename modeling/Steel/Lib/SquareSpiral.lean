import Mathlib.Algebra.BigOperators.Group.List.Basic
import Mathlib.Data.List.Nodup
import Mathlib.Tactic.Ring

/-!
# Square spirals

The cells of the plane in square rings around the origin, each ring walked side by side.
-/

namespace Steel.SquareSpiral

open List

/-- The distance of a cell from the origin, in king's moves. -/
def norm (cell : ℤ × ℤ) : ℕ := max cell.1.natAbs cell.2.natAbs

/-- The cells that `n` steps from a cell visit. -/
def side (dx dy a b : ℤ) (n : ℕ) : List (ℤ × ℤ) :=
  (List.range n).map fun i : ℕ => (a + (i + 1) * dx, b + (i + 1) * dy)

/-- The cells at a distance, from the corner before the first on. -/
def ring (m : ℕ) : List (ℤ × ℤ) :=
  side 0 1 m (-m) (2 * m) ++ side (-1) 0 m m (2 * m) ++
    (side 0 (-1) (-m) m (2 * m) ++ side 1 0 (-m) (-m) (2 * m))

def spiral (radius : ℕ) : List (ℤ × ℤ) :=
  (0, 0) :: (List.range radius).flatMap fun m => ring (m + 1)

variable {dx dy a b : ℤ} {m n radius : ℕ} {cell : ℤ × ℤ}

theorem side_succ : side dx dy a b (n + 1) =
    side dx dy a b n ++ [(a + (n + 1) * dx, b + (n + 1) * dy)] := by
  rw [side, range_succ, map_append]
  rfl

theorem side_succ_eq_cons :
    side dx dy a b (n + 1) = (a + dx, b + dy) :: side dx dy (a + dx) (b + dy) n := by
  rw [side, range_succ_eq_map, map_cons, map_map, side]
  refine congr_arg₂ _ (by simp) (map_congr_left fun i _ => ?_)
  simp only [Function.comp_apply, Nat.cast_succ, Prod.mk.injEq]
  constructor <;> ring

theorem nodup_side (hmoves : dx ≠ 0 ∨ dy ≠ 0) : (side dx dy a b n).Nodup := by
  refine nodup_range.map fun i j heq => ?_
  obtain ⟨hx, hy⟩ := Prod.mk.inj heq
  have hsteps : ((i : ℤ) + 1 = j + 1) := by
    obtain hdx | hdy := hmoves
    · exact mul_right_cancel₀ hdx (add_left_cancel hx)
    · exact mul_right_cancel₀ hdy (add_left_cancel hy)
  omega

theorem mem_side : cell ∈ side dx dy a b n ↔
    ∃ i : ℕ, i < n ∧ (a + (i + 1) * dx, b + (i + 1) * dy) = cell := by
  simp only [side, mem_map, mem_range]

/-! ### One ring -/

theorem mem_right : cell ∈ side 0 1 m (-m) (2 * m) ↔ cell.1 = m ∧ -m < cell.2 ∧ cell.2 ≤ m := by
  rw [mem_side]
  constructor
  · rintro ⟨i, hi, rfl⟩
    dsimp only
    omega
  · rintro ⟨hx, hlow, hhigh⟩
    exact ⟨(cell.2 + m - 1).toNat, by omega, Prod.ext (by dsimp only; omega) (by dsimp only; omega)⟩

theorem mem_top : cell ∈ side (-1) 0 m m (2 * m) ↔ cell.2 = m ∧ -m ≤ cell.1 ∧ cell.1 < m := by
  rw [mem_side]
  constructor
  · rintro ⟨i, hi, rfl⟩
    dsimp only
    omega
  · rintro ⟨hy, hlow, hhigh⟩
    exact ⟨(m - 1 - cell.1).toNat, by omega, Prod.ext (by dsimp only; omega) (by dsimp only; omega)⟩

theorem mem_left : cell ∈ side 0 (-1) (-m) m (2 * m) ↔ cell.1 = -m ∧ -m ≤ cell.2 ∧ cell.2 < m := by
  rw [mem_side]
  constructor
  · rintro ⟨i, hi, rfl⟩
    dsimp only
    omega
  · rintro ⟨hx, hlow, hhigh⟩
    exact ⟨(m - 1 - cell.2).toNat, by omega, Prod.ext (by dsimp only; omega) (by dsimp only; omega)⟩

theorem mem_bottom : cell ∈ side 1 0 (-m) (-m) (2 * m) ↔
    cell.2 = -m ∧ -m < cell.1 ∧ cell.1 ≤ m := by
  rw [mem_side]
  constructor
  · rintro ⟨i, hi, rfl⟩
    dsimp only
    omega
  · rintro ⟨hy, hlow, hhigh⟩
    exact ⟨(cell.1 + m - 1).toNat, by omega, Prod.ext (by dsimp only; omega) (by dsimp only; omega)⟩

theorem mem_ring : cell ∈ ring m ↔ 0 < m ∧ norm cell = m := by
  rw [ring, mem_append, mem_append, mem_append, mem_right, mem_top, mem_left, mem_bottom, norm]
  omega

theorem nodup_ring (m : ℕ) : (ring m).Nodup := by
  rw [ring, nodup_append, nodup_append, nodup_append]
  refine ⟨⟨nodup_side (by simp), nodup_side (by simp), ?_⟩,
    ⟨nodup_side (by simp), nodup_side (by simp), ?_⟩, ?_⟩
  · rintro cell hcell _ hcell' rfl
    rw [mem_right] at hcell
    rw [mem_top] at hcell'
    omega
  · rintro cell hcell _ hcell' rfl
    rw [mem_left] at hcell
    rw [mem_bottom] at hcell'
    omega
  · rintro cell hcell _ hcell' rfl
    rw [mem_append, mem_right, mem_top] at hcell
    rw [mem_append, mem_left, mem_bottom] at hcell'
    omega

theorem length_ring (m : ℕ) : (ring m).length = 8 * m := by
  simp only [ring, side, length_append, length_map, length_range]
  ring

/-! ### All rings -/

theorem spiral_succ : spiral (radius + 1) = spiral radius ++ ring (radius + 1) := by
  rw [spiral, range_succ, flatMap_append, flatMap_singleton, ← cons_append, spiral]

theorem mem_spiral : cell ∈ spiral radius ↔ norm cell ≤ radius := by
  induction radius with
  | zero =>
    rw [spiral, range_zero, flatMap_nil, mem_singleton, Prod.ext_iff, norm]
    dsimp only
    omega
  | succ radius ih =>
    rw [spiral_succ, mem_append, ih, mem_ring]
    omega

theorem nodup_spiral (radius : ℕ) : (spiral radius).Nodup := by
  induction radius with
  | zero => exact nodup_singleton _
  | succ radius ih =>
    rw [spiral_succ, nodup_append]
    refine ⟨ih, nodup_ring _, ?_⟩
    rintro cell hcell _ hcell' rfl
    rw [mem_spiral] at hcell
    rw [mem_ring] at hcell'
    omega

/-- The walk never comes closer to the origin. -/
theorem pairwise_spiral (radius : ℕ) : (spiral radius).Pairwise (norm · ≤ norm ·) := by
  induction radius with
  | zero => exact pairwise_singleton _ _
  | succ radius ih =>
    rw [spiral_succ, pairwise_append]
    refine ⟨ih, ?_, ?_⟩
    · refine pairwise_of_forall_mem_list fun cell hcell cell' hcell' => ?_
      rw [(mem_ring.mp hcell).2, (mem_ring.mp hcell').2]
    · intro cell hcell cell' hcell'
      rw [mem_spiral] at hcell
      rw [(mem_ring.mp hcell').2]
      omega

theorem length_spiral (radius : ℕ) : (spiral radius).length = (2 * radius + 1) ^ 2 := by
  induction radius with
  | zero => rfl
  | succ radius ih =>
    rw [spiral_succ, length_append, ih, length_ring]
    ring

end Steel.SquareSpiral

import Mathlib.Algebra.Order.Ring.Nat

/-!
# Rectangles under a histogram

A rectangle under a histogram spans the columns from `start` to before `stop` and is as high as no
column between them is too low for. A largest one cannot be raised or widened, so under a histogram
that falls off to both sides it spans the peak.
-/

namespace Steel.Histogram

def Fits (height : ℕ → ℕ) (start stop level : ℕ) : Prop :=
  ∀ i, start ≤ i → i < stop → level ≤ height i

/-- A rectangle of the first `width` columns that no other one exceeds in area. -/
structure IsLargest (height : ℕ → ℕ) (width start stop level : ℕ) : Prop where
  stop_le : stop ≤ width
  fits : Fits height start stop level
  area_le : ∀ start' stop' level', stop' ≤ width → Fits height start' stop' level' →
    level' * (stop' - start') ≤ level * (stop - start)

namespace IsLargest

variable {height : ℕ → ℕ} {width start stop level : ℕ}

theorem pos (h : IsLargest height width start stop level) {peak : ℕ} (hpeak : peak < width)
    (hpos : 0 < height peak) : 0 < level ∧ start < stop := by
  have hsingle : Fits height peak (peak + 1) (height peak) := by
    intro i hle hlt
    rw [show i = peak by omega]
  have harea := h.area_le peak (peak + 1) (height peak) hpeak hsingle
  rw [Nat.add_sub_cancel_left, Nat.mul_one] at harea
  have hproduct : 0 < level * (stop - start) := hpos.trans_le harea
  exact ⟨Nat.pos_of_mul_pos_right hproduct,
    Nat.lt_of_sub_pos (Nat.pos_of_mul_pos_left hproduct)⟩

theorem le_level (h : IsLargest height width start stop level) (hlt : start < stop) {raised : ℕ}
    (hfits : Fits height start stop raised) : raised ≤ level :=
  Nat.le_of_mul_le_mul_right (h.area_le start stop raised h.stop_le hfits) (by omega)

/-- A rectangle beside the peak could be widened up to it. -/
theorem contains_peak (h : IsLargest height width start stop level) {peak : ℕ}
    (hpeak : peak < width) (hpos : 0 < height peak)
    (hleft : ∀ i j, i ≤ j → j ≤ peak → height i ≤ height j)
    (hright : ∀ i j, peak ≤ j → j ≤ i → height i ≤ height j) :
    start ≤ peak ∧ peak < stop := by
  obtain ⟨hlevel, hlt⟩ := h.pos hpeak hpos
  constructor
  · by_contra hbeside
    have hwider : Fits height peak stop level := by
      intro i hle hi
      by_cases hin : start ≤ i
      · exact h.fits i hin hi
      · exact (h.fits start le_rfl hlt).trans (hright start i hle (by omega))
    have := Nat.le_of_mul_le_mul_left (h.area_le peak stop level h.stop_le hwider) hlevel
    omega
  · by_contra hbeside
    have hwider : Fits height start (peak + 1) level := by
      intro i hle hi
      by_cases hin : i < stop
      · exact h.fits i hle hin
      · exact (h.fits (stop - 1) (by omega) (by omega)).trans
          (hleft (stop - 1) i (by omega) (by omega))
    have := Nat.le_of_mul_le_mul_left (h.area_le start (peak + 1) level hpeak hwider) hlevel
    omega

end IsLargest

end Steel.Histogram

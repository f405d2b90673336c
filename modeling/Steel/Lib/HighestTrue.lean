import Mathlib.Algebra.Group.Basic
import Mathlib.Algebra.Group.Int.Defs
import Mathlib.Data.Int.Order.Basic

/-!
# One above the highest place where a property holds

Among the places from `low` on and below `high`, `top` is one above the highest with the property,
or `low` if there is none.
-/

namespace Steel

structure IsTop (property : ℤ → Prop) (low high top : ℤ) : Prop where
  low_le : low ≤ top
  le_high : top ≤ high
  clear : ∀ y, top ≤ y → y < high → ¬ property y
  holds : low < top → property (top - 1)

namespace IsTop

variable {property changed : ℤ → Prop} {low high top y : ℤ}

/-- Only what holds from the place below the top on is seen. -/
theorem congr (h : IsTop property low high top)
    (hsame : ∀ other, top - 1 ≤ other → (changed other ↔ property other)) :
    IsTop changed low high top where
  low_le := h.low_le
  le_high := h.le_high
  clear other hother hhigh := by
    rw [hsame other (by omega)]
    exact h.clear other hother hhigh
  holds hlow := by
    rw [hsame (top - 1) le_rfl]
    exact h.holds hlow

theorem unique {top' : ℤ} (h : IsTop property low high top) (h' : IsTop property low high top') :
    top = top' := by
  obtain hlt | heq | hgt := lt_trichotomy top top'
  · have hlow := h.low_le
    have hhigh := h'.le_high
    exact absurd (h'.holds (by omega)) (h.clear (top' - 1) (by omega) (by omega))
  · exact heq
  · have hlow := h'.low_le
    have hhigh := h.le_high
    exact absurd (h.holds (by omega)) (h'.clear (top - 1) (by omega) (by omega))

variable (hothers : ∀ other, other ≠ y → (changed other ↔ property other))

include hothers

/-- A change below the top is not seen. -/
theorem change_below (h : IsTop property low high top) (hy : y < top - 1) :
    IsTop changed low high top :=
  h.congr fun other hother => hothers other (by omega)

/-- What now holds at the top or above is the new top. -/
theorem raise (h : IsTop property low high top) (hholds : changed y) (hy : top ≤ y + 1)
    (hhigh : y < high) (hlow : low ≤ y) : IsTop changed low high (y + 1) where
  low_le := by omega
  le_high := by omega
  clear other hother hother' := by
    rw [hothers other (by omega)]
    exact h.clear other (by omega) hother'
  holds _ := by rwa [add_sub_cancel_right]

/-- What no longer holds above the top changes nothing. -/
theorem stay (h : IsTop property low high top) (hfails : ¬ changed y) (hy : top ≤ y) :
    IsTop changed low high top where
  low_le := h.low_le
  le_high := h.le_high
  clear other hother hhigh := by
    by_cases heq : other = y
    · exact heq ▸ hfails
    · rw [hothers other heq]
      exact h.clear other hother hhigh
  holds hlow := by
    rw [hothers (top - 1) (by omega)]
    exact h.holds hlow

/-- Where the top one fails, the top is the one below it. -/
theorem lower (h : IsTop property low high (y + 1)) (hfails : ¬ changed y) {below : ℤ}
    (hbelow : IsTop changed low y below) : IsTop changed low high below where
  low_le := hbelow.low_le
  le_high := by
    have := hbelow.le_high
    have := h.le_high
    omega
  clear other hother hhigh := by
    obtain hlt | rfl | hgt := lt_trichotomy other y
    · exact hbelow.clear other hother hlt
    · exact hfails
    · rw [hothers other (by omega)]
      exact h.clear other (by omega) hhigh
  holds := hbelow.holds

end IsTop

end Steel

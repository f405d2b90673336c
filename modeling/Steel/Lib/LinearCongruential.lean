import Mathlib.Data.Nat.ModEq
import Mathlib.Tactic.Ring

/-!
# Linear congruential generators modulo a power of two

For a multiplier that is one modulo four and an odd increment, `2 ^ k` steps modulo `2 ^ (k + 1)`
add `2 ^ k`. So one of two states that are `2 ^ k` steps apart has its highest bit clear. Steps
compose to steps, so that many can be taken at once.
-/

namespace LinearCongruential

open Function

def affine (a c x : ℕ) : ℕ := a * x + c

def step (a c width x : ℕ) : ℕ := affine a c x % 2 ^ width

variable {a c : ℕ}

/-- The coefficients of `2 ^ k` steps: squaring keeps the multiplier close to one, and the increment
gains one factor of two. -/
theorem exists_iterate_affine (ha : a % 4 = 1) (hc : c % 2 = 1) (k : ℕ) :
    ∃ t s, ∀ x, (affine a c)^[2 ^ k] x = (1 + 2 ^ (k + 2) * t) * x + 2 ^ k * (2 * s + 1) := by
  induction k with
  | zero =>
    refine ⟨a / 4, c / 2, fun x => ?_⟩
    have hadiv := Nat.mod_add_div a 4
    have hcdiv := Nat.mod_add_div c 2
    rw [ha] at hadiv
    rw [hc] at hcdiv
    simp only [pow_zero, iterate_one, affine]
    rw [show 1 + 2 ^ (0 + 2) * (a / 4) = a by omega, show 1 * (2 * (c / 2) + 1) = c by omega]
  | succ k ih =>
    obtain ⟨t, s, hiterate⟩ := ih
    refine ⟨t + 2 ^ (k + 1) * t * t, s + 2 ^ k * t * (2 * s + 1), fun x => ?_⟩
    rw [pow_succ, Nat.mul_two, iterate_add_apply, hiterate, hiterate]
    ring

theorem step_mod (a c width x : ℕ) :
    step (a % 2 ^ width) (c % 2 ^ width) width x = step a c width x := by
  have ha : a % 2 ^ width ≡ a [MOD 2 ^ width] := Nat.mod_modEq _ _
  have hc : c % 2 ^ width ≡ c [MOD 2 ^ width] := Nat.mod_modEq _ _
  exact (ha.mul_right x).add hc

/-- Two steps, with coefficients of their own, are one. -/
theorem step_step (b d a c width x : ℕ) :
    step b d width (step a c width x) = step (b * a) (b * c + d) width x := by
  have hinner : step a c width x ≡ affine a c x [MOD 2 ^ width] := Nat.mod_modEq _ _
  have houter : affine b d (affine a c x) = affine (b * a) (b * c + d) x := by
    unfold affine
    ring
  calc step b d width (step a c width x)
      = affine b d (affine a c x) % 2 ^ width := (hinner.mul_left b).add_right d
    _ = step (b * a) (b * c + d) width x := by rw [houter, step]

theorem iterate_step_modEq (width n x : ℕ) :
    (step a c width)^[n] x ≡ (affine a c)^[n] x [MOD 2 ^ width] := by
  induction n with
  | zero => rfl
  | succ n ih =>
    rw [iterate_succ_apply', iterate_succ_apply', step]
    exact (Nat.mod_modEq _ _).trans ((ih.mul_left a).add_right c)

theorem iterate_step_two_pow (ha : a % 4 = 1) (hc : c % 2 = 1) (k x : ℕ) :
    (step a c (k + 1))^[2 ^ k] x % 2 ^ (k + 1) = (x + 2 ^ k) % 2 ^ (k + 1) := by
  obtain ⟨t, s, hiterate⟩ := exists_iterate_affine ha hc k
  have hform : (affine a c)^[2 ^ k] x = x + 2 ^ k + 2 ^ (k + 1) * (2 * t * x + s) := by
    rw [hiterate]
    ring
  rw [iterate_step_modEq (k + 1) (2 ^ k) x, hform, Nat.add_mul_mod_self_left]

/-- A state in the lower half is not further away than `2 ^ k` steps. -/
theorem exists_iterate_step_lt (ha : a % 4 = 1) (hc : c % 2 = 1) (k : ℕ) {x : ℕ}
    (hx : x < 2 ^ (k + 1)) : ∃ n ≤ 2 ^ k, (step a c (k + 1))^[n] x < 2 ^ k := by
  obtain hlow | hhigh := Nat.lt_or_ge x (2 ^ k)
  · exact ⟨0, Nat.zero_le _, hlow⟩
  · refine ⟨2 ^ k, Nat.le_refl _, ?_⟩
    have hmod := iterate_step_two_pow ha hc k x
    have hpos : 0 < 2 ^ k := Nat.pow_pos Nat.two_pos
    obtain ⟨n, hn⟩ := Nat.exists_eq_add_of_lt hpos
    rw [Nat.zero_add] at hn
    have hbound : (step a c (k + 1))^[2 ^ k] x < 2 ^ (k + 1) := by
      rw [hn, iterate_succ_apply', step]
      exact Nat.mod_lt _ (Nat.pow_pos Nat.two_pos)
    rw [Nat.mod_eq_of_lt hbound] at hmod
    rw [hmod]
    rw [pow_succ] at hx ⊢
    rw [Nat.mod_eq_sub_mod (by omega), Nat.mod_eq_of_lt (by omega)]
    omega

end LinearCongruential

import Mathlib.Data.Int.Range
import Mathlib.Order.WellFounded

/-!
# Loops with a bounded number of rounds

A `while` loop of the source is a function that either goes round again, leaves with a result, or
panics. `loop` runs it for a given number of rounds. The two rules are the ones every loop of the
development uses: a result does not depend on how much room was left, and a loop whose rounds keep
an invariant and go down in a well-founded order leaves with a result. A loop that counts goes over
an `Int.range`.
-/

namespace Steel

variable {S R : Type}

/-- What one round of a loop does. -/
inductive Round (S R : Type) where
  | again (next : S)
  | leave (result : R)

/-- Run a loop for at most `fuel` rounds. A panicking round, or running out of rounds, has no
result. -/
def loop (round : S → Option (Round S R)) : ℕ → S → Option R
  | 0, _ => none
  | fuel + 1, state =>
    match round state with
    | none => none
    | some (.again next) => loop round fuel next
    | some (.leave result) => some result

variable {round : S → Option (Round S R)} {state : S}

theorem loop_mono {fuel more : ℕ} {result : R}
    (h : loop round fuel state = some result) (hle : fuel ≤ more) :
    loop round more state = some result := by
  induction fuel generalizing more state with
  | zero => simp [loop] at h
  | succ fuel ih =>
    obtain ⟨more, rfl⟩ : ∃ m, more = m + 1 := ⟨more - 1, by omega⟩
    rw [loop] at h ⊢
    cases hround : round state with
    | none => simp [hround] at h
    | some r =>
      rw [hround] at h
      cases r with
      | again next => exact ih h (by omega)
      | leave result' => exact h

/-- **The loop rule.** Rounds that keep `Inv`, go down in a well-founded order when they go round
again, and establish `Post` when they leave, make a loop that leaves with `Post`. -/
theorem loop_leaves {M : Type} (Inv : S → Prop)
    (Post : R → Prop) (lt : M → M → Prop) (hwf : WellFounded lt) (variant : S → M)
    (hround : ∀ state, Inv state →
      (∃ next, round state = some (.again next) ∧ Inv next ∧ lt (variant next) (variant state)) ∨
      ∃ result, round state = some (.leave result) ∧ Post result)
    (state : S) (hinv : Inv state) : ∃ fuel result, loop round fuel state = some result ∧
      Post result := by
  induction hm : variant state using hwf.induction generalizing state with
  | _ m ih =>
    rcases hround state hinv with ⟨next, hnext, hinv', hlt⟩ | ⟨result, hleave, hpost⟩
    · obtain ⟨fuel, result, hrun, hpost⟩ := ih _ (hm ▸ hlt) next hinv' rfl
      exact ⟨fuel + 1, result, by simp [loop, hnext, hrun], hpost⟩
    · exact ⟨1, result, by simp [loop, hleave], hpost⟩

/-- A `for` loop whose turn does something for its item, and undoes it for no other, has done it for
every item at the end. -/
theorem foldl_visits {A : Type} {step : S → A → S} (Done : S → A → Prop)
    (hdone : ∀ state item, Done (step state item) item)
    (hkeep : ∀ state item other, Done state other → Done (step state item) other)
    (items : List A) (state : S) : ∀ item ∈ items, Done (items.foldl step state) item := by
  induction items generalizing state with
  | nil =>
    intro item hmem
    cases hmem
  | cons first rest ih =>
    intro item hmem
    obtain rfl | hrest := List.mem_cons.mp hmem
    · exact List.foldlRecOn rest step (hdone state item)
        fun reached hreached next _ => hkeep reached next item hreached
    · exact ih (step state first) item hrest

section Range

open List

theorem intRange_eq_cons {a b : ℤ} (h : a < b) : Int.range a b = a :: Int.range (a + 1) b := by
  obtain ⟨n, hn⟩ : ∃ n : ℕ, (b - a).toNat = n + 1 := ⟨(b - a).toNat - 1, by omega⟩
  have hrest : (b - (a + 1)).toNat = n := by omega
  rw [Int.range, Int.range, hn, hrest, range_succ_eq_map, map_cons, map_map]
  refine congrArg₂ _ (by simp) (map_congr_left fun k _ => ?_)
  simp only [Function.comp_apply]
  omega

theorem intRange_eq_nil {a b : ℤ} (h : b ≤ a) : Int.range a b = [] := by
  have hempty : (b - a).toNat = 0 := by omega
  rw [Int.range, hempty, range_zero, map_nil]

theorem pairwise_intRange (a b : ℤ) : (Int.range a b).Pairwise (· < ·) := by
  rw [Int.range, pairwise_map]
  exact pairwise_lt_range.imp fun h => by omega

end Range

end Steel

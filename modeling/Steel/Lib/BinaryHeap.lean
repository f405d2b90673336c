import Mathlib.Data.List.Perm.Basic
import Mathlib.Order.MinMax

/-!
# Binary heaps

A heap is the list of its entries; only the entry that comes first in the order of a key is ever
seen. Entries with equal keys are taken in list order.
-/

namespace Steel.BinaryHeap

variable {α K : Type} [LinearOrder K] (key : α → K)

def pop : List α → Option (α × List α)
  | [] => none
  | a :: rest =>
    match pop rest with
    | none => some (a, [])
    | some (b, others) => if key b < key a then some (b, a :: others) else some (a, rest)

def peek (heap : List α) : Option α := (pop key heap).map Prod.fst

variable {key} {heap others : List α} {first : α}

theorem pop_eq_none_iff : pop key heap = none ↔ heap = [] := by
  cases heap with
  | nil => simp [pop]
  | cons a rest =>
    simp only [pop, reduceCtorEq, iff_false]
    cases pop key rest with
    | none => simp
    | some found =>
      simp only
      split_ifs <;> simp

theorem pop_perm (h : pop key heap = some (first, others)) : (first :: others).Perm heap := by
  induction heap generalizing first others with
  | nil => simp [pop] at h
  | cons a rest ih =>
    rw [pop] at h
    cases hrest : pop key rest with
    | none =>
      rw [pop_eq_none_iff] at hrest
      subst hrest
      simp only [pop, Option.some.injEq, Prod.mk.injEq] at h
      obtain ⟨rfl, rfl⟩ := h
      exact List.Perm.refl _
    | some found =>
      obtain ⟨b, left⟩ := found
      rw [hrest] at h
      simp only at h
      have hperm := ih hrest
      split_ifs at h with hlt
      · obtain ⟨rfl, rfl⟩ := Prod.mk.inj (Option.some.inj h)
        exact (List.Perm.swap a b left).trans (List.Perm.cons a hperm)
      · obtain ⟨rfl, rfl⟩ := Prod.mk.inj (Option.some.inj h)
        exact List.Perm.refl _

theorem peek_eq_some (h : pop key heap = some (first, others)) : peek key heap = some first := by
  rw [peek, h]
  rfl

end Steel.BinaryHeap

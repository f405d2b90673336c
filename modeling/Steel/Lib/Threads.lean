import Mathlib.Logic.Function.Basic

/-!
# A pool of threads

Threads are a function from their names to the stages they are at, and a step moves one of them.
-/

namespace Steel.Threads

open Function

variable {I Stage : Type} [DecidableEq I] {threads : I → Stage} {property : Stage → Prop}
  {mover thread : I} {stage result : Stage}

def Any (threads : I → Stage) (property : Stage → Prop) : Prop :=
  ∃ thread, property (threads thread)

theorem Any.of_update (h : property stage) : Any (Function.update threads mover stage) property :=
  ⟨mover, by rwa [update_self]⟩

theorem Any.update (h : Any threads property) (hmove : property (threads mover) → property stage) :
    Any (Function.update threads mover stage) property := by
  obtain ⟨other, hother⟩ := h
  by_cases heq : other = mover
  · subst heq
    exact .of_update (hmove hother)
  · exact ⟨other, by rwa [update_of_ne heq]⟩

omit [DecidableEq I] in
theorem not_any (hstage : ∀ thread, threads thread = stage) (hproperty : ¬ property stage) :
    ¬ Any threads property := by
  intro ⟨thread, h⟩
  rw [hstage thread] at h
  exact hproperty h

theorem update_cases (h : Function.update threads mover stage thread = result) :
    thread = mover ∧ stage = result ∨ thread ≠ mover ∧ threads thread = result := by
  by_cases heq : thread = mover
  · subst heq
    rw [update_self] at h
    exact Or.inl ⟨rfl, h⟩
  · rw [update_of_ne heq] at h
    exact Or.inr ⟨heq, h⟩

theorem forall_update (predicate : I → Stage → Prop) (hmover : predicate mover stage)
    (hothers : ∀ other, other ≠ mover → predicate other (threads other)) (thread : I) :
    predicate thread (Function.update threads mover stage thread) := by
  by_cases heq : thread = mover
  · subst heq
    rwa [update_self]
  · rw [update_of_ne heq]
    exact hothers thread heq

end Steel.Threads

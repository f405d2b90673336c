import Mathlib.Data.List.Forall2

/-!
# Computations that may fail or panic

A computation ends with a value, with an error, or in a panic. It completes if it does not panic; a
postcondition holds of its value and its errors are allowed.
-/

namespace Steel

open List

variable {ε α β : Type}

/-- Complete without a panic. -/
def Completes (x : ExceptT ε Option α) (post : α → Prop) (allowed : ε → Prop) : Prop :=
  (∃ a, x = some (.ok a) ∧ post a) ∨ ∃ e, x = some (.error e) ∧ allowed e

namespace Completes

variable {x : ExceptT ε Option α} {post : α → Prop} {allowed : ε → Prop}

theorem ok {a : α} (h : post a) : Completes (some (.ok a)) post allowed := .inl ⟨a, rfl, h⟩

theorem error {e : ε} (h : allowed e) :
    Completes (some (.error e) : ExceptT ε Option α) post allowed := .inr ⟨e, rfl, h⟩

theorem mono {post' : α → Prop} (h : Completes x post allowed) (hpost : ∀ a, post a → post' a) :
    Completes x post' allowed := by
  rcases h with ⟨a, rfl, ha⟩ | ⟨e, rfl, he⟩
  · exact ok (hpost a ha)
  · exact error he

theorem bind {f : α → ExceptT ε Option β} {post' : β → Prop} (h : Completes x post allowed)
    (hf : ∀ a, post a → Completes (f a) post' allowed) : Completes (x >>= f) post' allowed := by
  rcases h with ⟨a, rfl, ha⟩ | ⟨e, rfl, he⟩
  · exact hf a ha
  · exact error he

theorem bind_ok {a : α} {f : α → ExceptT ε Option β} {post' : β → Prop}
    (h : Completes (f a) post' allowed) :
    Completes ((some (.ok a) : ExceptT ε Option α) >>= f) post' allowed := h

/-- A loop whose every step keeps an invariant, and what the steps before it brought about. -/
theorem foldlM {step : β → α → ExceptT ε Option β} {invariant : β → Prop} {done : α → β → Prop}
    {items : List α} {start : β} (hstart : invariant start)
    (hstep : ∀ b, invariant b → ∀ item ∈ items, Completes (step b item)
      (fun b' => invariant b' ∧ done item b' ∧ ∀ other, done other b → done other b') allowed) :
    Completes (items.foldlM step start)
      (fun b' => invariant b' ∧ (∀ item ∈ items, done item b') ∧
        ∀ other, done other start → done other b') allowed := by
  induction items generalizing start with
  | nil => exact ok ⟨hstart, fun _ h => absurd h not_mem_nil, fun _ h => h⟩
  | cons item items ih =>
    rw [foldlM_cons]
    refine (hstep start hstart item mem_cons_self).bind fun b hb => ?_
    obtain ⟨hinvariant, hitem, hkept⟩ := hb
    have hrest := ih hinvariant fun b hb other hother =>
      hstep b hb other (mem_cons_of_mem item hother)
    refine hrest.mono fun b' hb' => ?_
    obtain ⟨hinvariant', hitems, hkept'⟩ := hb'
    refine ⟨hinvariant', ?_, fun other hother => hkept' other (hkept other hother)⟩
    intro other hother
    rcases mem_cons.mp hother with rfl | hother
    · exact hkept' other hitem
    · exact hitems other hother

end Completes

end Steel

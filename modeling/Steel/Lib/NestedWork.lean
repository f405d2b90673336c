import Mathlib.Data.List.Basic

/-!
# Nested work

A step of a work item creates further items, and may leave a rest of the item itself. The recursive
execution finishes the created items in order, then the rest, then what was waiting before. Keeping
everything that waits in one list executes the same steps.
-/

namespace Steel.NestedWork

variable {U S : Type}

/-- What a step creates, what it leaves of the item, and the state after it. -/
abbrev Step (U S : Type) := U → S → Option (List U × Option U × S)

/-- The recursive execution of a list of items. -/
inductive Executes (step : Step U S) : List U → S → S → Prop
  | nil (s : S) : Executes step [] s s
  | cons {u : U} {rest created : List U} {remainder : Option U} {s₀ s₁ s₂ s₃ s₄ : S}
      (hstep : step u s₀ = some (created, remainder, s₁))
      (hcreated : Executes step created s₁ s₂)
      (hremainder : Executes step remainder.toList s₂ s₃)
      (hrest : Executes step rest s₃ s₄) : Executes step (u :: rest) s₀ s₄

/-- Steps taken from the front of one list of waiting items. -/
inductive Leads (step : Step U S) : List U → S → List U → S → Prop
  | refl (us : List U) (s : S) : Leads step us s us s
  | step {u : U} {rest created us' : List U} {remainder : Option U} {s₀ s₁ s' : S}
      (hstep : step u s₀ = some (created, remainder, s₁))
      (hrest : Leads step (created ++ remainder.toList ++ rest) s₁ us' s') :
      Leads step (u :: rest) s₀ us' s'

variable {step : Step U S} {us vs : List U} {s s' : S}

theorem executes_append_inv (h : Executes step (us ++ vs) s s') :
    ∃ middle, Executes step us s middle ∧ Executes step vs middle s' := by
  induction us generalizing s with
  | nil => exact ⟨s, Executes.nil s, h⟩
  | cons u us ih =>
    cases h with
    | cons hstep hcreated hremainder hrest =>
      obtain ⟨middle, hus, hvs⟩ := ih hrest
      exact ⟨middle, Executes.cons hstep hcreated hremainder hus, hvs⟩

theorem executes_of_leads (h : Leads step us s [] s') : Executes step us s s' := by
  generalize hdone : ([] : List U) = done at h
  induction h with
  | refl us s =>
    subst hdone
    exact Executes.nil s
  | step hstep _ ih =>
    obtain ⟨s₃, hcreatedRemainder, hrest⟩ := executes_append_inv (ih hdone)
    obtain ⟨s₂, hcreated, hremainder⟩ := executes_append_inv hcreatedRemainder
    exact Executes.cons hstep hcreated hremainder hrest

theorem exists_leads_nil (inv : List U → S → Prop) (measure : List U → S → ℕ)
    (hstep : ∀ u rest s, inv (u :: rest) s → ∃ created remainder s₁,
      step u s = some (created, remainder, s₁) ∧ inv (created ++ remainder.toList ++ rest) s₁ ∧
        measure (created ++ remainder.toList ++ rest) s₁ < measure (u :: rest) s)
    (h : inv us s) : ∃ s', Leads step us s [] s' := by
  induction hmeasure : measure us s using Nat.strongRecOn generalizing us s with
  | ind n ih =>
    cases us with
    | nil => exact ⟨s, Leads.refl [] s⟩
    | cons u rest =>
      obtain ⟨created, remainder, s₁, hstepped, hinv, hlt⟩ := hstep u rest s h
      obtain ⟨s', hleads⟩ := ih _ (hmeasure ▸ hlt) hinv rfl
      exact ⟨s', Leads.step hstepped hleads⟩

theorem Leads.induct (inv : List U → S → Prop)
    (hstep : ∀ u rest s created remainder s₁, inv (u :: rest) s →
      step u s = some (created, remainder, s₁) → inv (created ++ remainder.toList ++ rest) s₁)
    (h : Leads step us s vs s') (hinv : inv us s) : inv vs s' := by
  induction h with
  | refl us s => exact hinv
  | step hstepped _ ih => exact ih (hstep _ _ _ _ _ _ hinv hstepped)

end Steel.NestedWork

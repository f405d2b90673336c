import Mathlib.Init

/-!
# Readers that are fed one item at a time

A reader takes items until it has a result. Feeding a list leaves the reader waiting, or gives the
result and what was not needed for it.
-/

namespace Steel

variable {S B R : Type} {feed : S → B → S ⊕ R}

def feedAll (feed : S → B → S ⊕ R) : S → List B → S ⊕ (R × List B)
  | state, [] => .inl state
  | state, item :: rest =>
    match feed state item with
    | .inl next => feedAll feed next rest
    | .inr result => .inr (result, rest)

variable {state : S}

theorem feedAll_cons_inl {next : S} {item : B} (h : feed state item = .inl next)
    (rest : List B) : feedAll feed state (item :: rest) = feedAll feed next rest := by
  rw [feedAll, h]

theorem feedAll_cons_inr {item : B} {result : R} (h : feed state item = .inr result)
    (rest : List B) : feedAll feed state (item :: rest) = .inr (result, rest) := by
  rw [feedAll, h]

theorem feedAll_append {next : S} {items : List B} (h : feedAll feed state items = .inl next)
    (more : List B) : feedAll feed state (items ++ more) = feedAll feed next more := by
  induction items generalizing state with
  | nil =>
    cases h
    rfl
  | cons item rest ih =>
    rw [List.cons_append]
    cases hitem : feed state item with
    | inl middle =>
      rw [feedAll_cons_inl hitem] at h ⊢
      exact ih h
    | inr result =>
      rw [feedAll_cons_inr hitem] at h
      cases h

end Steel

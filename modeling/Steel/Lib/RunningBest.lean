import Mathlib.Data.Set.Insert

/-!
# The best of a list, found in one pass

A pass over a list keeps the best element so far: one of a higher order replaces it, and among
elements of the same order a preferred one replaces one that is not. The order of the list and
repetitions do not matter for the order of the result and for whether it is preferred.
-/

namespace Steel

variable {α κ : Type} [LinearOrder κ] (order : α → κ) (preferred : α → Bool)

def keepBest (best : Option α) (candidate : α) : Option α :=
  match best with
  | none => some candidate
  | some current =>
    if order current < order candidate then some candidate
    else if order candidate = order current ∧ preferred current = false ∧
        preferred candidate = true then some candidate
    else some current

/-- No candidate has a higher order, and none of the same order is preferred to it. -/
structure IsBest (candidates : Set α) (best : α) : Prop where
  mem : best ∈ candidates
  order_le : ∀ candidate ∈ candidates, order candidate ≤ order best
  preferred : ∀ candidate ∈ candidates, order candidate = order best →
    preferred candidate = true → preferred best = true

variable {order preferred}

theorem IsBest.singleton (candidate : α) : IsBest order preferred {candidate} candidate where
  mem := rfl
  order_le := by
    rintro _ rfl
    exact le_rfl
  preferred := by
    rintro _ rfl _ h
    exact h

variable {best : α}

theorem IsBest.keepBest {candidates : Set α} (h : IsBest order preferred candidates best)
    (candidate : α) : ∃ next, Steel.keepBest order preferred (some best) candidate = some next ∧
      IsBest order preferred (candidates ∪ {candidate}) next := by
  rw [Steel.keepBest]
  split_ifs with hlt htie
  · refine ⟨candidate, rfl, .inr rfl, ?_, ?_⟩
    · rintro other (hother | rfl)
      · exact (h.order_le other hother).trans hlt.le
      · exact le_rfl
    · rintro other (hother | rfl) heq hpreferred
      · exact absurd (h.order_le other hother) (by rw [heq]; exact not_le.mpr hlt)
      · exact hpreferred
  · obtain ⟨heq, _, hpreferred⟩ := htie
    refine ⟨candidate, rfl, .inr rfl, ?_, fun _ _ _ _ => hpreferred⟩
    rintro other (hother | rfl)
    · exact (h.order_le other hother).trans heq.ge
    · exact le_rfl
  · refine ⟨best, rfl, .inl h.mem, ?_, ?_⟩
    · rintro other (hother | rfl)
      · exact h.order_le other hother
      · exact not_lt.mp hlt
    · rintro other (hother | rfl) heq hpreferred
      · exact h.preferred other hother heq hpreferred
      · by_contra hbest
        exact htie ⟨heq, by simpa using hbest, hpreferred⟩

theorem foldl_keepBest_some {candidates : Set α}
    (h : IsBest order preferred candidates best) (rest : List α) :
    ∃ last, rest.foldl (keepBest order preferred) (some best) = some last ∧
      IsBest order preferred (candidates ∪ {candidate | candidate ∈ rest}) last := by
  induction rest generalizing candidates best with
  | nil => exact ⟨best, rfl, by simpa using h⟩
  | cons candidate rest ih =>
    obtain ⟨next, hnext, hbest⟩ := h.keepBest candidate
    obtain ⟨last, hlast, hall⟩ := ih hbest
    refine ⟨last, ?_, ?_⟩
    · rw [List.foldl_cons, hnext, hlast]
    · have hset : candidates ∪ {candidate} ∪ {other | other ∈ rest} =
          candidates ∪ {other | other ∈ candidate :: rest} := by
        ext other
        simp only [Set.mem_union, Set.mem_singleton_iff, Set.mem_ofPred_eq, List.mem_cons, or_assoc]
      rwa [hset] at hall

theorem isBest_of_foldl_keepBest {candidates : List α}
    (h : candidates.foldl (keepBest order preferred) none = some best) :
    IsBest order preferred {candidate | candidate ∈ candidates} best := by
  cases candidates with
  | nil => cases h
  | cons candidate rest =>
    have hfirst : IsBest order preferred {candidate} candidate := .singleton candidate
    obtain ⟨last, hlast, hall⟩ := foldl_keepBest_some hfirst rest
    rw [List.foldl_cons, keepBest, hlast, Option.some.injEq] at h
    subst h
    have hset : ({candidate} ∪ {other | other ∈ rest} : Set α) =
        {other | other ∈ candidate :: rest} := by
      ext other
      simp
    rwa [hset] at hall

theorem foldl_keepBest_eq_none {candidates : List α} :
    candidates.foldl (keepBest order preferred) none = none ↔ candidates = [] := by
  cases candidates with
  | nil => simp
  | cons candidate rest =>
    have hfirst : IsBest order preferred {candidate} candidate := .singleton candidate
    obtain ⟨last, hlast, _⟩ := foldl_keepBest_some hfirst rest
    simp [keepBest, hlast]

end Steel

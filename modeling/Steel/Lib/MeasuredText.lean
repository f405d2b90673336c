import Mathlib.Data.List.Basic

/-!
# Positions in texts of units

The items of a text take some units each, and positions count units. A position lies on a boundary
if it is the length of a start of the text.
-/

namespace Steel.MeasuredText

variable {τ : Type} (size : τ → ℕ)

def lengthBy : List τ → ℕ
  | [] => 0
  | item :: rest => size item + lengthBy rest

/-- Split a text at a position, unless it lies inside an item or behind the end. -/
def splitAt : List τ → ℕ → Option (List τ × List τ)
  | text, 0 => some ([], text)
  | [], _ + 1 => none
  | item :: rest, position + 1 =>
    if position + 1 < size item then none
    else (splitAt rest (position + 1 - size item)).map fun parts => (item :: parts.1, parts.2)

def OnBoundary (text : List τ) (position : ℕ) : Prop :=
  ∃ before after, text = before ++ after ∧ lengthBy size before = position

variable {size}

@[simp]
theorem lengthBy_nil : lengthBy size [] = 0 := rfl

@[simp]
theorem lengthBy_cons (item : τ) (text : List τ) :
    lengthBy size (item :: text) = size item + lengthBy size text := rfl

@[simp]
theorem lengthBy_append (first second : List τ) :
    lengthBy size (first ++ second) = lengthBy size first + lengthBy size second := by
  induction first with
  | nil => rw [List.nil_append, lengthBy_nil, Nat.zero_add]
  | cons item first ih => rw [List.cons_append, lengthBy_cons, ih, lengthBy_cons, Nat.add_assoc]

variable {before after before' after' text : List τ} {position : ℕ}

theorem lengthBy_eq_zero_iff (hsize : ∀ item, 0 < size item) :
    lengthBy size text = 0 ↔ text = [] := by
  cases text with
  | nil => simp
  | cons item text =>
    have hitem := hsize item
    simp only [lengthBy_cons, reduceCtorEq, iff_false]
    omega

/-- The earlier of two starts is a start of the later one. -/
theorem exists_append_of_le (hsize : ∀ item, 0 < size item)
    (h : before ++ after = before' ++ after') (hle : lengthBy size before ≤ lengthBy size before') :
    ∃ middle, before' = before ++ middle ∧ after = middle ++ after' := by
  rcases List.append_eq_append_iff.mp h with ⟨middle, hbefore, hafter⟩ | ⟨middle, hbefore, hafter⟩
  · exact ⟨middle, hbefore, hafter⟩
  · have hempty : middle = [] := by
      apply (lengthBy_eq_zero_iff hsize).mp
      rw [hbefore, lengthBy_append] at hle
      omega
    subst hempty
    exact ⟨[], by simpa using hbefore.symm, by simpa using hafter.symm⟩

theorem splitAt_append (hsize : ∀ item, 0 < size item) (before after : List τ) :
    splitAt size (before ++ after) (lengthBy size before) = some (before, after) := by
  induction before with
  | nil =>
    rw [List.nil_append, lengthBy_nil]
    cases after <;> rfl
  | cons item before ih =>
    have hitem := hsize item
    obtain ⟨position, hposition⟩ : ∃ position, lengthBy size (item :: before) = position + 1 :=
      ⟨size item + lengthBy size before - 1, by rw [lengthBy_cons]; omega⟩
    have hrest : position + 1 - size item = lengthBy size before := by
      rw [← hposition, lengthBy_cons]
      omega
    have hfits : ¬position + 1 < size item := by
      rw [← hposition, lengthBy_cons]
      omega
    rw [hposition, List.cons_append, splitAt, if_neg hfits, hrest, ih]
    rfl

theorem splitAt_eq_some (h : splitAt size text position = some (before, after)) :
    text = before ++ after ∧ lengthBy size before = position := by
  induction text generalizing position before with
  | nil =>
    cases position with
    | zero =>
      cases h
      exact ⟨rfl, rfl⟩
    | succ position => cases h
  | cons item text ih =>
    cases position with
    | zero =>
      cases h
      exact ⟨rfl, rfl⟩
    | succ position =>
      rw [splitAt] at h
      split_ifs at h with hfits
      obtain ⟨⟨start, rest⟩, hsplit, heq⟩ := Option.map_eq_some_iff.mp h
      cases heq
      obtain ⟨htext, hlength⟩ := ih hsplit
      refine ⟨by rw [htext]; rfl, ?_⟩
      rw [lengthBy_cons, hlength]
      omega

theorem onBoundary_iff (hsize : ∀ item, 0 < size item) :
    OnBoundary size text position ↔ (splitAt size text position).isSome = true := by
  constructor
  · rintro ⟨before, after, rfl, rfl⟩
    rw [splitAt_append hsize]
    rfl
  · intro h
    obtain ⟨⟨before, after⟩, hsplit⟩ := Option.isSome_iff_exists.mp h
    exact ⟨before, after, splitAt_eq_some hsplit⟩

end Steel.MeasuredText

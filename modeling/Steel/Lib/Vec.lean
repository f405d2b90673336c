import Mathlib.Data.List.Basic
import Mathlib.Order.MinMax

/-!
# Growable arrays

The vector operations of the source that a list does not have. Removal by swapping with the last
element keeps the elements and not their order.
-/

namespace Steel.Vec

open List

variable {α : Type} {xs : List α} {index : ℕ}

theorem exists_split {x : α} (h : xs[index]? = some x) :
    ∃ before after, xs = before ++ x :: after ∧ xs.eraseIdx index = before ++ after ∧
      ∀ f, xs.modify index f = before ++ f x :: after := by
  obtain ⟨hlt, rfl⟩ := List.getElem?_eq_some_iff.mp h
  refine ⟨xs.take index, xs.drop (index + 1), ?_, eraseIdx_eq_take_drop_succ .., ?_⟩
  · rw [← drop_eq_getElem_cons hlt, take_append_drop]
  · intro f
    exact modify_eq_take_cons_drop hlt

variable {β : Type}

theorem mapM_eq_map {f : α → Option β} {g : α → β} {l : List α}
    (h : ∀ a ∈ l, f a = some (g a)) : l.mapM f = some (l.map g) := by
  induction l with
  | nil => rfl
  | cons a l ih =>
    rw [mapM_cons, h a mem_cons_self, ih fun b hb => h b (mem_cons_of_mem _ hb)]
    rfl

variable {f : α → List β} {length : ℕ}

theorem getElem?_flatMap
    (hlength : ∀ x ∈ xs, (f x).length = length) (i : ℕ) {j : ℕ} (hj : j < length) :
    (xs.flatMap f)[i * length + j]? = xs[i]?.bind fun x => (f x)[j]? := by
  induction xs generalizing i with
  | nil => simp
  | cons x xs ih =>
    have hx := hlength x mem_cons_self
    rw [flatMap_cons]
    cases i with
    | zero =>
      rw [Nat.zero_mul, Nat.zero_add, List.getElem?_append_left (by omega)]
      rfl
    | succ i =>
      have hsub : (i + 1) * length + j - (f x).length = i * length + j := by
        rw [hx, Nat.succ_mul]
        omega
      rw [List.getElem?_append_right (by rw [hx, Nat.succ_mul]; omega), hsub,
        ih (fun y hy => hlength y (mem_cons_of_mem _ hy)), List.getElem?_cons_succ]

/-- Remove the element at `index`, putting the last element in its place. -/
def swapRemove (xs : List α) (index : ℕ) : List α :=
  match xs.getLast? with
  | none => []
  | some last => (xs.set index last).dropLast

theorem swapRemove_perm {removed : α}
    (h : xs[index]? = some removed) : (removed :: swapRemove xs index).Perm xs := by
  rcases eq_nil_or_concat xs with rfl | ⟨init, last, rfl⟩
  · simp at h
  · have hswap :
        swapRemove (init ++ [last]) index = ((init ++ [last]).set index last).dropLast := by
      simp [swapRemove]
    rw [concat_eq_append] at h ⊢
    rw [hswap]
    by_cases hlt : index < init.length
    · -- the last element moves into the gap
      rw [List.getElem?_append_left hlt] at h
      obtain ⟨hbound, hget⟩ := List.getElem?_eq_some_iff.mp h
      rw [set_append_left _ _ hlt, dropLast_concat, set_eq_take_append_cons_drop,
        if_pos hlt]
      have hinit : init = init.take index ++ removed :: init.drop (index + 1) := by
        rw [← hget, getElem_cons_drop, take_append_drop]
      have hmove : (removed :: (init.take index ++ last :: init.drop (index + 1))).Perm
          (init.take index ++ removed :: init.drop (index + 1) ++ [last]) := by
        refine (List.Perm.cons removed perm_middle).trans ?_
        refine (List.Perm.swap last removed _).trans ?_
        refine (List.Perm.cons last perm_middle.symm).trans ?_
        exact (perm_append_singleton last _).symm
      rw [← hinit] at hmove
      exact hmove
    · -- the removed element is the last one
      have hindex : index = init.length := by
        have := (List.getElem?_eq_some_iff.mp h).1
        simp at this
        omega
      subst hindex
      have hremoved : last = removed := by simpa using h
      subst hremoved
      have hset : (init ++ [last]).set init.length last = init ++ [last] := by simp
      rw [hset, dropLast_concat]
      exact (perm_append_singleton last init).symm

theorem take_drop_flatMap (xs : List α)
    (hlength : ∀ x, (f x).length = length) {x : α} (hx : xs[index]? = some x) :
    ((xs.flatMap f).drop (length * index)).take length = f x := by
  induction xs generalizing index with
  | nil => simp at hx
  | cons first rest ih =>
    rw [flatMap_cons]
    cases index with
    | zero =>
      obtain rfl := Option.some.inj hx
      rw [Nat.mul_zero, drop_zero, ← hlength first, take_left]
    | succ index =>
      rw [Nat.mul_succ, Nat.add_comm, ← drop_drop, drop_left' (hlength first)]
      exact ih hx

theorem length_flatMap_const (xs : List α)
    (hlength : ∀ x, (f x).length = length) : (xs.flatMap f).length = xs.length * length := by
  induction xs with
  | nil => simp
  | cons first rest ih =>
    rw [flatMap_cons, length_append, ih, hlength, length_cons, Nat.succ_mul,
      Nat.add_comm]

instance lawfulOrderMin [LinearOrder α] : Std.LawfulOrderMin α where
  min_eq_or a b := min_choice a b
  le_min_iff _ _ _ := le_min_iff

theorem flatMap_ite (p : α → Prop) [DecidablePred p] (f : α → List β) (xs : List α) :
    xs.flatMap (fun a => if p a then f a else []) = (xs.filter p).flatMap f := by
  induction xs with
  | nil => rfl
  | cons a xs ih =>
    by_cases ha : p a
    · rw [flatMap_cons, if_pos ha, ih, filter_cons_of_pos (by simpa using ha), flatMap_cons]
    · rw [flatMap_cons, if_neg ha, ih, filter_cons_of_neg (by simpa using ha), nil_append]

theorem min?_congr [LinearOrder α] {ys : List α} (h : ∀ a, a ∈ xs ↔ a ∈ ys) :
    xs.min? = ys.min? := by
  cases hx : xs.min? with
  | none =>
    rw [List.min?_eq_none_iff] at hx
    subst hx
    have hys : ys = [] := eq_nil_iff_forall_not_mem.mpr fun a ha => by
      simpa using (h a).mpr ha
    simp [hys]
  | some least =>
    rw [List.min?_eq_some_iff] at hx
    symm
    rw [List.min?_eq_some_iff]
    exact ⟨(h _).mp hx.1, fun b hb => hx.2 b ((h b).mpr hb)⟩

end Steel.Vec

import Mathlib.Algebra.BigOperators.Group.List.Lemmas
import Mathlib.Algebra.GroupWithZero.Nat
import Mathlib.Data.List.Count
import Steel.Lib.KeyedList

/-!
# Lists of counts

A list of elements with their counts stands for a function to the natural numbers that is not zero
at the listed elements only. Counts are changed in place, appended, and swapped out when they reach
zero.
-/

namespace Steel.CountList

open Function List

variable {α : Type} [DecidableEq α] {entries : List (α × ℕ)} {counts : α → ℕ}

/-- Every element with a positive count is listed once, with its count. -/
structure Lists (entries : List (α × ℕ)) (counts : α → ℕ) : Prop where
  distinct : KeyedList.Distinct Prod.fst entries
  find : ∀ a, KeyedList.find Prod.fst entries a =
    if counts a = 0 then none else some (a, counts a)

theorem lists_nil : Lists [] fun _ : α => 0 := ⟨nodup_nil, fun _ => rfl⟩

variable {a : α} {n : ℕ}

theorem Lists.mem_iff (h : Lists entries counts) :
    (a, n) ∈ entries ↔ 0 < n ∧ counts a = n := by
  have hfind := KeyedList.find_eq_some_iff h.distinct (k := a) (x := (a, n))
  rw [h.find] at hfind
  constructor
  · intro hmem
    have heq := hfind.mpr ⟨hmem, rfl⟩
    split_ifs at heq with hzero
    obtain rfl := (Prod.mk.inj (Option.some.inj heq)).2
    exact ⟨Nat.pos_of_ne_zero hzero, rfl⟩
  · rintro ⟨hpos, rfl⟩
    exact (hfind.mp (if_neg hpos.ne')).1

variable {index : ℕ}

theorem Lists.count_of_getElem? (h : Lists entries counts)
    (hentry : entries[index]? = some (a, n)) : 0 < n ∧ counts a = n :=
  h.mem_iff.mp (mem_of_getElem? hentry)

theorem Lists.modify (h : Lists entries counts) {m : ℕ}
    (hentry : entries[index]? = some (a, n)) {f : α × ℕ → α × ℕ} (hf : f (a, n) = (a, m))
    (hpos : 0 < m) : Lists (entries.modify index f) (Function.update counts a m) := by
  obtain ⟨hdistinct, hfind⟩ := KeyedList.modify h.distinct hentry (f := f) (by rw [hf])
  refine ⟨hdistinct, ?_⟩
  intro b
  rw [hfind, update_apply, update_apply, hf, h.find]
  by_cases heq : b = a
  · rw [if_pos heq, if_pos heq, if_neg hpos.ne', heq]
  · rw [if_neg heq, if_neg heq]

theorem Lists.push (h : Lists entries counts) (hzero : counts a = 0)
    (hpos : 0 < n) : Lists (entries ++ [(a, n)]) (Function.update counts a n) := by
  obtain ⟨hdistinct, hfind⟩ :=
    KeyedList.push h.distinct (x := (a, n)) (by rw [h.find, if_pos hzero])
  refine ⟨hdistinct, ?_⟩
  intro b
  rw [hfind, update_apply, update_apply, h.find]
  by_cases heq : b = a
  · rw [if_pos heq, if_pos heq, if_neg hpos.ne', heq]
  · rw [if_neg heq, if_neg heq]

theorem Lists.modify_swapRemove (h : Lists entries counts) {m : ℕ}
    (hentry : entries[index]? = some (a, n)) {f : α × ℕ → α × ℕ} (hf : f (a, n) = (a, m)) :
    Lists (Vec.swapRemove (entries.modify index f) index) (Function.update counts a 0) := by
  obtain ⟨hdistinct, hfind⟩ := KeyedList.modify h.distinct hentry (f := f) (by rw [hf])
  have hentry' : (entries.modify index f)[index]? = some (a, m) := by
    rw [getElem?_modify_eq, hentry, ← hf]
    rfl
  obtain ⟨hdistinct', hfind'⟩ := KeyedList.swapRemove hdistinct hentry'
  refine ⟨hdistinct', ?_⟩
  intro b
  rw [hfind', hfind, update_apply, update_apply, update_apply, h.find]
  by_cases heq : b = a
  · rw [if_pos heq, if_pos heq, if_pos rfl]
  · rw [if_neg heq, if_neg heq, if_neg heq]

theorem Lists.congr (h : Lists entries counts) {counts' : α → ℕ} (heq : ∀ a, counts' a = counts a) :
    Lists entries counts' := by
  rw [funext heq]
  exact h

/-- The counts of the listed elements with a property add up to the elements counted that have
it. -/
theorem Lists.sum_filter {values : List α} (h : Lists entries fun a => values.count a)
    (property : α → Bool) :
    ((entries.filter fun entry => property entry.1).map Prod.snd).sum =
      values.countP property := by
  have hcounts : ∀ entry ∈ entries, entry.2 = values.count entry.1 := fun entry hentry =>
    (h.mem_iff.mp hentry).2.symm
  have hmem : ∀ a, a ∈ entries.map Prod.fst ↔ a ∈ values.dedup := by
    intro a
    rw [mem_dedup, mem_map, ← count_pos_iff]
    constructor
    · rintro ⟨entry, hentry, rfl⟩
      rw [← hcounts entry hentry]
      exact (h.mem_iff.mp hentry).1
    · intro hpos
      exact ⟨(a, values.count a), h.mem_iff.mpr ⟨hpos, rfl⟩, rfl⟩
  have hperm : (entries.map Prod.fst).Perm values.dedup :=
    (perm_ext_iff_of_nodup h.distinct (nodup_dedup values)).mpr hmem
  have hmap : (entries.filter fun entry => property entry.1).map Prod.snd =
      ((entries.map Prod.fst).filter property).map fun a => values.count a := by
    rw [filter_map, map_map]
    exact map_congr_left fun entry hentry => hcounts entry (mem_of_mem_filter hentry)
  rw [hmap, ((hperm.filter property).map _).sum_eq, sum_map_count_dedup_filter_eq_countP]

theorem count_map_update {ι : Type} [DecidableEq ι] {indices : List ι} (hnodup : indices.Nodup)
    {i : ι} (hi : i ∈ indices) (f : ι → α) (a b : α) :
    (indices.map (Function.update f i a)).count b + (if f i = b then 1 else 0) =
      (indices.map f).count b + if a = b then 1 else 0 := by
  induction indices with
  | nil => cases hi
  | cons first rest ih =>
    obtain ⟨hfirst, hrest⟩ := nodup_cons.mp hnodup
    rw [map_cons, map_cons, count_cons, count_cons]
    simp only [beq_iff_eq]
    by_cases heq : first = i
    · subst heq
      have hsame : rest.map (Function.update f first a) = rest.map f :=
        map_congr_left fun j hj => update_of_ne (fun h : j = first => hfirst (h ▸ hj)) _ _
      rw [hsame, update_self]
      omega
    · have hmem : i ∈ rest := (mem_cons.mp hi).resolve_left (Ne.symm heq)
      have hstep := ih hrest hmem
      rw [update_of_ne heq]
      omega

end Steel.CountList

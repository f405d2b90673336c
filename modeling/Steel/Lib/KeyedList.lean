import Mathlib.Data.List.Nodup
import Steel.Lib.Vec

/-!
# Lists with distinct keys

A list whose elements have distinct keys is a finite map, whatever the order of its elements. The
operations that vectors offer are updates of that map.
-/

namespace Steel.KeyedList

open List Function

variable {α κ : Type} [DecidableEq κ] {key : α → κ}

def find (key : α → κ) (xs : List α) (k : κ) : Option α := xs.find? fun x => key x = k

def Distinct (key : α → κ) (xs : List α) : Prop := (xs.map key).Nodup

theorem find_cons (x : α) (xs : List α) (k : κ) :
    find key (x :: xs) k = if key x = k then some x else find key xs k := by
  unfold find
  rw [List.find?_cons]
  by_cases heq : key x = k
  · simp [heq]
  · simp [heq]

variable {xs : List α} {k : κ}

theorem find_eq_none_iff : find key xs k = none ↔ ∀ x ∈ xs, key x ≠ k := by
  simp [find]

variable {index : ℕ}

theorem getElem?_of_findIdx?
    (h : xs.findIdx? (fun x => key x = k) = some index) :
    ∃ x, xs[index]? = some x ∧ key x = k := by
  obtain ⟨hlt, hkey, -⟩ := List.findIdx?_eq_some_iff_getElem.mp h
  exact ⟨xs[index], List.getElem?_eq_getElem hlt, by simpa using hkey⟩

theorem find_of_findIdx?_eq_none
    (h : xs.findIdx? (fun x => key x = k) = none) : find key xs k = none := by
  rw [List.findIdx?_eq_none_iff] at h
  rw [find_eq_none_iff]
  intro x hx
  simpa using h x hx

variable {x : α}

omit [DecidableEq κ] in
theorem Distinct.eq_of_mem (h : Distinct key xs) {y : α} (hx : x ∈ xs) (hy : y ∈ xs)
    (heq : key x = key y) : x = y := inj_on_of_nodup_map h hx hy heq

theorem find_eq_some_iff (h : Distinct key xs) :
    find key xs k = some x ↔ x ∈ xs ∧ key x = k := by
  constructor
  · intro hfind
    have hkey := List.find?_some hfind
    exact ⟨mem_of_find?_eq_some hfind, by simpa using hkey⟩
  · rintro ⟨hx, rfl⟩
    cases hfind : find key xs (key x) with
    | none => exact absurd rfl (find_eq_none_iff.mp hfind x hx)
    | some y =>
      have hkey : key y = key x := by simpa using List.find?_some hfind
      rw [h.eq_of_mem (mem_of_find?_eq_some hfind) hx hkey]

theorem Distinct.filter_eq (h : Distinct key xs) (hx : x ∈ xs) :
    (xs.filter fun y => key y = key x) = [x] := by
  induction xs with
  | nil => cases hx
  | cons y ys ih =>
    obtain ⟨hfirst, hrest⟩ := nodup_cons.mp h
    rcases mem_cons.mp hx with rfl | hmem
    · rw [filter_cons_of_pos (by simp), filter_eq_nil_iff.mpr]
      intro z hz
      rw [decide_eq_true_eq]
      exact fun heq => hfirst (mem_map.mpr ⟨z, hz, heq⟩)
    · have hne : key y ≠ key x := fun heq => hfirst (mem_map.mpr ⟨x, hmem, heq.symm⟩)
      rw [filter_cons_of_neg (by simp [hne])]
      exact ih hrest hmem

omit [DecidableEq κ] in
theorem Distinct.perm {ys : List α} (h : Distinct key xs) (hperm : xs.Perm ys) :
    Distinct key ys := (hperm.map key).nodup_iff.mp h

theorem find_perm {ys : List α} (h : Distinct key xs) (hperm : xs.Perm ys) :
    find key xs = find key ys := by
  funext k
  ext x
  rw [find_eq_some_iff h, find_eq_some_iff (h.perm hperm), hperm.mem_iff]

theorem find_cons_eq_update (x y : α) (xs : List α) (hkey : key y = key x) :
    find key (y :: xs) = update (find key (x :: xs)) (key x) (some y) := by
  funext k
  rw [find_cons, update_apply, find_cons, hkey]
  by_cases heq : key x = k
  · rw [if_pos heq, if_pos heq.symm]
  · rw [if_neg heq, if_neg (Ne.symm heq), if_neg heq]

theorem find_tail_eq_update (h : Distinct key (x :: xs)) :
    find key xs = update (find key (x :: xs)) (key x) none := by
  funext k
  rw [update_apply, find_cons]
  by_cases heq : k = key x
  · rw [if_pos heq, heq, find_eq_none_iff]
    intro y hy hsame
    exact (nodup_cons.mp h).1 (mem_map.mpr ⟨y, hy, hsame⟩)
  · rw [if_neg heq, if_neg (Ne.symm heq)]

theorem push (h : Distinct key xs) (hnew : find key xs (key x) = none) :
    Distinct key (xs ++ [x]) ∧
      find key (xs ++ [x]) = update (find key xs) (key x) (some x) := by
  have hperm : (x :: xs).Perm (xs ++ [x]) := (perm_append_singleton x xs).symm
  have hdistinct : Distinct key (x :: xs) := by
    refine nodup_cons.mpr ⟨?_, h⟩
    intro hmem
    obtain ⟨y, hy, heq⟩ := mem_map.mp hmem
    exact find_eq_none_iff.mp hnew y hy heq
  refine ⟨hdistinct.perm hperm, ?_⟩
  rw [← find_perm hdistinct hperm]
  funext k
  rw [find_cons, update_apply]
  simp only [eq_comm]

theorem modify (h : Distinct key xs) (hx : xs[index]? = some x)
    {f : α → α} (hf : key (f x) = key x) :
    Distinct key (xs.modify index f) ∧
      find key (xs.modify index f) = update (find key xs) (key x) (some (f x)) := by
  obtain ⟨before, after, hsplit, -, hmodify⟩ := Vec.exists_split hx
  have hperm : xs.Perm (x :: (before ++ after)) := by
    rw [hsplit]
    exact perm_middle
  have hperm' : (f x :: (before ++ after)).Perm (xs.modify index f) := by
    rw [hmodify]
    exact perm_middle.symm
  have hdistinct := h.perm hperm
  have hdistinct' : Distinct key (f x :: (before ++ after)) := by
    unfold Distinct at hdistinct ⊢
    rwa [map_cons, hf]
  refine ⟨hdistinct'.perm hperm', ?_⟩
  rw [← find_perm hdistinct' hperm', find_perm h hperm, find_cons_eq_update x _ _ hf]

theorem swapRemove (h : Distinct key xs)
    (hx : xs[index]? = some x) :
    Distinct key (Vec.swapRemove xs index) ∧
      find key (Vec.swapRemove xs index) = update (find key xs) (key x) none := by
  have hperm := (Vec.swapRemove_perm hx).symm
  have hdistinct := h.perm hperm
  refine ⟨(nodup_cons.mp hdistinct).2, ?_⟩
  rw [find_perm h hperm]
  exact find_tail_eq_update hdistinct

end Steel.KeyedList

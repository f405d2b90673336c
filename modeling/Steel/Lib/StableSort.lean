import Mathlib.Data.List.Sort
import Mathlib.Data.Prod.Lex
import Steel.Lib.BinaryHeap

/-!
# Stable sorting by a key

Popping a heap until it is empty sorts its entries and keeps the order of those with equal keys.
Sorting by a pair of keys is sorting by the second one first.
-/

namespace Steel.StableSort

open List

variable {α β K L : Type} [LinearOrder K] [LinearOrder L]

/-- The entries in the order of their keys; equal keys keep the order of the list. -/
def sortBy (key : α → K) (xs : List α) : List α := xs.insertionSort fun a b => key a ≤ key b

def insertBy (key : α → K) (a : α) (xs : List α) : List α :=
  xs.orderedInsert (fun a b => key a ≤ key b) a

variable {key : α → K} {a : α} {xs ys : List α}

theorem sortBy_cons : sortBy key (a :: xs) = insertBy key a (sortBy key xs) := rfl

@[simp]
theorem insertBy_nil : insertBy key a [] = [a] := rfl

variable {b : α}

theorem insertBy_of_le (h : key a ≤ key b) :
    insertBy key a (b :: xs) = a :: b :: xs :=
  orderedInsert_cons_of_le _ xs h

theorem insertBy_of_lt (h : key b < key a) :
    insertBy key a (b :: xs) = b :: insertBy key a xs :=
  orderedInsert_of_not_le _ xs (not_le.mpr h)

@[simp]
theorem mem_sortBy : b ∈ sortBy key xs ↔ b ∈ xs := mem_insertionSort _

theorem pairwise_sortBy : (sortBy key xs).Pairwise fun a b => key a ≤ key b := by
  have htotal : Std.Total fun a b : α => key a ≤ key b := ⟨fun a b => le_total (key a) (key b)⟩
  have htrans : IsTrans α fun a b => key a ≤ key b := ⟨fun _ _ _ => le_trans⟩
  exact pairwise_insertionSort _ xs

theorem insertBy_of_forall_le (h : ∀ b ∈ xs, key a ≤ key b) : insertBy key a xs = a :: xs := by
  cases xs with
  | nil => rfl
  | cons b rest => exact insertBy_of_le (h b mem_cons_self)

theorem insertBy_congr {key' : α → L} (h : ∀ b ∈ xs, key a ≤ key b ↔ key' a ≤ key' b) :
    insertBy key a xs = insertBy key' a xs := by
  induction xs with
  | nil => rfl
  | cons b rest ih =>
    have hb := h b mem_cons_self
    rcases le_or_gt (key a) (key b) with hle | hlt
    · rw [insertBy_of_le hle, insertBy_of_le (hb.mp hle)]
    · have hlt' : key' b < key' a := not_le.mp fun hle => not_le.mpr hlt (hb.mpr hle)
      rw [insertBy_of_lt hlt, insertBy_of_lt hlt', ih fun c hc => h c (mem_cons_of_mem b hc)]

theorem insertBy_append_of_le (h : ∀ b ∈ ys, key a ≤ key b) :
    insertBy key a (xs ++ ys) = insertBy key a xs ++ ys := by
  induction xs with
  | nil => exact insertBy_of_forall_le h
  | cons b rest ih =>
    rcases le_or_gt (key a) (key b) with hle | hlt
    · rw [insertBy_of_le hle, cons_append, insertBy_of_le hle, cons_append, cons_append]
    · rw [insertBy_of_lt hlt, cons_append, insertBy_of_lt hlt, ih, cons_append]

theorem insertBy_append_of_lt (h : ∀ b ∈ xs, key b < key a) :
    insertBy key a (xs ++ ys) = xs ++ insertBy key a ys := by
  induction xs with
  | nil => rfl
  | cons b rest ih =>
    rw [cons_append, insertBy_of_lt (h b mem_cons_self),
      ih fun c hc => h c (mem_cons_of_mem b hc), cons_append]

theorem sortBy_append_of_le (h : ∀ a ∈ xs, ∀ b ∈ ys, key a ≤ key b) :
    sortBy key (xs ++ ys) = sortBy key xs ++ sortBy key ys := by
  induction xs with
  | nil => rfl
  | cons a rest ih =>
    rw [cons_append, sortBy_cons, sortBy_cons, ih fun c hc => h c (mem_cons_of_mem a hc)]
    exact insertBy_append_of_le fun b hb => h a mem_cons_self b (mem_sortBy.mp hb)

theorem sortBy_append_of_lt (h : ∀ a ∈ xs, ∀ b ∈ ys, key b < key a) :
    sortBy key (xs ++ ys) = sortBy key ys ++ sortBy key xs := by
  induction xs with
  | nil => exact (append_nil _).symm
  | cons a rest ih =>
    rw [cons_append, sortBy_cons, sortBy_cons, ih fun c hc => h c (mem_cons_of_mem a hc)]
    exact insertBy_append_of_lt fun b hb => h a mem_cons_self b (mem_sortBy.mp hb)

theorem sortBy_reverse (h : xs.Pairwise fun a b => key a < key b) :
    sortBy key xs.reverse = xs := by
  induction xs with
  | nil => rfl
  | cons a rest ih =>
    obtain ⟨ha, hrest⟩ := pairwise_cons.mp h
    have hlt : ∀ b ∈ rest.reverse, ∀ c ∈ [a], key c < key b := by
      intro b hb c hc
      rw [mem_singleton.mp hc]
      exact ha b (mem_reverse.mp hb)
    rw [reverse_cons, sortBy_append_of_lt hlt, ih hrest]
    rfl

theorem sortBy_map (f : β → α) (zs : List β) :
    sortBy key (zs.map f) = (sortBy (fun b => key (f b)) zs).map f :=
  (map_insertionSort _ _ f zs fun _ _ _ _ => Iff.rfl).symm

section Lex

variable {first : α → K} {second : α → L}

def pairKey (first : α → K) (second : α → L) (a : α) : K ×ₗ L := toLex (first a, second a)

variable {b : α}

theorem pairKey_le {a : α} (h : second a ≤ second b) :
    pairKey first second a ≤ pairKey first second b ↔ first a ≤ first b := by
  rw [pairKey, pairKey, Prod.Lex.toLex_le_toLex]
  constructor
  · rintro (hlt | ⟨heq, -⟩)
    · exact hlt.le
    · exact heq.le
  · intro hle
    exact hle.lt_or_eq.imp_right fun heq => ⟨heq, h⟩

theorem pairKey_lt {a : α} (h : second b < second a) :
    pairKey first second b < pairKey first second a ↔ first b ≤ first a := by
  rw [pairKey, pairKey, Prod.Lex.toLex_lt_toLex]
  constructor
  · rintro (hlt | ⟨heq, -⟩)
    · exact hlt.le
    · exact heq.le
  · intro hle
    exact hle.lt_or_eq.imp_right fun heq => ⟨heq, h⟩

theorem insertBy_comm (h : second b < second a) :
    insertBy first b (insertBy (pairKey first second) a xs) =
      insertBy (pairKey first second) a (insertBy first b xs) := by
  induction xs with
  | nil =>
    rcases le_or_gt (first b) (first a) with hle | hlt
    · rw [insertBy_nil, insertBy_nil, insertBy_of_le hle,
        insertBy_of_lt ((pairKey_lt h).mpr hle), insertBy_nil]
    · have hle : pairKey first second a ≤ pairKey first second b :=
        not_lt.mp fun hba => not_le.mpr hlt ((pairKey_lt h).mp hba)
      rw [insertBy_nil, insertBy_nil, insertBy_of_lt hlt, insertBy_of_le hle, insertBy_nil]
  | cons c rest ih =>
    rcases le_or_gt (pairKey first second a) (pairKey first second c) with hac | hca
    · rw [insertBy_of_le hac]
      rcases le_or_gt (first b) (first a) with hba | hab
      · -- The new entries both go in front.
        have hbc : first b ≤ first c := hba.trans ((Prod.Lex.toLex_le_toLex.mp hac).elim
          (fun hlt => hlt.le) fun heq => heq.1.le)
        rw [insertBy_of_le hba, insertBy_of_le hbc, insertBy_of_lt ((pairKey_lt h).mpr hba),
          insertBy_of_le hac]
      · have hle : pairKey first second a ≤ pairKey first second b :=
          not_lt.mp fun hba => not_le.mpr hab ((pairKey_lt h).mp hba)
        rw [insertBy_of_lt hab]
        rcases le_or_gt (first b) (first c) with hbc | hcb
        · rw [insertBy_of_le hbc, insertBy_of_le hle]
        · rw [insertBy_of_lt hcb, insertBy_of_le hac]
    · rw [insertBy_of_lt hca]
      rcases le_or_gt (first b) (first c) with hbc | hcb
      · have hba : first b ≤ first a := hbc.trans ((Prod.Lex.toLex_lt_toLex.mp hca).elim
          (fun hlt => hlt.le) fun heq => heq.1.le)
        rw [insertBy_of_le hbc, insertBy_of_le hbc, insertBy_of_lt ((pairKey_lt h).mpr hba),
          insertBy_of_lt hca]
      · rw [insertBy_of_lt hcb, insertBy_of_lt hcb, insertBy_of_lt hca, ih]

theorem sortBy_insertBy (h : xs.Pairwise fun a b => second a ≤ second b) :
    sortBy first (insertBy second a xs) =
      insertBy (pairKey first second) a (sortBy first xs) := by
  induction xs with
  | nil => rfl
  | cons b rest ih =>
    obtain ⟨hb, hrest⟩ := pairwise_cons.mp h
    rcases le_or_gt (second a) (second b) with hab | hba
    · rw [insertBy_of_le hab, sortBy_cons]
      -- Every other entry has a larger second key, so the first keys decide.
      refine insertBy_congr fun c hc => (pairKey_le ?_).symm
      rcases mem_cons.mp (mem_sortBy.mp hc) with rfl | hc
      · exact hab
      · exact hab.trans (hb c hc)
    · rw [insertBy_of_lt hba, sortBy_cons, ih hrest, sortBy_cons]
      exact insertBy_comm hba

theorem sortBy_pairKey (first : α → K) (second : α → L) (xs : List α) :
    sortBy (pairKey first second) xs = sortBy first (sortBy second xs) := by
  induction xs with
  | nil => rfl
  | cons a rest ih => rw [sortBy_cons, ih, sortBy_cons, sortBy_insertBy pairwise_sortBy]

end Lex

theorem sortBy_pop {first : α} {others : List α}
    (h : BinaryHeap.pop key xs = some (first, others)) :
    sortBy key xs = first :: sortBy key others := by
  induction xs generalizing first others with
  | nil => simp [BinaryHeap.pop] at h
  | cons a rest ih =>
    rw [BinaryHeap.pop] at h
    cases hrest : BinaryHeap.pop key rest with
    | none =>
      rw [BinaryHeap.pop_eq_none_iff] at hrest
      subst hrest
      simp only [BinaryHeap.pop, Option.some.injEq, Prod.mk.injEq] at h
      obtain ⟨rfl, rfl⟩ := h
      rfl
    | some found =>
      obtain ⟨b, left⟩ := found
      rw [hrest] at h
      simp only at h
      rw [sortBy_cons, ih hrest]
      split_ifs at h with hlt
      · cases h
        rw [insertBy_of_lt hlt, sortBy_cons]
      · cases h
        rw [insertBy_of_le (not_lt.mp hlt), ih hrest]

end Steel.StableSort

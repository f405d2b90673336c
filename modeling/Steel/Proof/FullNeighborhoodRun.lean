import Mathlib.Data.Int.Interval
import Steel.Chunk.FullNeighborhood

/-!
# The counts are the contributors around

Adding and removing a contributor touches each center around it once, so the counters stay the
numbers of contributors, which no neighborhood has room to exceed.
-/

namespace Steel.FullNeighborhoodIndex

open List

variable {index after : FullNeighborhoodIndex} {pos center : ChunkPos} {radius : ℕ}
  {increment : Bool} {centers : List ChunkPos}

theorem mem_forEachCenter :
    center ∈ forEachCenter pos radius ↔ center.InRange ∧ center.chebyshev pos ≤ radius := by
  simp only [forEachCenter, mem_flatMap, mem_filterMap, mem_inclusiveRange, ChunkPos.chebyshev]
  constructor
  · rintro ⟨dz, hdz, dx, hdx, hcenter⟩
    obtain ⟨hrange, hfound⟩ := Option.ite_none_right_eq_some.mp hcenter
    cases hfound
    exact ⟨hrange, by dsimp only; omega⟩
  · rintro ⟨hrange, hnear⟩
    have hcenter :
        (⟨pos.x + (center.x - pos.x), pos.y + (center.y - pos.y)⟩ : ChunkPos) = center := by
      rw [add_sub_cancel, add_sub_cancel]
    refine ⟨center.y - pos.y, by omega, center.x - pos.x, by omega, ?_⟩
    rw [hcenter, if_pos hrange]

theorem nodup_forEachCenter (pos : ChunkPos) (radius : ℕ) : (forEachCenter pos radius).Nodup := by
  rw [forEachCenter, nodup_flatMap]
  constructor
  · intro dz _
    refine (nodup_inclusiveRange _ _).filterMap ?_
    intro dx dx' found hdx hdx'
    obtain ⟨-, hfound⟩ := Option.ite_none_right_eq_some.mp hdx
    obtain ⟨-, hfound'⟩ := Option.ite_none_right_eq_some.mp hdx'
    have heq := (ChunkPos.mk.inj (Option.some.inj (hfound.trans hfound'.symm))).1
    omega
  · refine (nodup_inclusiveRange _ _).imp ?_
    intro dz dz' hne found hdz hdz'
    obtain ⟨dx, -, hdx⟩ := mem_filterMap.mp hdz
    obtain ⟨dx', -, hdx'⟩ := mem_filterMap.mp hdz'
    obtain ⟨-, hfound⟩ := Option.ite_none_right_eq_some.mp hdx
    obtain ⟨-, hfound'⟩ := Option.ite_none_right_eq_some.mp hdx'
    have heq := (ChunkPos.mk.inj (Option.some.inj (hfound.trans hfound'.symm))).2
    omega

/-! ### One pass over the centers -/

/-- What a pass over some centers makes of an index. -/
structure Adjusted (index after : FullNeighborhoodIndex) (centers : List ChunkPos) (radius : ℕ)
    (increment : Bool) : Prop where
  contributors : after.contributors = index.contributors
  dirtyCenters : after.dirtyCenters = index.dirtyCenters ∪ centers.toFinset
  lookup : ∀ center, after.counts.lookup center = if center ∈ centers then
    some ((index.countsAt center).adjust radius increment) else index.counts.lookup center

theorem adjusted_foldl (index : FullNeighborhoodIndex) (hnodup : centers.Nodup) :
    Adjusted index (centers.foldl (adjustCenter radius increment) index) centers radius
      increment := by
  induction centers generalizing index with
  | nil => exact ⟨rfl, by simp, by simp⟩
  | cons first rest ih =>
    obtain ⟨hfirst, hrest⟩ := nodup_cons.mp hnodup
    obtain ⟨hcontributors, hdirty, hlookup⟩ := ih (adjustCenter radius increment index first) hrest
    refine ⟨hcontributors, ?_, ?_⟩
    · rw [foldl_cons, hdirty, adjustCenter, toFinset_cons, Finset.insert_union, Finset.union_insert]
    · intro center
      rw [foldl_cons, hlookup, countsAt, adjustCenter, HashMap.lookup_insert_ite]
      by_cases heq : center = first
      · subst heq
        rw [if_neg hfirst, if_pos rfl, if_pos mem_cons_self]
      · rw [if_neg heq]
        simp only [mem_cons, heq, false_or, countsAt]

theorem adjusted_adjustCounts (index : FullNeighborhoodIndex) (pos : ChunkPos) (radius : ℕ)
    (increment : Bool) : Adjusted index (index.adjustCounts pos radius increment)
      (forEachCenter pos radius) radius increment :=
  adjusted_foldl index (nodup_forEachCenter pos radius)

theorem Adjusted.countsAt (h : Adjusted index after centers radius increment) (center : ChunkPos) :
    after.countsAt center = if center ∈ centers then
      (index.countsAt center).adjust radius increment else index.countsAt center := by
  rw [FullNeighborhoodIndex.countsAt, h.lookup]
  split <;> rfl

/-- What the last pass of a removal makes of an index. -/
structure Dropped (index after : FullNeighborhoodIndex) (centers : List ChunkPos) : Prop where
  contributors : after.contributors = index.contributors
  dirtyCenters : after.dirtyCenters = index.dirtyCenters
  lookup : ∀ center, after.counts.lookup center =
    if center ∈ centers ∧ index.counts.lookup center = some .zero then none
    else index.counts.lookup center

theorem lookup_dropZero (index : FullNeighborhoodIndex) (first center : ChunkPos) :
    (index.dropZero first).counts.lookup center =
      if center = first ∧ index.counts.lookup center = some .zero then none
      else index.counts.lookup center := by
  unfold dropZero
  split
  case isTrue hzero =>
    rw [HashMap.lookup_erase_ite]
    by_cases heq : center = first
    · subst heq
      rw [if_pos rfl, if_pos ⟨rfl, hzero⟩]
    · rw [if_neg heq, if_neg fun h => heq h.1]
  case isFalse hzero =>
    rw [if_neg]
    rintro ⟨rfl, h⟩
    exact hzero h

theorem dropped_foldl (index : FullNeighborhoodIndex) (centers : List ChunkPos) :
    Dropped index (centers.foldl dropZero index) centers := by
  induction centers generalizing index with
  | nil => exact ⟨rfl, rfl, by simp⟩
  | cons first rest ih =>
    obtain ⟨hcontributors, hdirty, hlookup⟩ := ih (index.dropZero first)
    have hsame : (index.dropZero first).contributors = index.contributors ∧
        (index.dropZero first).dirtyCenters = index.dirtyCenters := by
      unfold dropZero
      split <;> exact ⟨rfl, rfl⟩
    refine ⟨hcontributors.trans hsame.1, hdirty.trans hsame.2, ?_⟩
    intro center
    rw [foldl_cons, hlookup, lookup_dropZero]
    by_cases hzero : index.counts.lookup center = some .zero
    · by_cases heq : center = first <;> simp [hzero, heq]
    · simp [hzero]

theorem Dropped.countsAt (h : Dropped index after centers) (center : ChunkPos) :
    after.countsAt center = index.countsAt center := by
  rw [FullNeighborhoodIndex.countsAt, h.lookup]
  split
  case isTrue hzero => rw [FullNeighborhoodIndex.countsAt, hzero.2]; rfl
  case isFalse => rfl

/-! ### Contributors around a center -/

def around (index : FullNeighborhoodIndex) (center : ChunkPos) (radius : ℕ) : Finset ChunkPos :=
  index.contributors.keys.filter fun pos => center.chebyshev pos ≤ radius

theorem mem_around :
    pos ∈ index.around center radius ↔ pos ∈ index.contributors ∧
      center.chebyshev pos ≤ radius := by
  rw [around, Finset.mem_filter, Finmap.mem_keys]

theorem card_around_insert (hpos : pos ∉ index.contributors)
    (hafter : ∀ other, other ∈ after.contributors ↔ other = pos ∨ other ∈ index.contributors) :
    (after.around center radius).card =
      (index.around center radius).card + if center.chebyshev pos ≤ radius then 1 else 0 := by
  split
  case isTrue hnear =>
    have hinsert : after.around center radius = insert pos (index.around center radius) := by
      ext other
      rw [mem_around, hafter, Finset.mem_insert, mem_around]
      constructor
      · rintro ⟨rfl | hother, hother'⟩
        · exact Or.inl rfl
        · exact Or.inr ⟨hother, hother'⟩
      · rintro (rfl | ⟨hother, hother'⟩)
        · exact ⟨Or.inl rfl, hnear⟩
        · exact ⟨Or.inr hother, hother'⟩
    rw [hinsert, Finset.card_insert_of_notMem fun hmem => hpos (mem_around.mp hmem).1]
  case isFalse hfar =>
    have hsame : after.around center radius = index.around center radius := by
      ext other
      rw [mem_around, hafter, mem_around]
      constructor
      · rintro ⟨rfl | hother, hother'⟩
        · exact absurd hother' hfar
        · exact ⟨hother, hother'⟩
      · exact fun ⟨hother, hother'⟩ => ⟨Or.inr hother, hother'⟩
    rw [hsame, add_zero]

/-- A neighborhood has room for its positions only. -/
theorem card_around_lt (hpos : pos ∉ index.contributors) (hnear : center.chebyshev pos ≤ radius) :
    (index.around center radius).card < (2 * radius + 1) * (2 * radius + 1) := by
  have hroom : (insert pos (index.around center radius)).card ≤
      (Finset.Icc (center.x - radius) (center.x + radius) ×ˢ
        Finset.Icc (center.y - radius) (center.y + radius)).card := by
    refine Finset.card_le_card_of_injOn (fun other => (other.x, other.y)) ?_ ?_
    · intro other hother
      have hother : center.chebyshev other ≤ radius := by
        obtain rfl | hother := Finset.mem_insert.mp hother
        · exact hnear
        · exact (mem_around.mp hother).2
      simp only [ChunkPos.chebyshev] at hother
      simp only [Finset.coe_product, Finset.coe_Icc, Set.mem_prod, Set.mem_Icc]
      omega
    · rintro ⟨x, y⟩ - ⟨x', y'⟩ - heq
      simpa using heq
  rw [Finset.card_insert_of_notMem fun hmem => hpos (mem_around.mp hmem).1, Finset.card_product,
    Int.card_Icc, Int.card_Icc] at hroom
  have hside : ∀ n : Int, (n + radius + 1 - (n - radius)).toNat = 2 * radius + 1 := by omega
  rw [hside, hside] at hroom
  omega

/-! ### The invariant -/

/-- The counts are those of the contributors, and only nonzero ones are stored. -/
structure Exact (index : FullNeighborhoodIndex) : Prop where
  counts : ∀ center, center.InRange → index.countsAt center =
    ⟨(index.around center 1).card, (index.around center 2).card⟩
  nonzero : ∀ center counts, index.counts.lookup center = some counts → counts ≠ .zero

/-- Dirty centers stay, and a center whose counts changed becomes one. -/
structure Marks (index after : FullNeighborhoodIndex) : Prop where
  kept : index.dirtyCenters ⊆ after.dirtyCenters
  changed : ∀ center, after.countsAt center ≠ index.countsAt center → center ∈ after.dirtyCenters

theorem Marks.refl (index : FullNeighborhoodIndex) : Marks index index :=
  ⟨Finset.Subset.rfl, fun _ hne => absurd rfl hne⟩

theorem Marks.trans {middle : FullNeighborhoodIndex} (h : Marks index middle)
    (h' : Marks middle after) : Marks index after where
  kept := h.kept.trans h'.kept
  changed center hne := by
    by_cases heq : after.countsAt center = middle.countsAt center
    · exact h'.kept (h.changed center (heq ▸ hne))
    · exact h'.changed center heq

theorem Adjusted.marks (h : Adjusted index after centers radius increment) : Marks index after where
  kept := h.dirtyCenters ▸ Finset.subset_union_left
  changed center hne := by
    rw [h.dirtyCenters, Finset.mem_union, mem_toFinset]
    refine Or.inr (by_contra fun hnotMem => hne ?_)
    rw [h.countsAt, if_neg hnotMem]

theorem Dropped.marks (h : Dropped index after centers) : Marks index after where
  kept := h.dirtyCenters.symm.subset
  changed center hne := absurd (h.countsAt center) hne

theorem validateIncrement_ok {maximum : ℕ} (h : ∀ center ∈ forEachCenter pos radius,
    (index.countsAt center).count radius < maximum) :
    index.validateIncrement pos radius maximum = .ok () := by
  have hnone : (forEachCenter pos radius).find? (fun center =>
      maximum ≤ (index.countsAt center).count radius) = none := by
    rw [find?_eq_none]
    intro center hcenter
    simpa using h center hcenter
  rw [validateIncrement, hnone]

theorem validateDecrement_ok (h : ∀ center ∈ forEachCenter pos radius,
    0 < (index.countsAt center).count radius) : index.validateDecrement pos radius = .ok () := by
  have hnone : (forEachCenter pos radius).find? (fun center =>
      (index.countsAt center).count radius = 0) = none := by
    rw [find?_eq_none]
    intro center hcenter
    simpa using (h center hcenter).ne'
  rw [validateDecrement, hnone]

variable (counts : FullNeighborhoodCounts)

theorem blockTicking_adjust : (counts.adjust 1 increment).blockTicking =
      if increment then (counts.blockTicking + 1) % 256
      else (counts.blockTicking + 255) % 256 := rfl

theorem entityTicking_adjust : (counts.adjust 2 increment).entityTicking =
      if increment then (counts.entityTicking + 1) % 256
      else (counts.entityTicking + 255) % 256 := rfl

theorem adjust_adjust (near nearer : Bool) :
    (if near then (if nearer then counts.adjust 1 increment else counts).adjust 2 increment
      else if nearer then counts.adjust 1 increment else counts) =
    ⟨if nearer then (counts.adjust 1 increment).blockTicking else counts.blockTicking,
      if near then (counts.adjust 2 increment).entityTicking else counts.entityTicking⟩ := by
  cases near <;> cases nearer <;> rfl

theorem countsAt_adjustCounts (index : FullNeighborhoodIndex) (pos : ChunkPos) (increment : Bool)
    (hcenter : center.InRange) :
    ((index.adjustCounts pos 1 increment).adjustCounts pos 2 increment).countsAt center =
      ⟨if center.chebyshev pos ≤ 1 then ((index.countsAt center).adjust 1 increment).blockTicking
        else (index.countsAt center).blockTicking,
      if center.chebyshev pos ≤ 2 then ((index.countsAt center).adjust 2 increment).entityTicking
        else (index.countsAt center).entityTicking⟩ := by
  have hnear : ∀ radius, (center ∈ forEachCenter pos radius) = (center.chebyshev pos ≤ radius) :=
    fun radius => propext (mem_forEachCenter.trans (and_iff_right hcenter))
  rw [(adjusted_adjustCounts _ pos 2 increment).countsAt,
    (adjusted_adjustCounts _ pos 1 increment).countsAt]
  simp only [hnear]
  simpa using adjust_adjust (index.countsAt center) (decide (center.chebyshev pos ≤ 2))
    (decide (center.chebyshev pos ≤ 1))

/-- Centers further away keep their entries. -/
theorem lookup_adjustCounts (index : FullNeighborhoodIndex) (pos : ChunkPos) (increment : Bool)
    (hfar : center ∉ forEachCenter pos 2) :
    ((index.adjustCounts pos 1 increment).adjustCounts pos 2 increment).counts.lookup center =
      index.counts.lookup center := by
  have hfar' : center ∉ forEachCenter pos 1 := by
    rw [mem_forEachCenter] at hfar ⊢
    exact fun ⟨hrange, hnear⟩ => hfar ⟨hrange, hnear.trans one_le_two⟩
  rw [(adjusted_adjustCounts _ pos 2 increment).lookup, if_neg hfar,
    (adjusted_adjustCounts _ pos 1 increment).lookup, if_neg hfar']

theorem contributors_adjustCounts (index : FullNeighborhoodIndex) (pos : ChunkPos)
    (increment : Bool) :
    ((index.adjustCounts pos 1 increment).adjustCounts pos 2 increment).contributors =
      index.contributors :=
  (adjusted_adjustCounts _ pos 2 increment).contributors.trans
    (adjusted_adjustCounts _ pos 1 increment).contributors

theorem marks_adjustCounts (index : FullNeighborhoodIndex) (pos : ChunkPos) (increment : Bool) :
    Marks index ((index.adjustCounts pos 1 increment).adjustCounts pos 2 increment) :=
  (adjusted_adjustCounts _ pos 1 increment).marks.trans
    (adjusted_adjustCounts _ pos 2 increment).marks

/-- A new contributor finds room in every counter around it. -/
theorem Exact.addContributor (h : Exact index) (hpos : pos ∉ index.contributors)
    (holder : HolderId) :
    ∃ after, index.addContributor pos holder = .ok after ∧ Exact after ∧ Marks index after := by
  have hroom : ∀ center, center.InRange → ∀ radius, center.chebyshev pos ≤ radius →
      (index.around center radius).card < (2 * radius + 1) * (2 * radius + 1) :=
    fun center _ radius => card_around_lt hpos
  have hblock : index.validateIncrement pos 1 blockTickingFullCount = .ok () := by
    refine validateIncrement_ok fun center hcenter => ?_
    obtain ⟨hrange, hnear⟩ := mem_forEachCenter.mp hcenter
    rw [h.counts center hrange]
    exact hroom center hrange 1 hnear
  have hentity : index.validateIncrement pos 2 entityTickingFullCount = .ok () := by
    refine validateIncrement_ok fun center hcenter => ?_
    obtain ⟨hrange, hnear⟩ := mem_forEachCenter.mp hcenter
    rw [h.counts center hrange]
    exact hroom center hrange 2 hnear
  let inserted := { index with contributors := index.contributors.insert pos holder }
  let after := (inserted.adjustCounts pos 1 true).adjustCounts pos 2 true
  have hcontributors : ∀ other, other ∈ after.contributors ↔
      other = pos ∨ other ∈ index.contributors := by
    intro other
    rw [contributors_adjustCounts, Finmap.mem_insert]
  have hcounts : ∀ center, center.InRange → after.countsAt center =
      ⟨(after.around center 1).card, (after.around center 2).card⟩ := by
    intro center hrange
    rw [countsAt_adjustCounts inserted pos true hrange, card_around_insert hpos hcontributors,
      card_around_insert hpos hcontributors]
    have hcenter : inserted.countsAt center =
        ⟨(index.around center 1).card, (index.around center 2).card⟩ := h.counts center hrange
    have hroom1 := hroom center hrange 1
    have hroom2 := hroom center hrange 2
    rw [hcenter]
    simp only [blockTicking_adjust, entityTicking_adjust, if_true, FullNeighborhoodCounts.mk.injEq]
    constructor
    · split <;> omega
    · split <;> omega
  have hmarks := marks_adjustCounts inserted pos true
  refine ⟨after, ?_, ⟨hcounts, ?_⟩, hmarks.kept, hmarks.changed⟩
  · rw [FullNeighborhoodIndex.addContributor, hblock, hentity]
    rfl
  · intro center counts hlookup
    by_cases hcenter : center ∈ forEachCenter pos 2
    · -- The new contributor itself is around.
      obtain ⟨hrange, hnear⟩ := mem_forEachCenter.mp hcenter
      have hself : 0 < (after.around center 2).card :=
        Finset.card_pos.mpr ⟨pos, mem_around.mpr ⟨(hcontributors pos).mpr (Or.inl rfl), hnear⟩⟩
      have hstored := hcounts center hrange
      rw [countsAt, hlookup, Option.getD_some] at hstored
      rw [hstored]
      exact fun hzero => hself.ne' (FullNeighborhoodCounts.mk.inj hzero).2
    · rw [lookup_adjustCounts inserted pos true hcenter] at hlookup
      exact h.nonzero center counts hlookup

/-- A contributor is counted by every counter around it. -/
theorem Exact.removeContributor (h : Exact index) (hpos : pos ∈ index.contributors) :
    ∃ after, index.removeContributor pos = .ok after ∧ Exact after ∧ Marks index after ∧
      pos ∉ after.contributors := by
  have hcounted : ∀ center radius, center.chebyshev pos ≤ radius →
      0 < (index.around center radius).card :=
    fun center radius hnear => Finset.card_pos.mpr ⟨pos, mem_around.mpr ⟨hpos, hnear⟩⟩
  have hblock : index.validateDecrement pos 1 = .ok () := by
    refine validateDecrement_ok fun center hcenter => ?_
    obtain ⟨hrange, hnear⟩ := mem_forEachCenter.mp hcenter
    rw [h.counts center hrange]
    exact hcounted center 1 hnear
  have hentity : index.validateDecrement pos 2 = .ok () := by
    refine validateDecrement_ok fun center hcenter => ?_
    obtain ⟨hrange, hnear⟩ := mem_forEachCenter.mp hcenter
    rw [h.counts center hrange]
    exact hcounted center 2 hnear
  let erased := { index with contributors := index.contributors.erase pos }
  let adjusted := (erased.adjustCounts pos 1 false).adjustCounts pos 2 false
  let after := (forEachCenter pos 2).foldl dropZero adjusted
  have hdropped : Dropped adjusted after (forEachCenter pos 2) := dropped_foldl _ _
  have hafter : ∀ other, other ∈ after.contributors ↔ other ≠ pos ∧ other ∈ index.contributors := by
    intro other
    rw [hdropped.contributors, contributors_adjustCounts, Finmap.mem_erase]
  have hgone : pos ∉ after.contributors := fun hmem => ((hafter pos).mp hmem).1 rfl
  have hbefore :
      ∀ other, other ∈ index.contributors ↔ other = pos ∨ other ∈ after.contributors := by
    intro other
    rw [hafter]
    by_cases heq : other = pos
    · simp [heq, hpos]
    · simp [heq]
  have hcounts : ∀ center, center.InRange → after.countsAt center =
      ⟨(after.around center 1).card, (after.around center 2).card⟩ := by
    intro center hrange
    have hcenter : erased.countsAt center =
        ⟨(index.around center 1).card, (index.around center 2).card⟩ := h.counts center hrange
    have hroom1 := @card_around_lt after pos center 1 hgone
    have hroom2 := @card_around_lt after pos center 2 hgone
    rw [hdropped.countsAt, countsAt_adjustCounts erased pos false hrange, hcenter,
      card_around_insert hgone hbefore, card_around_insert hgone hbefore]
    simp only [blockTicking_adjust, entityTicking_adjust, Bool.false_eq_true, if_false,
      FullNeighborhoodCounts.mk.injEq]
    constructor
    · split <;> omega
    · split <;> omega
  have hmarks := (marks_adjustCounts erased pos false).trans hdropped.marks
  refine ⟨after, ?_, ⟨hcounts, ?_⟩, ⟨hmarks.kept, hmarks.changed⟩, hgone⟩
  · rw [FullNeighborhoodIndex.removeContributor, hblock, hentity]
    rfl
  · intro center counts hlookup hzero
    subst hzero
    rw [hdropped.lookup] at hlookup
    split at hlookup
    case isTrue => cases hlookup
    case isFalse hkept =>
      have hfar : center ∉ forEachCenter pos 2 := fun hcenter => hkept ⟨hcenter, hlookup⟩
      rw [lookup_adjustCounts erased pos false hfar] at hlookup
      exact h.nonzero center _ hlookup rfl

theorem Exact.reconcileContributor (h : Exact index) (pos : ChunkPos) (holder : Option HolderId) :
    ∃ after, index.reconcileContributor pos holder = .ok after ∧ Exact after ∧
      Marks index after := by
  unfold FullNeighborhoodIndex.reconcileContributor
  by_cases hsame : index.contributors.lookup pos = holder
  · rw [if_pos hsame]
    exact ⟨index, rfl, h, .refl index⟩
  rw [if_neg hsame]
  have hremove : ∃ removed,
      (if pos ∈ index.contributors then index.removeContributor pos else pure index) =
        .ok removed ∧ Exact removed ∧ Marks index removed ∧ pos ∉ removed.contributors := by
    by_cases hpos : pos ∈ index.contributors
    · rw [if_pos hpos]
      exact h.removeContributor hpos
    · rw [if_neg hpos]
      exact ⟨index, rfl, h, .refl index, hpos⟩
  obtain ⟨removed, hremoved, hexact, hmarks, hgone⟩ := hremove
  rw [← apply_ite (· >>= _), hremoved]
  cases holder with
  | none => exact ⟨removed, rfl, hexact, hmarks⟩
  | some holder =>
    obtain ⟨after, hafter, hexact', hmarks'⟩ := hexact.addContributor hgone holder
    exact ⟨after, hafter, hexact', hmarks.trans hmarks'⟩

theorem Exact.removeContributorIfMatches (h : Exact index) (pos : ChunkPos) (holder : HolderId) :
    (∃ after, index.removeContributorIfMatches pos holder = .ok after ∧ Exact after ∧
      Marks index after) ∨
    index.removeContributorIfMatches pos holder = .error (.contributorIdentityMismatch pos) := by
  unfold FullNeighborhoodIndex.removeContributorIfMatches
  cases hlookup : index.contributors.lookup pos with
  | none => exact Or.inl ⟨index, rfl, h, .refl index⟩
  | some current =>
    by_cases heq : current = holder
    · have hpos : pos ∈ index.contributors := Finmap.mem_of_lookup_eq_some hlookup
      obtain ⟨after, hafter, hexact, hmarks, -⟩ := h.removeContributor hpos
      exact Or.inl ⟨after, by simp only [if_pos heq, hafter], hexact, hmarks⟩
    · exact Or.inr (by simp only [if_neg heq])

theorem Marks.union {changed : Set ChunkPos} (h : Marks index after)
    (hchanged : changed ⊆ index.dirtyCenters) :
    changed ∪ {center | after.countsAt center ≠ index.countsAt center} ⊆ after.dirtyCenters :=
  Set.union_subset (hchanged.trans (Finset.coe_subset.mpr h.kept)) fun center => h.changed center

theorem Reached.exact {changed : Set ChunkPos} (h : Reached index changed) :
    Exact index ∧ changed ⊆ index.dirtyCenters := by
  induction h with
  | new =>
    refine ⟨⟨fun _ _ => rfl, ?_⟩, Set.empty_subset _⟩
    intro center counts hlookup
    simp [FullNeighborhoodIndex.new] at hlookup
  | @reconcileContributor index after changed _ pos _ holder hok ih =>
    obtain ⟨after', hafter, hexact, hmarks⟩ := ih.1.reconcileContributor pos holder
    cases hok.symm.trans hafter
    exact ⟨hexact, hmarks.union ih.2⟩
  | @removeContributorIfMatches index after changed _ pos _ holder hok ih =>
    obtain ⟨after', hafter, hexact, hmarks⟩ | herror := ih.1.removeContributorIfMatches pos holder
    · cases hok.symm.trans hafter
      exact ⟨hexact, hmarks.union ih.2⟩
    · cases hok.symm.trans herror
  | markDirty _ pos ih =>
    refine ⟨⟨ih.1.counts, ih.1.nonzero⟩, ih.2.trans ?_⟩
    exact Finset.coe_subset.mpr (Finset.subset_insert _ _)
  | takeDirtyCounts _ ih => exact ⟨⟨ih.1.counts, ih.1.nonzero⟩, Set.empty_subset _⟩

/-- **The counters count, and never fail.** After any calls, each center counts the contributors
within one chunk and within two, only nonzero counts are stored, the centers that changed are dirty,
and no further call finds a counter too large or too small. -/
theorem reached_neighborhood {changed : Set ChunkPos} (h : Reached index changed) :
    (∀ center, center.InRange → index.countsAt center =
      ⟨(index.around center 1).card, (index.around center 2).card⟩) ∧
    (∀ center counts, index.counts.lookup center = some counts → counts ≠ .zero) ∧
    changed ⊆ index.dirtyCenters ∧
    (∀ pos holder, ∃ after, index.reconcileContributor pos holder = .ok after) ∧
    ∀ pos holder, (∃ after, index.removeContributorIfMatches pos holder = .ok after) ∨
      index.removeContributorIfMatches pos holder =
        .error (.contributorIdentityMismatch pos) := by
  obtain ⟨hexact, hchanged⟩ := h.exact
  refine ⟨hexact.counts, hexact.nonzero, hchanged, ?_, ?_⟩
  · intro pos holder
    obtain ⟨after, hafter, -⟩ := hexact.reconcileContributor pos holder
    exact ⟨after, hafter⟩
  · intro pos holder
    obtain ⟨after, hafter, -⟩ | herror := hexact.removeContributorIfMatches pos holder
    · exact Or.inl ⟨after, hafter⟩
    · exact Or.inr herror

/-- Two contributors around the same center. -/
theorem reached_neighborhood_twoChunks :
    ∃ first after, new.reconcileContributor ⟨0, 0⟩ (some 1) = .ok first ∧
      first.reconcileContributor ⟨2, 0⟩ (some 2) = .ok after ∧
      after.countsAt ⟨1, 0⟩ = ⟨(after.around ⟨1, 0⟩ 1).card, (after.around ⟨1, 0⟩ 2).card⟩ := by
  obtain ⟨first, hfirst, hexact, -⟩ := Reached.new.exact.1.reconcileContributor ⟨0, 0⟩ (some 1)
  obtain ⟨after, hafter, -⟩ := hexact.reconcileContributor ⟨2, 0⟩ (some 2)
  have hreached := (Reached.new.reconcileContributor (by decide) hfirst).reconcileContributor
    (by decide) hafter
  exact ⟨first, after, hfirst, hafter, (reached_neighborhood hreached).1 ⟨1, 0⟩ (by decide)⟩

end Steel.FullNeighborhoodIndex

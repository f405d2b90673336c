import Steel.ChunkSaver.RegionManager

/-!
# Sector allocation

The existing entries of a region own disjoint ranges of sectors behind the header. A save either
stays inside its old range or takes a range that no entry overlaps, so the bytes of every other
chunk stay where they are.
-/

namespace Steel

open List

namespace RegionHandle

/-- Entries own disjoint sector ranges between the header and the end of the file. -/
structure Placed (header : RegionHeader) (fileSectors : ℕ) : Prop where
  start : ∀ index, (header.entries index).exists' = true →
    firstDataSector ≤ (header.entries index).sectorOffset
  size : ∀ index, (header.entries index).exists' = true →
    0 < (header.entries index).sizeBytes ∧ (header.entries index).sizeBytes ≤ maxChunkSize
  stop : ∀ index, (header.entries index).exists' = true →
    (header.entries index).sectorOffset + (header.entries index).sectorCount ≤ fileSectors
  disjoint : ∀ index other, index ≠ other → (header.entries index).exists' = true →
    (header.entries other).exists' = true →
    Disjoint (sectors (header.entries index)) (sectors (header.entries other))

variable {entry : ChunkEntry}

variable {fileSectors a b : ℕ} {header : RegionHeader}

theorem Placed.setEntry {fileSectors' : ℕ}
    (h : Placed header fileSectors) (hgrown : fileSectors ≤ fileSectors') (index : ChunkIndex)
    (hentry : entry.exists' = true → firstDataSector ≤ entry.sectorOffset ∧
      (0 < entry.sizeBytes ∧ entry.sizeBytes ≤ maxChunkSize) ∧
      entry.sectorOffset + entry.sectorCount ≤ fileSectors' ∧
      ∀ other, other ≠ index → (header.entries other).exists' = true →
        Disjoint (sectors entry) (sectors (header.entries other))) :
    Placed (header.setEntry index entry) fileSectors' := by
  refine ⟨?_, ?_, ?_, ?_⟩
  · intro other hother
    by_cases heq : other = index
    · rw [heq, RegionHeader.setEntry_self] at hother ⊢
      exact (hentry hother).1
    · rw [RegionHeader.setEntry_of_ne _ heq] at hother ⊢
      exact h.start other hother
  · intro other hother
    by_cases heq : other = index
    · rw [heq, RegionHeader.setEntry_self] at hother ⊢
      exact (hentry hother).2.1
    · rw [RegionHeader.setEntry_of_ne _ heq] at hother ⊢
      exact h.size other hother
  · intro other hother
    by_cases heq : other = index
    · rw [heq, RegionHeader.setEntry_self] at hother ⊢
      exact (hentry hother).2.2.1
    · rw [RegionHeader.setEntry_of_ne _ heq] at hother ⊢
      exact (h.stop other hother).trans hgrown
  · intro first second hne hfirst hsecond
    by_cases hfirstEq : first = index
    · have hsecondNe : second ≠ index := by
        rw [← hfirstEq]
        exact hne.symm
      rw [RegionHeader.setEntry_of_ne _ hsecondNe] at hsecond ⊢
      rw [hfirstEq, RegionHeader.setEntry_self] at hfirst ⊢
      exact (hentry hfirst).2.2.2 second hsecondNe hsecond
    · rw [RegionHeader.setEntry_of_ne _ hfirstEq] at hfirst ⊢
      by_cases hsecondEq : second = index
      · rw [hsecondEq, RegionHeader.setEntry_self] at hsecond ⊢
        exact ((hentry hsecond).2.2.2 first hfirstEq hfirst).symm
      · rw [RegionHeader.setEntry_of_ne _ hsecondEq] at hsecond ⊢
        exact h.disjoint first second hne hfirst hsecond

theorem disjoint_Ico_iff {c d : ℕ} (hab : a < b) (hcd : c < d) :
    Disjoint (Finset.Ico a b) (Finset.Ico c d) ↔ b ≤ c ∨ d ≤ a := by
  rw [Finset.disjoint_left]
  constructor
  · intro h
    by_contra hnot
    have hleft : max a c ∈ Finset.Ico a b := by
      rw [Finset.mem_Ico]
      omega
    have hright : max a c ∈ Finset.Ico c d := by
      rw [Finset.mem_Ico]
      omega
    exact h hleft hright
  · intro h x hx hx'
    rw [Finset.mem_Ico] at hx hx'
    omega

theorem sectorCount_of_pos (h : 0 < entry.sizeBytes) :
    entry.sectorCount = divCeil entry.sizeBytes sectorSize := by
  rw [ChunkEntry.sectorCount, if_neg (by omega)]

theorem divCeil_pos {n : ℕ} (h : 0 < n) : 0 < divCeil n sectorSize := by
  unfold divCeil sectorSize
  omega

theorem le_divCeil_mul (n : ℕ) : n ≤ divCeil n sectorSize * sectorSize := by
  unfold divCeil sectorSize
  omega

theorem length_padToSector (data : List UInt8) :
    (padToSector data).length = divCeil data.length sectorSize * sectorSize := by
  rw [padToSector, length_append, length_replicate]
  unfold divCeil sectorSize
  omega

/-! ### Validation -/

theorem validateChunkEntry_eq_ok : validateChunkEntry entry fileSectors = .ok () ↔
      firstDataSector ≤ entry.sectorOffset ∧
      (0 < entry.sizeBytes ∧ entry.sizeBytes ≤ maxChunkSize) ∧
      entry.sectorOffset + entry.sectorCount < 4294967296 ∧
      entry.sectorOffset + entry.sectorCount ≤ fileSectors := by
  unfold validateChunkEntry
  dsimp only
  split_ifs with hstart hsize hoverflow hend
  · simp only [false_iff]
    omega
  · simp only [false_iff]
    omega
  · simp only [false_iff]
    omega
  · simp only [false_iff]
    omega
  · simp only [true_iff]
    omega

section Validate

variable {header : RegionHeader} {fileSectors : ℕ}

theorem validateEntry_eq_ok {occupied occupied' : Finset ℕ} {index : ChunkIndex} :
    validateEntry header fileSectors occupied index = .ok occupied' ↔
      ((header.entries index).exists' = false ∧ occupied' = occupied) ∨
      ((header.entries index).exists' = true ∧
        validateChunkEntry (header.entries index) fileSectors = .ok () ∧
        Disjoint (sectors (header.entries index)) occupied ∧
        occupied' = occupied ∪ sectors (header.entries index)) := by
  unfold validateEntry
  dsimp only
  cases hexists : (header.entries index).exists' with
  | false => simp [eq_comm]
  | true =>
    cases hvalid : validateChunkEntry (header.entries index) fileSectors with
    | error error => simp [bind, Except.bind]
    | ok result =>
      simp only [Bool.not_true, Bool.false_eq_true, if_false, bind, Except.bind]
      split_ifs with hdisjoint
      · simp [hdisjoint, eq_comm]
      · simp [hdisjoint]

theorem foldlM_validateEntry (indices : List ChunkIndex) (occupied : Finset ℕ) :
    (∃ occupied', indices.foldlM (validateEntry header fileSectors) occupied = .ok occupied') ↔
      (∀ index ∈ indices, (header.entries index).exists' = true →
        validateChunkEntry (header.entries index) fileSectors = .ok () ∧
        Disjoint (sectors (header.entries index)) occupied) ∧
      indices.Pairwise fun index other => (header.entries index).exists' = true →
        (header.entries other).exists' = true →
        Disjoint (sectors (header.entries index)) (sectors (header.entries other)) := by
  induction indices generalizing occupied with
  | nil =>
    refine ⟨fun _ => ⟨?_, List.Pairwise.nil⟩, fun _ => ⟨occupied, rfl⟩⟩
    intro index hindex
    cases hindex
  | cons index rest ih =>
    rw [foldlM_cons, pairwise_cons]
    constructor
    · rintro ⟨occupied', h⟩
      cases hstep : validateEntry header fileSectors occupied index with
      | error error =>
        rw [hstep] at h
        cases h
      | ok next =>
        rw [hstep] at h
        obtain ⟨hrest, hpairwise⟩ := (ih next).mp ⟨occupied', h⟩
        rcases validateEntry_eq_ok.mp hstep with ⟨hmissing, rfl⟩ | ⟨hexists, hvalid, hfree, rfl⟩
        · refine ⟨?_, ?_, hpairwise⟩
          · intro other hother hother'
            rcases mem_cons.mp hother with rfl | hother
            · rw [hmissing] at hother'
              cases hother'
            · exact hrest other hother hother'
          · intro other hother hindex'
            rw [hmissing] at hindex'
            cases hindex'
        · refine ⟨?_, ?_, hpairwise⟩
          · intro other hother hother'
            rcases mem_cons.mp hother with rfl | hother
            · exact ⟨hvalid, hfree⟩
            · obtain ⟨hvalid', hfree'⟩ := hrest other hother hother'
              exact ⟨hvalid', (Finset.disjoint_union_right.mp hfree').1⟩
          · intro other hother _ hother'
            obtain ⟨-, hfree'⟩ := hrest other hother hother'
            exact (Finset.disjoint_union_right.mp hfree').2.symm
    · rintro ⟨hall, hfirst, hpairwise⟩
      cases hexists : (header.entries index).exists' with
      | false =>
        have hstep : validateEntry header fileSectors occupied index = .ok occupied :=
          validateEntry_eq_ok.mpr (Or.inl ⟨hexists, rfl⟩)
        rw [hstep]
        exact (ih occupied).mpr ⟨fun other hother =>
          hall other (mem_cons_of_mem _ hother), hpairwise⟩
      | true =>
        obtain ⟨hvalid, hfree⟩ := hall index mem_cons_self hexists
        have hstep : validateEntry header fileSectors occupied index =
            .ok (occupied ∪ sectors (header.entries index)) :=
          validateEntry_eq_ok.mpr (Or.inr ⟨hexists, hvalid, hfree, rfl⟩)
        rw [hstep]
        refine (ih _).mpr ⟨?_, hpairwise⟩
        intro other hother hother'
        obtain ⟨hvalid', hfree'⟩ := hall other (mem_cons_of_mem _ hother) hother'
        refine ⟨hvalid', Finset.disjoint_union_right.mpr ⟨hfree', ?_⟩⟩
        exact (hfirst other hother hexists hother').symm

/-- A table is accepted exactly if its entries are placed apart. -/
theorem validateRegionEntries_eq_ok (hsectors : fileSectors < 4294967296) :
    validateRegionEntries header fileSectors = .ok () ↔ Placed header fileSectors := by
  have hfold : validateRegionEntries header fileSectors = .ok () ↔
      ∃ occupied', (List.finRange chunksPerRegion).foldlM (validateEntry header fileSectors)
        (Finset.range (min firstDataSector fileSectors)) = .ok occupied' := by
    unfold validateRegionEntries
    cases (List.finRange chunksPerRegion).foldlM (validateEntry header fileSectors)
        (Finset.range (min firstDataSector fileSectors)) with
    | error error => simp [bind, Except.bind]
    | ok occupied => simp [bind, Except.bind, pure, Except.pure]
  rw [hfold, foldlM_validateEntry]
  constructor
  · rintro ⟨hall, hpairwise⟩
    have hvalid : ∀ index, (header.entries index).exists' = true →
        validateChunkEntry (header.entries index) fileSectors = .ok () :=
      fun index hindex => (hall index (mem_finRange index) hindex).1
    refine ⟨?_, ?_, ?_, ?_⟩
    · intro index hindex
      exact (validateChunkEntry_eq_ok.mp (hvalid index hindex)).1
    · intro index hindex
      exact (validateChunkEntry_eq_ok.mp (hvalid index hindex)).2.1
    · intro index hindex
      exact (validateChunkEntry_eq_ok.mp (hvalid index hindex)).2.2.2
    · intro index other hne hindex hother
      have hsymm : Std.Symm fun index other : ChunkIndex =>
          (header.entries index).exists' = true → (header.entries other).exists' = true →
          Disjoint (sectors (header.entries index)) (sectors (header.entries other)) :=
        ⟨fun first second h hsecond hfirst => (h hfirst hsecond).symm⟩
      exact hpairwise.forall (mem_finRange index) (mem_finRange other) hne hindex hother
  · intro h
    refine ⟨?_, ?_⟩
    · intro index _ hindex
      have hstart := h.start index hindex
      have hstop := h.stop index hindex
      refine ⟨validateChunkEntry_eq_ok.mpr
        ⟨hstart, h.size index hindex, by omega, hstop⟩, ?_⟩
      rw [Finset.disjoint_left]
      intro sector hsector hheader
      rw [sectors, Finset.mem_Ico] at hsector
      rw [Finset.mem_range] at hheader
      omega
    · apply List.Nodup.pairwise_of_forall_ne (nodup_finRange _)
      intro index _ other _ hne hindex hother
      exact h.disjoint index other hne hindex hother

end Validate

/-! ### Finding room -/

theorem addU32_of_lt (h : a + b < 4294967296) : addU32 a b = a + b := by
  rw [addU32, Nat.mod_eq_of_lt h]

theorem le_findGap (sectorsNeeded fileSectors currentSector : ℕ) (ranges : List (ℕ × ℕ)) :
    currentSector ≤ RegionHeader.findGap sectorsNeeded fileSectors currentSector ranges := by
  induction ranges generalizing currentSector with
  | nil => exact le_max_left _ _
  | cons range rest ih =>
    rw [RegionHeader.findGap]
    split_ifs with hgap
    · exact le_rfl
    · exact (le_max_left _ _).trans (ih _)

variable {sectorsNeeded : ℕ}

theorem findGap_free {currentSector : ℕ} {ranges : List (ℕ × ℕ)}
    (hsorted : ranges.Pairwise fun first second => first.1 ≤ second.1)
    (hbound : RegionHeader.findGap sectorsNeeded fileSectors currentSector ranges + sectorsNeeded <
      4294967296) :
    ∀ range ∈ ranges,
      range.2 ≤ RegionHeader.findGap sectorsNeeded fileSectors currentSector ranges ∨
      RegionHeader.findGap sectorsNeeded fileSectors currentSector ranges + sectorsNeeded ≤
        range.1 := by
  induction ranges generalizing currentSector with
  | nil =>
    intro range hrange
    cases hrange
  | cons first rest ih =>
    obtain ⟨hfirst, hrest⟩ := pairwise_cons.mp hsorted
    have hle := le_findGap sectorsNeeded fileSectors currentSector (first :: rest)
    have hadd : addU32 currentSector sectorsNeeded = currentSector + sectorsNeeded :=
      addU32_of_lt (by omega)
    rw [RegionHeader.findGap, hadd] at hbound ⊢
    intro range hrange
    split_ifs at hbound ⊢ with hgap
    · right
      rcases mem_cons.mp hrange with rfl | hrange
      · exact hgap
      · exact hgap.trans (hfirst range hrange)
    · rcases mem_cons.mp hrange with rfl | hrange
      · left
        exact (le_max_right _ _).trans (le_findGap _ _ _ _)
      · exact ih hrest hbound range hrange

variable {handle : RegionHandle}

theorem mem_usedRanges {index : ChunkIndex} (h : (header.entries index).exists' = true) :
    ((header.entries index).sectorOffset,
      addU32 (header.entries index).sectorOffset (header.entries index).sectorCount) ∈
        header.usedRanges := by
  unfold RegionHeader.usedRanges
  rw [mem_mergeSort, mem_map]
  refine ⟨header.entries index, ?_, rfl⟩
  rw [mem_filter]
  exact ⟨mem_map.mpr ⟨index, mem_finRange index, rfl⟩, h⟩

theorem usedRanges_sorted (header : RegionHeader) :
    header.usedRanges.Pairwise fun first second => first.1 ≤ second.1 := by
  have hsorted : header.usedRanges.Pairwise fun first second =>
      decide (first.1 ≤ second.1) = true := by
    apply pairwise_mergeSort
    · intro first second third h h'
      simp only [decide_eq_true_eq] at h h' ⊢
      omega
    · intro first second
      simp only [Bool.or_eq_true, decide_eq_true_eq]
      omega
  simpa using hsorted

/-- New data is never placed over the sectors of another chunk. -/
theorem placement_free (h : Placed handle.header handle.fileSectors)
    (hsectors : handle.fileSectors < 4294967296) (index : ChunkIndex)
    (hneeded : 0 < sectorsNeeded)
    (hbound : handle.placement index sectorsNeeded + sectorsNeeded < 4294967296) :
    firstDataSector ≤ handle.placement index sectorsNeeded ∧
      ∀ other, other ≠ index → (handle.header.entries other).exists' = true →
        Disjoint (Finset.Ico (handle.placement index sectorsNeeded)
          (handle.placement index sectorsNeeded + sectorsNeeded))
          (sectors (handle.header.entries other)) := by
  unfold placement at hbound ⊢
  dsimp only at hbound ⊢
  split_ifs at hbound ⊢ with hreuse
  · -- inside the chunk's own sectors
    refine ⟨h.start index hreuse.1, ?_⟩
    intro other hne hother
    apply (h.disjoint index other hne.symm hreuse.1 hother).mono_left
    apply Finset.Ico_subset_Ico_right
    omega
  · have hfree : handle.header.findFreeSectors sectorsNeeded handle.fileSectors =
        RegionHeader.findGap sectorsNeeded handle.fileSectors firstDataSector
          handle.header.usedRanges := if_neg (by omega)
    rw [hfree] at hbound ⊢
    refine ⟨le_findGap _ _ _ _, ?_⟩
    intro other _ hother
    have hstop := h.stop other hother
    have hgap := findGap_free (usedRanges_sorted handle.header) hbound _ (mem_usedRanges hother)
    rw [addU32_of_lt (by omega)] at hgap
    have hcount : 0 < (handle.header.entries other).sectorCount := by
      rw [sectorCount_of_pos (h.size other hother).1]
      exact divCeil_pos (h.size other hother).1
    rw [sectors, disjoint_Ico_iff (by omega) (by omega)]
    exact hgap.symm

theorem placement_created (index : ChunkIndex) (hneeded : 0 < sectorsNeeded) :
    created.placement index sectorsNeeded = firstDataSector := by
  have hranges : RegionHeader.new.usedRanges = [] := by
    have hnone : ((List.finRange chunksPerRegion).map RegionHeader.new.entries).filter
        ChunkEntry.exists' = [] := by
      rw [filter_eq_nil_iff]
      intro entry hentry
      obtain ⟨index, -, rfl⟩ := mem_map.mp hentry
      exact Bool.false_ne_true
    rw [RegionHeader.usedRanges, hnone, map_nil, mergeSort_nil]
  unfold placement RegionHeader.findFreeSectors
  dsimp only [created]
  rw [hranges, if_neg (by simp [RegionHeader.new, ChunkEntry.exists', ChunkEntry.empty]),
    if_neg (by omega)]
  rfl

end RegionHandle

end Steel

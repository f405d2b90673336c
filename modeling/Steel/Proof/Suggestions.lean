import Mathlib.Data.List.Sort
import Mathlib.Order.MinMax
import Steel.Command.Brigadier.Suggestion

/-!
# Merged suggestions replace what the originals replace

A range that starts and ends between characters cuts the input into three parts. Widening a
suggestion moves the text between the two ranges from the input into the replacement, so that the
applied text stays the same.
-/

namespace Steel

open MeasuredText

theorem lenUtf16_pos (character : Char) : 0 < lenUtf16 character := by
  unfold lenUtf16
  split_ifs <;> decide

theorem lenUtf8_pos (character : Char) : 0 < lenUtf8 character := character.utf8Size_pos

/-- The slice between two starts of a text. -/
theorem sliceBytes_append (before middle after : List Char) :
    sliceBytes (before ++ middle ++ after) (lengthBy lenUtf8 before)
      (lengthBy lenUtf8 (before ++ middle)) = some middle := by
  have hstop : ¬lengthBy lenUtf8 (before ++ middle) < lengthBy lenUtf8 before := by
    rw [lengthBy_append]
    omega
  have hlength : lengthBy lenUtf8 (before ++ middle) - lengthBy lenUtf8 before =
      lengthBy lenUtf8 middle := by
    rw [lengthBy_append]
    omega
  rw [sliceBytes, List.append_assoc, splitAt_append lenUtf8_pos]
  simp only [Option.bind_eq_bind, Option.bind_some, if_neg hstop, hlength,
    splitAt_append lenUtf8_pos]
  rfl

namespace StringRange

theorem byteIndexFrom_append (before after : List Char) (byteIndex utf16Index : ℕ) :
    byteIndexFrom (utf16Index + lengthBy lenUtf16 before) (before ++ after) byteIndex utf16Index =
      some (byteIndex + lengthBy lenUtf8 before) := by
  induction before generalizing byteIndex utf16Index with
  | nil => cases after <;> exact if_pos rfl
  | cons character before ih =>
    have hcharacter := lenUtf16_pos character
    have hstart : ¬utf16Index = utf16Index + lengthBy lenUtf16 (character :: before) := by
      rw [lengthBy_cons]
      omega
    have hinside : ¬utf16Index + lengthBy lenUtf16 (character :: before) <
        utf16Index + lenUtf16 character := by
      rw [lengthBy_cons]
      omega
    rw [List.cons_append, byteIndexFrom, if_neg hstart, if_neg hinside, lengthBy_cons,
      ← Nat.add_assoc, ih, lengthBy_cons, Nat.add_assoc]

theorem byteIndex_append (before after : List Char) :
    byteIndex (before ++ after) (lengthBy lenUtf16 before) = some (lengthBy lenUtf8 before) := by
  have h := byteIndexFrom_append before after 0 0
  rwa [Nat.zero_add, Nat.zero_add] at h

/-- Start and end between characters of the input. -/
def Fits (range : StringRange) (input : List Char) : Prop :=
  OnBoundary lenUtf16 input range.start ∧ OnBoundary lenUtf16 input range.stop

instance (range : StringRange) (input : List Char) : Decidable (range.Fits input) :=
  decidable_of_iff ((splitAt lenUtf16 input range.start).isSome = true ∧
      (splitAt lenUtf16 input range.stop).isSome = true) <| by
    rw [Fits, onBoundary_iff lenUtf16_pos, onBoundary_iff lenUtf16_pos]

structure Cuts (range : StringRange) (before middle after : List Char) : Prop where
  start_eq : range.start = lengthBy lenUtf16 before
  stop_eq : range.stop = lengthBy lenUtf16 (before ++ middle)

theorem Fits.exists_cuts {range : StringRange} {input : List Char} (h : range.Fits input) :
    ∃ before middle after, input = before ++ middle ++ after ∧ range.Cuts before middle after := by
  obtain ⟨⟨before, rest, hinput, hstart⟩, ⟨start, after, hinput', hstop⟩⟩ := h
  have hle : lengthBy lenUtf16 before ≤ lengthBy lenUtf16 start := by
    rw [hstart, hstop]
    exact range.le
  obtain ⟨middle, rfl, rfl⟩ := exists_append_of_le lenUtf16_pos (hinput.symm.trans hinput') hle
  exact ⟨before, middle, after, hinput', hstart.symm, hstop.symm⟩

end StringRange

namespace Suggestion

open StringRange

variable {Tooltip : Type} {before middle after input : List Char} {range : StringRange}

theorem checkedByteRange_eq (h : range.Cuts before middle after) :
    checkedByteRange (before ++ middle ++ after) range =
      some (.ok (lengthBy lenUtf8 before, lengthBy lenUtf8 (before ++ middle))) := by
  have hstart : byteIndex (before ++ middle ++ after) range.start =
      some (lengthBy lenUtf8 before) := by
    rw [h.start_eq, List.append_assoc, byteIndex_append]
  have hstop : byteIndex (before ++ middle ++ after) range.stop =
      some (lengthBy lenUtf8 (before ++ middle)) := by
    rw [h.stop_eq, byteIndex_append]
  have hrange : range.byteRange (before ++ middle ++ after) =
      some (lengthBy lenUtf8 before, lengthBy lenUtf8 (before ++ middle)) := by
    rw [byteRange, hstart, hstop]
    rfl
  rw [checkedByteRange, hrange]

variable {suggestion : Suggestion Tooltip}

theorem apply_eq (h : suggestion.range.Cuts before middle after) :
    suggestion.apply (before ++ middle ++ after) =
      some (.ok (before ++ suggestion.text ++ after)) := by
  have hbefore : sliceBytes (before ++ middle ++ after) 0 (lengthBy lenUtf8 before) =
      some before := by
    have hslice := sliceBytes_append [] before (middle ++ after)
    rwa [List.nil_append, ← List.append_assoc, lengthBy_nil] at hslice
  have hafter : sliceBytes (before ++ middle ++ after) (lengthBy lenUtf8 (before ++ middle))
      (lengthBy lenUtf8 (before ++ middle ++ after)) = some after := by
    have hslice := sliceBytes_append (before ++ middle) after []
    rwa [List.append_nil] at hslice
  rw [apply, checkedByteRange_eq h]
  change (ExceptT.lift (sliceBytes _ 0 _) >>= _) = _
  rw [hbefore]
  change (ExceptT.lift (sliceBytes _ _ _) >>= _) = _
  rw [hafter]
  rfl

/-- Carry the original's tooltip and lead to the same text. -/
def CameFrom (input : List Char) (original suggestion : Suggestion Tooltip) : Prop :=
  suggestion.tooltip = original.tooltip ∧
    ∃ text, original.apply input = some (.ok text) ∧ suggestion.apply input = some (.ok text)

theorem CameFrom.refl (h : suggestion.range.Fits input) : CameFrom input suggestion suggestion := by
  obtain ⟨before, middle, after, rfl, hcuts⟩ := h.exists_cuts
  exact ⟨rfl, _, apply_eq hcuts, apply_eq hcuts⟩

/-- What an expansion to a different range that contains the suggestion's own puts together. -/
theorem expand_eq {first last : List Char}
    (hinner : suggestion.range.Cuts (before ++ first) middle (last ++ after))
    (houter : range.Cuts before (first ++ middle ++ last) after) (hne : range ≠ suggestion.range) :
    suggestion.expand (before ++ first ++ middle ++ last ++ after) range =
      some (.ok ⟨range, first ++ suggestion.text ++ last, suggestion.tooltip, none⟩) := by
  have hstart := houter.start_eq
  have hstop := houter.stop_eq
  have hstart' := hinner.start_eq
  have hstop' := hinner.stop_eq
  simp only [lengthBy_append] at hstart hstop hstart' hstop'
  have houtside : ¬(suggestion.range.start < range.start ∨ range.stop < suggestion.range.stop) := by
    omega
  have hbound := suggestion.range.stop_le
  have hbound' := range.stop_le
  have hle := suggestion.range.le
  have hfirst : between range.start suggestion.range.start =
      some ⟨range.start, suggestion.range.start, by omega, by omega⟩ := dif_pos (by omega)
  have hlast : between suggestion.range.stop range.stop =
      some ⟨suggestion.range.stop, range.stop, by omega, by omega⟩ := dif_pos (by omega)
  have hcuts : Cuts ⟨range.start, suggestion.range.start, by omega, by omega⟩ before first
      (middle ++ last ++ after) := ⟨houter.start_eq, hinner.start_eq⟩
  have hcuts' : Cuts ⟨suggestion.range.stop, range.stop, by omega, by omega⟩
      (before ++ first ++ middle) last after :=
    ⟨hinner.stop_eq, by rw [houter.stop_eq]; simp only [List.append_assoc]⟩
  have hchecked := checkedByteRange_eq hcuts
  have hchecked' := checkedByteRange_eq hcuts'
  have hslice := sliceBytes_append before first (middle ++ last ++ after)
  have hslice' := sliceBytes_append (before ++ first ++ middle) last after
  simp only [List.append_assoc] at hchecked hchecked' hslice hslice' ⊢
  rw [expand, if_neg houtside, if_neg hne, hfirst]
  change (checkedByteRange _ _ >>= _) = _
  rw [hchecked, hlast]
  change (checkedByteRange _ _ >>= _) = _
  rw [hchecked']
  change (ExceptT.lift (sliceBytes _ _ _) >>= _) = _
  rw [hslice]
  change (ExceptT.lift (sliceBytes _ _ _) >>= _) = _
  rw [hslice']
  simp only [List.append_assoc]
  rfl

/-- A suggestion widened to a range around its own leads to the same text. -/
theorem exists_expand (hinner : suggestion.range.Fits input) (houter : range.Fits input)
    (hstart : range.start ≤ suggestion.range.start) (hstop : suggestion.range.stop ≤ range.stop) :
    ∃ expanded, suggestion.expand input range = some (.ok expanded) ∧ expanded.range = range ∧
      CameFrom input suggestion expanded ∧
      (suggestion.integer = none → expanded.integer = none) := by
  by_cases hne : range = suggestion.range
  · have houtside :
        ¬(suggestion.range.start < range.start ∨ range.stop < suggestion.range.stop) := by omega
    refine ⟨suggestion, ?_, hne.symm, CameFrom.refl hinner, fun h => h⟩
    rw [expand, if_neg houtside, if_pos hne]
    rfl
  · obtain ⟨before, outer, after, hinput, hcuts⟩ := houter.exists_cuts
    obtain ⟨start, middle, rest, rfl, hcuts'⟩ := hinner.exists_cuts
    -- The inner cut lies between the two outer ones.
    obtain ⟨first, rfl, -⟩ : ∃ first, start = before ++ first ∧
        outer ++ after = first ++ (middle ++ rest) := by
      apply exists_append_of_le lenUtf16_pos
      · simpa only [List.append_assoc] using hinput.symm
      · rw [← hcuts.start_eq, ← hcuts'.start_eq]
        exact hstart
    obtain ⟨last, hmiddle, rfl⟩ : ∃ last, before ++ outer = before ++ first ++ middle ++ last ∧
        rest = last ++ after := by
      apply exists_append_of_le lenUtf16_pos hinput
      rw [← hcuts.stop_eq, ← hcuts'.stop_eq]
      exact hstop
    obtain rfl : outer = first ++ middle ++ last := by
      simpa only [List.append_assoc, List.append_cancel_left_eq] using hmiddle
    let expanded : Suggestion Tooltip :=
      ⟨range, first ++ (suggestion.text ++ last), suggestion.tooltip, none⟩
    have hexpand := expand_eq hcuts' hcuts hne
    have happly : expanded.apply _ = _ := apply_eq hcuts
    have happly' := apply_eq hcuts'
    simp only [List.append_assoc] at hexpand happly happly' ⊢
    refine ⟨expanded, hexpand, rfl, ⟨rfl, _, happly', ?_⟩, fun _ => rfl⟩
    rw [happly]
    simp only [expanded, List.append_assoc]

/-- Without integers the comparison is the lexicographic order of the lowercase texts. -/
theorem compareIgnoreCase_of_text (toLowercase : List Char → List Char)
    {first second : Suggestion Tooltip} (h : first.integer = none) :
    first.compareIgnoreCase toLowercase second =
      List.compareLex (compareOn Char.toNat) (toLowercase first.text)
        (toLowercase second.text) := by
  rw [compareIgnoreCase, h]

end Suggestion

/-- The least value of a list, also below a bound. -/
theorem foldl_min_spec {ι α : Type} [LinearOrder ι] (f : α → ι) (items : List α) (bound : ι) :
    (items.foldl (fun least item => min least (f item)) bound = bound ∨
      ∃ item ∈ items, items.foldl (fun least item => min least (f item)) bound = f item) ∧
    items.foldl (fun least item => min least (f item)) bound ≤ bound ∧
    ∀ item ∈ items, items.foldl (fun least item => min least (f item)) bound ≤ f item := by
  induction items generalizing bound with
  | nil => exact ⟨.inl rfl, le_rfl, fun _ h => absurd h List.not_mem_nil⟩
  | cons item items ih =>
    obtain ⟨hfound, hbound, hitems⟩ := ih (min bound (f item))
    refine ⟨?_, hbound.trans (min_le_left _ _), ?_⟩
    · rcases hfound with hfound | ⟨other, hother, hfound⟩
      · rcases min_choice bound (f item) with hmin | hmin
        · exact .inl (hfound.trans hmin)
        · exact .inr ⟨item, List.mem_cons_self, hfound.trans hmin⟩
      · exact .inr ⟨other, List.mem_cons_of_mem item hother, hfound⟩
    · intro other hother
      rcases List.mem_cons.mp hother with rfl | hother
      · exact hbound.trans (min_le_right _ _)
      · exact hitems other hother

theorem foldl_max_spec {ι α : Type} [LinearOrder ι] (f : α → ι) (items : List α) (bound : ι) :
    (items.foldl (fun greatest item => max greatest (f item)) bound = bound ∨
      ∃ item ∈ items, items.foldl (fun greatest item => max greatest (f item)) bound = f item) ∧
    bound ≤ items.foldl (fun greatest item => max greatest (f item)) bound ∧
    ∀ item ∈ items, f item ≤ items.foldl (fun greatest item => max greatest (f item)) bound :=
  foldl_min_spec (fun item => OrderDual.toDual (f item)) items (OrderDual.toDual bound)

namespace Suggestions

open Suggestion StringRange

variable {Tooltip : Type} {input : List Char} {suggestions : List (Suggestion Tooltip)}

/-- The common range starts and ends where one of the ranges does, and contains them all. -/
theorem exists_common_range (hne : suggestions ≠ [])
    (hfits : ∀ suggestion ∈ suggestions, suggestion.range.Fits input) :
    ∃ range, StringRange.between
        (suggestions.foldl (fun start suggestion => min start suggestion.range.start) usizeMax)
        (suggestions.foldl (fun stop suggestion => max stop suggestion.range.stop) 0) = some range ∧
      range.Fits input ∧ ∀ suggestion ∈ suggestions,
        range.start ≤ suggestion.range.start ∧ suggestion.range.stop ≤ range.stop := by
  obtain ⟨one, hone⟩ := List.exists_mem_of_ne_nil _ hne
  obtain ⟨hstart, -, hleast⟩ := foldl_min_spec (fun suggestion : Suggestion Tooltip =>
    suggestion.range.start) suggestions usizeMax
  obtain ⟨hstop, -, hgreatest⟩ := foldl_max_spec (fun suggestion : Suggestion Tooltip =>
    suggestion.range.stop) suggestions 0
  generalize suggestions.foldl (fun start suggestion => min start suggestion.range.start) usizeMax =
    start at hstart hleast ⊢
  generalize suggestions.foldl (fun stop suggestion => max stop suggestion.range.stop) 0 =
    stop at hstop hgreatest ⊢
  have hone_le := one.range.le
  have hone_bound := one.range.stop_le
  have hleast_one := hleast one hone
  have hgreatest_one := hgreatest one hone
  obtain ⟨first, hfirst, rfl⟩ : ∃ first ∈ suggestions, start = first.range.start := by
    rcases hstart with rfl | hstart
    · exact ⟨one, hone, by omega⟩
    · exact hstart
  obtain ⟨last, hlast, rfl⟩ : ∃ last ∈ suggestions, stop = last.range.stop := by
    rcases hstop with rfl | hstop
    · exact ⟨one, hone, by omega⟩
    · exact hstop
  have hlast_bound := last.range.stop_le
  refine ⟨⟨first.range.start, last.range.stop, by omega, hlast_bound⟩, dif_pos (by omega),
    ⟨(hfits first hfirst).1, (hfits last hlast).2⟩, ?_⟩
  exact fun suggestion hsuggestion =>
    ⟨hleast suggestion hsuggestion, hgreatest suggestion hsuggestion⟩

variable {expanded : List (Suggestion Tooltip)}

/-- The sort can only panic if there are integers among the suggestions. -/
theorem exists_sorted (library : SuggestionLibrary Tooltip)
    (htext : ∀ suggestion ∈ expanded, suggestion.integer = none) :
    ∃ sorted, library.sortBy (compareIgnoreCase library.toLowercase) expanded = some sorted := by
  refine library.sortBy_isSome _ _ ?_ ?_
  · intro first hfirst second hsecond
    rw [compareIgnoreCase_of_text _ (htext first hfirst),
      compareIgnoreCase_of_text _ (htext second hsecond)]
    exact Std.OrientedCmp.eq_swap
  · intro first hfirst second hsecond third _
    rw [compareIgnoreCase_of_text _ (htext first hfirst),
      compareIgnoreCase_of_text _ (htext second hsecond),
      compareIgnoreCase_of_text _ (htext first hfirst)]
    exact Std.TransCmp.le_trans

structure Collected (input : List Char) (range : StringRange) (suggestions expanded :
    List (Suggestion Tooltip)) : Prop where
  nodup : expanded.Nodup
  origin : ∀ suggestion ∈ expanded, suggestion.range = range ∧
    ∃ original ∈ suggestions, CameFrom input original suggestion ∧
      (original.integer = none → suggestion.integer = none)

variable [DecidableEq Tooltip]

theorem Collected.pushExpanded {range : StringRange} {suggestion : Suggestion Tooltip}
    (hexpanded : Collected input range suggestions expanded) (hmem : suggestion ∈ suggestions)
    (hinner : suggestion.range.Fits input) (houter : range.Fits input)
    (hstart : range.start ≤ suggestion.range.start) (hstop : suggestion.range.stop ≤ range.stop) :
    Completes (pushExpanded input range expanded suggestion)
      (fun expanded' => Collected input range suggestions expanded' ∧
        (∃ merged ∈ expanded', CameFrom input suggestion merged) ∧
        ∀ other, (∃ merged ∈ expanded, CameFrom input other merged) →
          ∃ merged ∈ expanded', CameFrom input other merged) (fun _ => False) := by
  obtain ⟨widened, hexpand, hrange, hcame, hinteger⟩ := exists_expand hinner houter hstart hstop
  rw [Suggestions.pushExpanded, hexpand]
  refine Completes.bind_ok ?_
  split_ifs with hknown
  · exact .ok ⟨hexpanded, ⟨widened, hknown, hcame⟩, fun _ h => h⟩
  · refine .ok ⟨⟨?_, ?_⟩, ⟨widened, List.mem_append_right _ List.mem_cons_self, hcame⟩, ?_⟩
    · refine List.Nodup.append hexpanded.nodup (List.nodup_singleton _) ?_
      rw [List.disjoint_singleton]
      exact hknown
    · intro merged hmerged
      rcases List.mem_append.mp hmerged with hmerged | hmerged
      · exact hexpanded.origin merged hmerged
      · obtain rfl := List.mem_singleton.mp hmerged
        exact ⟨hrange, suggestion, hmem, hcame, hinteger⟩
    · rintro other ⟨merged, hmerged, hother⟩
      exact ⟨merged, List.mem_append_left _ hmerged, hother⟩

/-- Every suggestion is kept in the widest range; only a comparison of integers can panic. -/
theorem create_spec (library : SuggestionLibrary Tooltip)
    (hfits : ∀ suggestion ∈ suggestions, suggestion.range.Fits input) :
    (create library input suggestions = none ∧
      ∃ suggestion ∈ suggestions, suggestion.integer ≠ none) ∨
    ∃ merged, create library input suggestions = some (.ok merged) ∧ merged.range.Fits input ∧
      Collected input merged.range suggestions merged.suggestions ∧
      ∀ original ∈ suggestions, ∃ suggestion ∈ merged.suggestions,
        CameFrom input original suggestion := by
  by_cases hne : suggestions = []
  · subst hne
    refine .inr ⟨empty, rfl, ⟨⟨[], input, rfl, rfl⟩, ⟨[], input, rfl, rfl⟩⟩,
      ⟨List.nodup_nil, ?_⟩, ?_⟩
    · exact fun _ h => absurd h List.not_mem_nil
    · exact fun _ h => absurd h List.not_mem_nil
  · obtain ⟨range, hrange, houter, hinside⟩ := exists_common_range hne hfits
    have hcollected : Completes (suggestions.foldlM (pushExpanded input range) [])
        (fun expanded => Collected input range suggestions expanded ∧
          (∀ original ∈ suggestions, ∃ merged ∈ expanded, CameFrom input original merged) ∧
          ∀ other, (∃ merged ∈ [], CameFrom input other merged) →
            ∃ merged ∈ expanded, CameFrom input other merged) (fun _ => False) := by
      refine Completes.foldlM ⟨List.nodup_nil, fun _ h => absurd h List.not_mem_nil⟩ ?_
      intro expanded hexpanded suggestion hsuggestion
      obtain ⟨hstart, hstop⟩ := hinside suggestion hsuggestion
      exact hexpanded.pushExpanded hsuggestion (hfits suggestion hsuggestion) houter hstart hstop
    obtain ⟨expanded, hexpanded, hcollected, hrepresented, -⟩ | ⟨_, _, hfalse⟩ := hcollected
    swap
    · exact hfalse.elim
    have hcreate : create library input suggestions =
        (ExceptT.lift (library.sortBy (compareIgnoreCase library.toLowercase) expanded) >>=
          fun sorted => return ⟨range, sorted⟩) := by
      rw [create, if_neg (by rwa [List.isEmpty_iff])]
      dsimp only
      rw [hrange]
      change (suggestions.foldlM (pushExpanded input range) [] >>= _) = _
      rw [hexpanded]
      rfl
    cases hsort : library.sortBy (compareIgnoreCase library.toLowercase) expanded with
    | none =>
      refine .inl ⟨by rw [hcreate, hsort]; rfl, ?_⟩
      by_contra! htext
      have htext' : ∀ merged ∈ expanded, merged.integer = none := by
        intro merged hmerged
        obtain ⟨-, original, horiginal, -, hinteger⟩ := hcollected.origin merged hmerged
        exact hinteger (htext original horiginal)
      obtain ⟨sorted, hsorted⟩ := exists_sorted library htext'
      rw [hsort] at hsorted
      cases hsorted
    | some sorted =>
      have hperm := library.sortBy_perm _ _ _ hsort
      refine .inr ⟨⟨range, sorted⟩, by rw [hcreate, hsort]; rfl, houter, ⟨?_, ?_⟩, ?_⟩
      · exact hperm.nodup_iff.mpr hcollected.nodup
      · exact fun merged hmerged => hcollected.origin merged (hperm.mem_iff.mp hmerged)
      · intro original horiginal
        obtain ⟨merged, hmerged, hcame⟩ := hrepresented original horiginal
        exact ⟨merged, hperm.mem_iff.mpr hmerged, hcame⟩

/--
Merging sets whose ranges fit the input. Every merged suggestion leads to the text of an original
and every original is represented. More than one set is widened to a common range and loses its
duplicates; a single set comes back as it is.
-/
theorem merge_spec (library : SuggestionLibrary Tooltip) (input : List Char)
    (sets : List (Suggestions Tooltip))
    (hfits : ∀ set ∈ sets, set.range.Fits input ∧
      ∀ suggestion ∈ set.suggestions, suggestion.range.Fits input) :
    (merge library input sets = none ∧
      ∃ set ∈ sets, ∃ suggestion ∈ set.suggestions, suggestion.integer ≠ none) ∨
    ∃ merged, merge library input sets = some (.ok merged) ∧ merged.range.Fits input ∧
      (∀ suggestion ∈ merged.suggestions, suggestion.range.Fits input ∧
        ∃ set ∈ sets, ∃ original ∈ set.suggestions, CameFrom input original suggestion) ∧
      (∀ set ∈ sets, ∀ original ∈ set.suggestions, ∃ suggestion ∈ merged.suggestions,
        CameFrom input original suggestion) ∧
      (sets.length ≠ 1 → merged.suggestions.Nodup ∧
        ∀ suggestion ∈ merged.suggestions, suggestion.range = merged.range) ∧
      (sets.length = 1 → sets = [merged]) := by
  match sets with
  | [] =>
    refine .inr ⟨empty, rfl, ⟨⟨[], input, rfl, rfl⟩, ⟨[], input, rfl, rfl⟩⟩, ?_, ?_, ?_, ?_⟩
    · exact fun _ h => absurd h List.not_mem_nil
    · exact fun _ h => absurd h List.not_mem_nil
    · exact fun _ => ⟨List.nodup_nil, fun _ h => absurd h List.not_mem_nil⟩
    · exact fun h => absurd h Nat.zero_ne_one
  | [first] =>
    obtain ⟨hrange, hsuggestions⟩ := hfits first List.mem_cons_self
    refine .inr ⟨first, rfl, hrange, ?_, ?_, fun h => absurd rfl h, fun _ => rfl⟩
    · intro suggestion hsuggestion
      have hfit := hsuggestions suggestion hsuggestion
      exact ⟨hfit, first, List.mem_cons_self, suggestion, hsuggestion, CameFrom.refl hfit⟩
    · intro set hset original horiginal
      obtain rfl := List.mem_singleton.mp hset
      exact ⟨original, horiginal, CameFrom.refl (hsuggestions original horiginal)⟩
  | first :: second :: rest =>
    have hall : ∀ suggestion ∈ (first :: second :: rest).flatMap Suggestions.suggestions,
        suggestion.range.Fits input := by
      intro suggestion hsuggestion
      obtain ⟨set, hset, hsuggestion⟩ := List.mem_flatMap.mp hsuggestion
      exact (hfits set hset).2 suggestion hsuggestion
    rcases create_spec library hall with ⟨hnone, suggestion, hsuggestion, hinteger⟩ |
      ⟨merged, hmerged, hrange, hcollected, hrepresented⟩
    · obtain ⟨set, hset, hsuggestion⟩ := List.mem_flatMap.mp hsuggestion
      exact .inl ⟨hnone, set, hset, suggestion, hsuggestion, hinteger⟩
    · refine .inr ⟨merged, hmerged, hrange, ?_, ?_, ?_, fun h => by simp at h⟩
      · intro suggestion hsuggestion
        obtain ⟨hshared, original, horiginal, hcame, -⟩ := hcollected.origin suggestion hsuggestion
        obtain ⟨set, hset, horiginal⟩ := List.mem_flatMap.mp horiginal
        exact ⟨hshared ▸ hrange, set, hset, original, horiginal, hcame⟩
      · intro set hset original horiginal
        exact hrepresented original (List.mem_flatMap.mpr ⟨set, hset, horiginal⟩)
      · exact fun _ => ⟨hcollected.nodup, fun suggestion h => (hcollected.origin suggestion h).1⟩

/-- A stable sort that never panics. -/
def insertionLibrary : SuggestionLibrary Unit where
  toLowercase := id
  sortBy order suggestions :=
    some (suggestions.insertionSort fun first second => order first second ≠ .gt)
  sortBy_perm _ suggestions sorted h := by
    obtain rfl := Option.some.inj h
    exact suggestions.perm_insertionSort _
  sortBy_isSome _ _ _ _ := ⟨_, rfl⟩

def plain (range : StringRange) (text : List Char) (integer : Option ℤ) : Suggestion Unit :=
  ⟨range, text, none, integer⟩

def single (range : StringRange) (text : List Char) : Suggestions Unit :=
  ⟨range, [plain range text none]⟩

/-- Two sets for the input `a😀` that replace the face and what follows it. -/
theorem merge_spec_faces :
    ∃ merged, merge insertionLibrary ['a', '😀']
        [single ⟨1, 3, by decide, by decide⟩ ['x'],
          single ⟨3, 3, by decide, by decide⟩ ['!']] = some (.ok merged) ∧
      merged.suggestions.Nodup := by
  obtain ⟨-, hinteger⟩ | ⟨merged, hmerged, -, -, -, hnodup, -⟩ :=
    merge_spec insertionLibrary ['a', '😀']
      [single ⟨1, 3, by decide, by decide⟩ ['x'],
        single ⟨3, 3, by decide, by decide⟩ ['!']] (by decide)
  · exact absurd hinteger (by decide)
  · exact ⟨merged, hmerged, (hnodup (by decide)).1⟩

/--
A single set keeps its duplicates, a range inside a character is only noticed when it is widened,
and the comparison the merged suggestions are sorted with is not transitive: `10` is before `5`,
which is before `9`, while the integer ten is after nine.
-/
theorem merge_keeps_duplicates :
    (∃ merged, merge insertionLibrary ['a']
        [⟨⟨0, 1, by decide, by decide⟩,
          [plain ⟨0, 1, by decide, by decide⟩ ['b'] none,
            plain ⟨0, 1, by decide, by decide⟩ ['b'] none]⟩] =
        some (.ok merged) ∧
      ¬merged.suggestions.Nodup) ∧
    (∃ merged, merge insertionLibrary ['😀']
        [single ⟨1, 1, by decide, by decide⟩ ['b'],
          single ⟨1, 1, by decide, by decide⟩ ['c']] = some (.ok merged) ∧
      ∃ suggestion ∈ merged.suggestions, ¬suggestion.range.Fits ['😀']) ∧
    compareIgnoreCase id (plain ⟨0, 0, by decide, by decide⟩ ['1', '0'] (some 10))
      (plain ⟨0, 0, by decide, by decide⟩ ['5'] none) = .lt ∧
    compareIgnoreCase id (plain ⟨0, 0, by decide, by decide⟩ ['5'] none)
      (plain ⟨0, 0, by decide, by decide⟩ ['9'] (some 9)) = .lt ∧
    compareIgnoreCase id (plain ⟨0, 0, by decide, by decide⟩ ['1', '0'] (some 10))
      (plain ⟨0, 0, by decide, by decide⟩ ['9'] (some 9)) = .gt := by
  refine ⟨⟨_, rfl, by decide⟩, ⟨_, rfl, by decide⟩, by decide, by decide, by decide⟩

end Suggestions

end Steel

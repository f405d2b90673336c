import Steel.Lib.HashMap
import Steel.Utils.Nbt.Tag

/-!
# Comparing and merging NBT

On tags whose compounds have every key once, equality is an equivalence and matching a part is a
preorder that it implies. A compound matches what it was merged into, and merging it again changes
at most the order of entries.
-/

namespace Steel

open List

namespace NbtTag

def Leaf (tag : NbtTag) : Prop :=
  (∀ kind tags, tag ≠ .list kind tags) ∧ ∀ entries, tag ≠ .compound entries

inductive DuplicateFree : NbtTag → Prop
  | leaf {tag : NbtTag} : tag.Leaf → DuplicateFree tag
  | list {kind : NbtListKind} {tags : List NbtTag} :
    (∀ tag ∈ tags, DuplicateFree tag) → DuplicateFree (.list kind tags)
  | compound {entries : NbtCompound} : (entries.map Prod.fst).Nodup →
    (∀ entry ∈ entries, DuplicateFree entry.2) → DuplicateFree (.compound entries)

theorem not_leaf_compound {entries : NbtCompound} : ¬(NbtTag.compound entries).Leaf :=
  fun h => h.2 entries rfl

theorem not_leaf_list {kind : NbtListKind} {tags : List NbtTag} : ¬(NbtTag.list kind tags).Leaf :=
  fun h => h.1 kind tags rfl

namespace DuplicateFree

variable {entries : NbtCompound} {tag : NbtTag}

theorem nodup (h : (NbtTag.compound entries).DuplicateFree) : (entries.map Prod.fst).Nodup := by
  cases h with
  | leaf hleaf => exact absurd hleaf not_leaf_compound
  | compound hnodup _ => exact hnodup

theorem entry (h : (NbtTag.compound entries).DuplicateFree) {entry : NbtKey × NbtTag}
    (hentry : entry ∈ entries) : entry.2.DuplicateFree := by
  cases h with
  | leaf hleaf => exact absurd hleaf not_leaf_compound
  | compound _ hentries => exact hentries entry hentry

theorem unwrap (h : tag.DuplicateFree) : (unwrapListWrapper tag).DuplicateFree := by
  unfold unwrapListWrapper
  split
  · split_ifs
    · exact h.entry mem_cons_self
    · exact h
  · exact h

/-- An induction over the values of lists instead of what is stored for them. -/
theorem values_induction {motive : NbtTag → Prop} (leaf : ∀ tag : NbtTag, tag.Leaf → motive tag)
    (list : ∀ kind tags, (∀ tag ∈ nbtListValues tags, tag.DuplicateFree ∧ motive tag) →
      motive (.list kind tags))
    (compound : ∀ entries : NbtCompound, (NbtTag.compound entries).DuplicateFree →
      (∀ entry ∈ entries, motive entry.2) → motive (.compound entries))
    (h : tag.DuplicateFree) : motive tag := by
  suffices hboth : motive tag ∧ motive (unwrapListWrapper tag) from hboth.1
  induction h with
  | @leaf tag hleaf =>
    have hunwrap : unwrapListWrapper tag = tag := by
      unfold unwrapListWrapper
      split
      · exact absurd hleaf not_leaf_compound
      · rfl
    rw [hunwrap]
    exact ⟨leaf tag hleaf, leaf tag hleaf⟩
  | @list kind tags htags ih =>
    refine ⟨list kind tags fun value hvalue => ?_, list kind tags fun value hvalue => ?_⟩ <;>
    · obtain ⟨tag, htag, rfl⟩ := mem_map.mp hvalue
      exact ⟨(htags tag htag).unwrap, (ih tag htag).2⟩
  | @compound entries hnodup hentries ih =>
    have hcompound := compound entries (.compound hnodup hentries) fun entry hentry =>
      (ih entry hentry).1
    refine ⟨hcompound, ?_⟩
    match entries, hcompound, ih with
    | [(key, value)], hcompound, ih =>
      rw [unwrapListWrapper]
      split_ifs
      · exact (ih _ mem_cons_self).1
      · exact hcompound
    | [], hcompound, _ => exact hcompound
    | _ :: _ :: _, hcompound, _ => exact hcompound

end DuplicateFree

/-- All bits that are not a number become the same ones. -/
def canonicalNan : NbtTag → NbtTag
  | .float bits =>
    .float (if decide (0x7f800000 < bits &&& 0x7fffffff) then 0x7fc00000 else bits)
  | .double bits =>
    .double (if decide (0x7ff0000000000000 < bits &&& 0x7fffffffffffffff) then 0x7ff8000000000000
      else bits)
  | tag => tag

theorem canonical_eq_iff {α : Type} [DecidableEq α] (isNan : α → Bool) {nan : α}
    (hnan : isNan nan = true) (left right : α) :
    (isNan left && isNan right || left == right) = true ↔
      (if isNan left then nan else left) = if isNan right then nan else right := by
  cases hleft : isNan left <;> cases hright : isNan right
  · simp
  · have hne : left ≠ nan := fun heq => by simp [heq, hnan] at hleft
    have hne' : left ≠ right := fun heq => by simp [heq, hright] at hleft
    simp [hne, hne']
  · have hne : nan ≠ right := fun heq => by simp [← heq, hnan] at hright
    have hne' : left ≠ right := fun heq => by simp [← heq, hleft] at hright
    simp [hne, hne']
  · simp

end NbtTag

/-! ### What equality and matching say -/

variable {other tag : NbtTag} {kind : NbtListKind}

theorem nbtTagsEqual_leaf_iff (h : tag.Leaf) :
    nbtTagsEqual tag other = true ↔ tag.canonicalNan = other.canonicalNan := by
  cases tag with
  | list kind tags => exact absurd h NbtTag.not_leaf_list
  | compound entries => exact absurd h NbtTag.not_leaf_compound
  | float left =>
    cases other with
    | float right =>
      rw [nbtTagsEqual, NbtTag.canonicalNan, NbtTag.canonicalNan, NbtTag.float.injEq]
      exact NbtTag.canonical_eq_iff (fun bits => decide (0x7f800000 < bits &&& 0x7fffffff))
        (by decide) left right
    | _ => simp [nbtTagsEqual, NbtTag.canonicalNan]
  | double left =>
    cases other with
    | double right =>
      rw [nbtTagsEqual, NbtTag.canonicalNan, NbtTag.canonicalNan, NbtTag.double.injEq]
      exact NbtTag.canonical_eq_iff
        (fun bits => decide (0x7ff0000000000000 < bits &&& 0x7fffffffffffffff)) (by decide)
        left right
    | _ => simp [nbtTagsEqual, NbtTag.canonicalNan]
  | _ => cases other <;> simp [nbtTagsEqual, NbtTag.canonicalNan]

theorem leaf_of_canonicalNan_eq (h : tag.Leaf) (heq : tag.canonicalNan = other.canonicalNan) :
    other.Leaf := by
  constructor
  · rintro kind tags rfl
    cases tag <;> simp [NbtTag.canonicalNan, NbtTag.not_leaf_list] at h heq
  · rintro entries rfl
    cases tag <;> simp [NbtTag.canonicalNan, NbtTag.not_leaf_compound] at h heq

theorem compareNbt_leaf (h : tag.Leaf) (other : NbtTag) :
    compareNbt tag other = nbtTagsEqual tag other := by
  cases tag with
  | list kind tags => exact absurd h NbtTag.not_leaf_list
  | compound entries => exact absurd h NbtTag.not_leaf_compound
  | _ => rfl

theorem nbtEntriesEqual_iff {left right : NbtCompound} :
    nbtEntriesEqual left right = true ↔
      ∀ entry ∈ left, ∃ tag, right.get entry.1 = some tag ∧ nbtTagsEqual entry.2 tag = true := by
  induction left with
  | nil => simp [nbtEntriesEqual]
  | cons entry left ih =>
    rw [nbtEntriesEqual, Bool.and_eq_true, ih, forall_mem_cons]
    cases hget : right.get entry.1 with
    | none | some tag => simp

theorem nbtListValues_cons (tag : NbtTag) (tags : List NbtTag) :
    nbtListValues (tag :: tags) = unwrapListWrapper tag :: nbtListValues tags := rfl

theorem nbtValuesEqual_cons (tag other : NbtTag) (left right : List NbtTag) :
    nbtValuesEqual (tag :: left) (other :: right) =
      (nbtTagsEqual (unwrapListWrapper tag) other && nbtValuesEqual left right) := by
  unfold unwrapListWrapper
  split
  · rw [nbtValuesEqual]
    split_ifs <;> rfl
  case h_2 hplain =>
    rw [nbtValuesEqual]
    exact hplain

theorem nbtValuesEqual_iff {left right : List NbtTag} :
    nbtValuesEqual left right = true ↔
      Forall₂ (fun tag other => nbtTagsEqual tag other = true) (nbtListValues left) right := by
  induction left generalizing right with
  | nil => cases right <;> simp [nbtValuesEqual, nbtListValues]
  | cons tag left ih =>
    cases right with
    | nil =>
      have hfalse : nbtValuesEqual (tag :: left) [] = false := by
        cases tag <;> rw [nbtValuesEqual] <;> simp
      simp [hfalse, nbtListValues]
    | cons other right =>
      rw [nbtValuesEqual_cons, Bool.and_eq_true, ih, nbtListValues_cons, forall₂_cons]

theorem nbtTagsEqual_list {left : List NbtTag} :
    nbtTagsEqual (.list kind left) other = true ↔ ∃ otherKind right, other = .list otherKind right ∧
      Forall₂ (fun tag other => nbtTagsEqual tag other = true) (nbtListValues left)
        (nbtListValues right) := by
  cases other <;> simp [nbtTagsEqual, nbtValuesEqual_iff]

theorem nbtTagsEqual_compound {left : NbtCompound} :
    nbtTagsEqual (.compound left) other = true ↔ ∃ right : NbtCompound, other = .compound right ∧
      left.length = right.length ∧ ∀ entry ∈ left, ∃ tag, right.get entry.1 = some tag ∧
        nbtTagsEqual entry.2 tag = true := by
  cases other <;> simp [nbtTagsEqual, nbtEntriesEqual_iff]

theorem compareNbtCompounds_iff {expected actual : NbtCompound} :
    compareNbtCompounds expected actual = true ↔
      ∀ entry ∈ expected, ∃ tag, actual.get entry.1 = some tag ∧ compareNbt entry.2 tag = true := by
  induction expected with
  | nil => simp [compareNbtCompounds]
  | cons entry expected ih =>
    rw [compareNbtCompounds, Bool.and_eq_true, ih, forall_mem_cons]
    cases hget : actual.get entry.1 with
    | none | some tag => simp

theorem compareListsPartially_cons (tag : NbtTag) (expected actual : List NbtTag) :
    compareListsPartially (tag :: expected) actual =
      (actual.any (compareNbt (unwrapListWrapper tag)) &&
        compareListsPartially expected actual) := by
  unfold unwrapListWrapper
  split
  · rw [compareListsPartially]
    split_ifs <;> rfl
  case h_2 hplain =>
    rw [compareListsPartially]
    exact hplain

theorem compareListsPartially_iff {expected actual : List NbtTag} :
    compareListsPartially expected actual = true ↔
      ∀ tag ∈ nbtListValues expected, ∃ other ∈ actual, compareNbt tag other = true := by
  induction expected with
  | nil => simp [compareListsPartially, nbtListValues]
  | cons tag expected ih =>
    rw [compareListsPartially_cons, Bool.and_eq_true, ih, nbtListValues_cons, forall_mem_cons,
      any_eq_true]

/-- A list that is expected to be empty is matched by an empty list only. -/
theorem compareNbt_list {expected : List NbtTag} :
    compareNbt (.list kind expected) other = true ↔ ∃ otherKind actual,
      other = .list otherKind actual ∧ (expected = [] → actual = []) ∧
      expected.length ≤ actual.length ∧
      ∀ tag ∈ nbtListValues expected,
        ∃ other ∈ nbtListValues actual, compareNbt tag other = true := by
  cases other with
  | list otherKind actual =>
    rw [compareNbt]
    split_ifs with hempty
    · rw [List.isEmpty_iff] at hempty
      subst hempty
      constructor
      · intro hactual
        exact ⟨otherKind, actual, rfl, fun _ => List.isEmpty_iff.mp hactual, Nat.zero_le _,
          fun _ h => absurd h not_mem_nil⟩
      · rintro ⟨_, _, heq, hactual, _⟩
        cases heq
        rw [hactual rfl]
        rfl
    · have hne : expected ≠ [] := fun h => hempty (List.isEmpty_iff.mpr h)
      simp [compareListsPartially_iff, hne]
  | _ => simp [compareNbt, nbtTagsEqual]

theorem compareNbt_compound {expected : NbtCompound} :
    compareNbt (.compound expected) other = true ↔ ∃ actual : NbtCompound,
      other = .compound actual ∧ expected.length ≤ actual.length ∧
      ∀ entry ∈ expected, ∃ tag, actual.get entry.1 = some tag ∧ compareNbt entry.2 tag = true := by
  cases other <;> simp [compareNbt, nbtTagsEqual, compareNbtCompounds_iff]

theorem NbtCompound.mem_of_get {entries : NbtCompound} {key : NbtKey} {value : NbtTag}
    (h : entries.get key = some value) : (key, value) ∈ entries := by
  obtain ⟨before, after, rfl, _⟩ := lookup_eq_some_iff.mp h
  exact mem_append_right before mem_cons_self

/-! ### The laws of equality and matching -/

theorem forall₂_trans_of_mem {α : Type} {relation : α → α → Prop} {first second third : List α}
    (h : Forall₂ relation first second) (h' : Forall₂ relation second third)
    (htrans : ∀ a ∈ first, ∀ b c, relation a b → relation b c → relation a c) :
    Forall₂ relation first third := by
  induction h generalizing third with
  | nil => exact h'
  | cons hab _ ih =>
    obtain ⟨c, rest, hbc, hrest, rfl⟩ := forall₂_cons_left_iff.mp h'
    rw [forall_mem_cons] at htrans
    exact .cons (htrans.1 _ _ hab hbc) (ih hrest htrans.2)

namespace NbtTag.DuplicateFree

variable {tag other third : NbtTag}

theorem get_eq_some {entries : NbtCompound} (h : (NbtTag.compound entries).DuplicateFree)
    {key : NbtKey} {value : NbtTag} :
    entries.get key = some value ↔ (key, value) ∈ entries :=
  HashMap.list_lookup_eq_some_iff h.nodup

theorem equal_refl (h : tag.DuplicateFree) : nbtTagsEqual tag tag = true := by
  refine h.values_induction (motive := fun tag => nbtTagsEqual tag tag = true) ?_ ?_ ?_
  · exact fun tag hleaf => (nbtTagsEqual_leaf_iff hleaf).mpr rfl
  · intro kind tags ih
    exact nbtTagsEqual_list.mpr ⟨kind, tags, rfl, forall₂_same.mpr fun tag htag => (ih tag htag).2⟩
  · intro entries hfree ih
    exact nbtTagsEqual_compound.mpr ⟨entries, rfl, rfl, fun entry hentry =>
      ⟨entry.2, hfree.get_eq_some.mpr hentry, ih entry hentry⟩⟩

/-- The keys of one side are those of the other, since there are as many of them. -/
theorem equal_symm (h : tag.DuplicateFree) (other : NbtTag)
    (hequal : nbtTagsEqual tag other = true) : nbtTagsEqual other tag = true := by
  revert other
  refine h.values_induction (motive := fun tag => ∀ other,
    nbtTagsEqual tag other = true → nbtTagsEqual other tag = true) ?_ ?_ ?_
  · intro tag hleaf other hequal
    rw [nbtTagsEqual_leaf_iff hleaf] at hequal
    exact (nbtTagsEqual_leaf_iff (leaf_of_canonicalNan_eq hleaf hequal)).mpr hequal.symm
  · intro kind tags ih other hequal
    obtain ⟨otherKind, others, rfl, hvalues⟩ := nbtTagsEqual_list.mp hequal
    have hboth := (forall₂_and_left _ _).mpr ⟨fun tag htag => (ih tag htag).2, hvalues⟩
    exact nbtTagsEqual_list.mpr ⟨kind, tags, rfl, (hboth.imp fun tag other h => h.1 other h.2).flip⟩
  · intro entries hfree ih other hequal
    obtain ⟨others, rfl, hlength, hentries⟩ := nbtTagsEqual_compound.mp hequal
    have hsubset : entries.map Prod.fst ⊆ others.map Prod.fst := by
      intro key hkey
      obtain ⟨entry, hentry, rfl⟩ := mem_map.mp hkey
      obtain ⟨value, hvalue, _⟩ := hentries entry hentry
      exact mem_map.mpr ⟨(entry.1, value), NbtCompound.mem_of_get hvalue, rfl⟩
    have hperm : entries.map Prod.fst ~ others.map Prod.fst :=
      (subperm_of_subset hfree.nodup hsubset).perm_of_length_le (by simp [hlength])
    have hnodup : (others.map Prod.fst).Nodup := hperm.nodup_iff.mp hfree.nodup
    refine nbtTagsEqual_compound.mpr ⟨entries, rfl, hlength.symm, fun entry hentry => ?_⟩
    obtain ⟨key, otherValue⟩ := entry
    obtain ⟨⟨_, value⟩, hmem, rfl⟩ := mem_map.mp (hperm.mem_iff.mpr (mem_map_of_mem hentry))
    obtain ⟨value', hvalue', hequal'⟩ := hentries _ hmem
    have hsame := (HashMap.list_lookup_eq_some_iff hnodup).mpr hentry
    obtain rfl := Option.some.inj (hvalue'.symm.trans hsame)
    exact ⟨value, hfree.get_eq_some.mpr hmem, ih _ hmem _ hequal'⟩

/-- Equality passes through a tag with any keys. -/
theorem equal_trans (h : tag.DuplicateFree) (other third : NbtTag)
    (hequal : nbtTagsEqual tag other = true) (hequal' : nbtTagsEqual other third = true) :
    nbtTagsEqual tag third = true := by
  revert other third
  refine h.values_induction (motive := fun tag => ∀ other third, nbtTagsEqual tag other = true →
    nbtTagsEqual other third = true → nbtTagsEqual tag third = true) ?_ ?_ ?_
  · intro tag hleaf other third hequal hequal'
    rw [nbtTagsEqual_leaf_iff hleaf] at hequal ⊢
    rw [nbtTagsEqual_leaf_iff (leaf_of_canonicalNan_eq hleaf hequal)] at hequal'
    exact hequal.trans hequal'
  · intro kind tags ih other third hequal hequal'
    obtain ⟨otherKind, others, rfl, hvalues⟩ := nbtTagsEqual_list.mp hequal
    obtain ⟨thirdKind, thirds, rfl, hvalues'⟩ := nbtTagsEqual_list.mp hequal'
    exact nbtTagsEqual_list.mpr ⟨thirdKind, thirds, rfl,
      forall₂_trans_of_mem hvalues hvalues' fun tag htag => (ih tag htag).2⟩
  · intro entries hfree ih other third hequal hequal'
    obtain ⟨others, rfl, hlength, hentries⟩ := nbtTagsEqual_compound.mp hequal
    obtain ⟨thirds, rfl, hlength', hentries'⟩ := nbtTagsEqual_compound.mp hequal'
    refine nbtTagsEqual_compound.mpr ⟨thirds, rfl, hlength.trans hlength', fun entry hentry => ?_⟩
    obtain ⟨value, hvalue, hequal⟩ := hentries entry hentry
    obtain ⟨value', hvalue', hequal'⟩ := hentries' _ (NbtCompound.mem_of_get hvalue)
    exact ⟨value', hvalue', ih entry hentry _ _ hequal hequal'⟩

theorem compare_of_equal (h : tag.DuplicateFree) (other : NbtTag)
    (hequal : nbtTagsEqual tag other = true) : compareNbt tag other = true := by
  revert other
  refine h.values_induction (motive := fun tag => ∀ other,
    nbtTagsEqual tag other = true → compareNbt tag other = true) ?_ ?_ ?_
  · intro tag hleaf other hequal
    rwa [compareNbt_leaf hleaf]
  · intro kind tags ih other hequal
    obtain ⟨otherKind, others, rfl, hvalues⟩ := nbtTagsEqual_list.mp hequal
    have hlength : tags.length = others.length := by
      simpa [nbtListValues] using hvalues.length_eq
    refine compareNbt_list.mpr ⟨otherKind, others, rfl, ?_, hlength.le, fun tag htag => ?_⟩
    · rintro rfl
      exact length_eq_zero_iff.mp hlength.symm
    · obtain ⟨index, hindex, rfl⟩ := mem_iff_getElem.mp htag
      have hother : index < (nbtListValues others).length := hvalues.length_eq ▸ hindex
      exact ⟨_, getElem_mem hother, (ih _ htag).2 _ (hvalues.get hindex hother)⟩
  · intro entries hfree ih other hequal
    obtain ⟨others, rfl, hlength, hentries⟩ := nbtTagsEqual_compound.mp hequal
    refine compareNbt_compound.mpr ⟨others, rfl, hlength.le, fun entry hentry => ?_⟩
    obtain ⟨value, hvalue, hequal⟩ := hentries entry hentry
    exact ⟨value, hvalue, ih entry hentry value hequal⟩

theorem compare_refl (h : tag.DuplicateFree) : compareNbt tag tag = true :=
  h.compare_of_equal tag h.equal_refl

theorem compare_trans (h : tag.DuplicateFree) (other third : NbtTag)
    (hcompare : compareNbt tag other = true) (hcompare' : compareNbt other third = true) :
    compareNbt tag third = true := by
  revert other third
  refine h.values_induction (motive := fun tag => ∀ other third, compareNbt tag other = true →
    compareNbt other third = true → compareNbt tag third = true) ?_ ?_ ?_
  · intro tag hleaf other third hcompare hcompare'
    rw [compareNbt_leaf hleaf, nbtTagsEqual_leaf_iff hleaf] at hcompare ⊢
    have hother := leaf_of_canonicalNan_eq hleaf hcompare
    rw [compareNbt_leaf hother, nbtTagsEqual_leaf_iff hother] at hcompare'
    exact hcompare.trans hcompare'
  · intro kind tags ih other third hcompare hcompare'
    obtain ⟨otherKind, others, rfl, hempty, hlength, hvalues⟩ := compareNbt_list.mp hcompare
    obtain ⟨thirdKind, thirds, rfl, hempty', hlength', hvalues'⟩ := compareNbt_list.mp hcompare'
    refine compareNbt_list.mpr ⟨thirdKind, thirds, rfl, fun h => hempty' (hempty h),
      hlength.trans hlength', fun tag htag => ?_⟩
    obtain ⟨value, hvalue, hmatch⟩ := hvalues tag htag
    obtain ⟨value', hvalue', hmatch'⟩ := hvalues' value hvalue
    exact ⟨value', hvalue', (ih tag htag).2 _ _ hmatch hmatch'⟩
  · intro entries hfree ih other third hcompare hcompare'
    obtain ⟨others, rfl, hlength, hentries⟩ := compareNbt_compound.mp hcompare
    obtain ⟨thirds, rfl, hlength', hentries'⟩ := compareNbt_compound.mp hcompare'
    refine compareNbt_compound.mpr ⟨thirds, rfl, hlength.trans hlength', fun entry hentry => ?_⟩
    obtain ⟨value, hvalue, hmatch⟩ := hentries entry hentry
    obtain ⟨value', hvalue', hmatch'⟩ := hentries' _ (NbtCompound.mem_of_get hvalue)
    exact ⟨value', hvalue', ih entry hentry _ _ hmatch hmatch'⟩

end NbtTag.DuplicateFree

/-! ### Merging -/

namespace NbtCompound

variable {target source : NbtCompound} {key other : NbtKey} {value tag : NbtTag}

theorem get_cons (entry : NbtKey × NbtTag) :
    get (entry :: target) key = if key = entry.1 then some entry.2 else target.get key := by
  rw [get, lookup_cons, ← get]
  by_cases hkey : key = entry.1
  · rw [if_pos hkey, beq_iff_eq.mpr hkey]
  · rw [if_neg hkey, beq_eq_false_iff_ne.mpr hkey]

theorem get_eq_none (h : key ∉ target.map Prod.fst) : target.get key = none := by
  cases hget : target.get key with
  | none => rfl
  | some value => exact absurd (mem_map_of_mem (mem_of_get hget)) h

theorem get_set (h : target.get key = some tag) :
    (target.set key value).get other = if other = key then some value else target.get other := by
  induction target with
  | nil => cases h
  | cons entry target ih =>
    rw [get_cons] at h
    rw [set]
    split_ifs at h ⊢ with hkey hother hother
    · rw [get_cons, if_pos (hother.trans hkey)]
    · rw [get_cons, get_cons, if_neg (hkey ▸ hother), if_neg (hkey ▸ hother)]
    · rw [get_cons, if_neg (hother ▸ hkey), ih h, if_pos hother]
    · rw [get_cons, get_cons, ih h, if_neg hother]

theorem get_removeAll_insert :
    ((target.removeAll key).insert key value).get other =
      if other = key then some value else target.get other := by
  induction target with
  | nil => rw [removeAll, filter_nil, insert, nil_append, get_cons]
  | cons entry target ih =>
    rw [get_cons]
    by_cases hentry : entry.1 = key
    · have hremoved : removeAll (entry :: target) key = removeAll target key :=
        filter_cons_of_neg (by simpa using hentry)
      rw [hremoved, ih]
      split_ifs with hother hfirst
      · rfl
      · exact absurd (hfirst.trans hentry) hother
      · rfl
    · have hkept : removeAll (entry :: target) key = entry :: removeAll target key :=
        filter_cons_of_pos (by simpa using hentry)
      rw [hkept, insert, cons_append, get_cons, ← insert, ih]
      split_ifs with hfirst hother
      · exact absurd (hfirst.symm.trans hother) hentry
      · rfl
      · rfl
      · rfl

theorem map_fst_set : (target.set key value).map Prod.fst = target.map Prod.fst := by
  induction target with
  | nil => rfl
  | cons entry target ih =>
    rw [set]
    split_ifs
    · rfl
    · rw [map_cons, map_cons, ih]

theorem nodup_removeAll_insert (h : (target.map Prod.fst).Nodup) :
    (((target.removeAll key).insert key value).map Prod.fst).Nodup := by
  rw [insert, map_append, nodup_append]
  refine ⟨h.sublist (filter_sublist.map Prod.fst), nodup_singleton key, ?_⟩
  rintro other hother _ hkey rfl
  obtain ⟨entry, hentry, rfl⟩ := mem_map.mp hother
  exact (of_decide_eq_true (mem_filter.mp hentry).2) (mem_singleton.mp hkey)

/-- What a value of the source makes of what the target has. -/
def mergeValue : Option NbtTag → NbtTag → NbtTag
  | some (.compound targetCompound), .compound sourceCompound =>
    .compound (mergeNbtCompounds targetCompound sourceCompound)
  | _, sourceValue => sourceValue

theorem mergeNbtEntry_cases (target : NbtCompound) (key : NbtKey) (value : NbtTag) :
    (∃ tag, target.get key = some tag ∧
      mergeNbtEntry target key value = target.set key (mergeValue (target.get key) value)) ∨
    (mergeNbtEntry target key value = (target.removeAll key).insert key value ∧
      mergeValue (target.get key) value = value) := by
  cases value with
  | compound sourceCompound =>
    rw [mergeNbtEntry]
    cases target.get key with
    | none => exact .inr ⟨rfl, rfl⟩
    | some tag =>
      cases tag with
      | compound targetCompound => exact .inl ⟨_, rfl, rfl⟩
      | _ => exact .inr ⟨rfl, rfl⟩
  | _ => exact .inr ⟨rfl, by simp [mergeValue]⟩

theorem get_mergeNbtEntry :
    (mergeNbtEntry target key value).get other =
      if other = key then some (mergeValue (target.get key) value) else target.get other := by
  rcases mergeNbtEntry_cases target key value with ⟨tag, htag, heq⟩ | ⟨heq, hvalue⟩
  · rw [heq, get_set htag]
  · rw [heq, get_removeAll_insert, hvalue]

theorem nodup_mergeNbtCompounds (h : (target.map Prod.fst).Nodup) :
    ((mergeNbtCompounds target source).map Prod.fst).Nodup := by
  induction source generalizing target with
  | nil =>
    rw [mergeNbtCompounds]
    exact h
  | cons entry source ih =>
    rw [mergeNbtCompounds]
    apply ih
    rcases mergeNbtEntry_cases target entry.1 entry.2 with ⟨tag, _, heq⟩ | ⟨heq, _⟩
    · rw [heq, map_fst_set]
      exact h
    · rw [heq]
      exact nodup_removeAll_insert h

/-- Every key is merged by itself. -/
theorem get_mergeNbtCompounds (h : (source.map Prod.fst).Nodup) (target : NbtCompound)
    (key : NbtKey) :
    (mergeNbtCompounds target source).get key =
      match get source key with
      | none => target.get key
      | some value => some (mergeValue (target.get key) value) := by
  induction source generalizing target with
  | nil =>
    rw [mergeNbtCompounds]
    rfl
  | cons entry source ih =>
    rw [map_cons, nodup_cons] at h
    rw [mergeNbtCompounds, ih h.2, get_mergeNbtEntry, get_cons]
    split_ifs with hkey
    · rw [get_eq_none (hkey ▸ h.1), hkey]
    · rfl

theorem mem_map_fst_iff : key ∈ target.map Prod.fst ↔ ∃ value, target.get key = some value := by
  constructor
  · intro hkey
    cases hget : target.get key with
    | none =>
      obtain ⟨entry, hentry, rfl⟩ := mem_map.mp hkey
      have hne := lookup_eq_none_iff.mp hget entry hentry
      simp at hne
    | some value => exact ⟨value, rfl⟩
  · rintro ⟨value, hvalue⟩
    exact mem_map_of_mem (mem_of_get hvalue)

theorem mergeValue_cases (current : Option NbtTag) (value : NbtTag) :
    mergeValue current value = value ∨ ∃ targetCompound sourceCompound,
      current = some (.compound targetCompound) ∧ value = .compound sourceCompound ∧
      mergeValue current value = .compound (mergeNbtCompounds targetCompound sourceCompound) := by
  unfold mergeValue
  split
  · exact .inr ⟨_, _, rfl, rfl, rfl⟩
  · exact .inl rfl

/-- An entry of the source is merged into what the target has under its key. -/
theorem get_mergeNbtCompounds_of_mem (h : (NbtTag.compound source).DuplicateFree)
    (target : NbtCompound) {entry : NbtKey × NbtTag} (hentry : entry ∈ source) :
    (mergeNbtCompounds target source).get entry.1 =
      some (mergeValue (target.get entry.1) entry.2) := by
  rw [get_mergeNbtCompounds h.nodup, h.get_eq_some.mpr hentry]

/-- A target that takes over every entry of the source without a change stays the same. -/
theorem equal_mergeNbtCompounds (htarget : (NbtTag.compound target).DuplicateFree)
    (hsource : (NbtTag.compound source).DuplicateFree)
    (h : ∀ entry ∈ source, ∃ tag, target.get entry.1 = some tag ∧
      nbtTagsEqual (mergeValue (some tag) entry.2) tag = true) :
    nbtTagsEqual (.compound (mergeNbtCompounds target source)) (.compound target) = true := by
  have hentry : ∀ key value, (mergeNbtCompounds target source).get key = some value →
      ∃ tag, target.get key = some tag ∧ nbtTagsEqual value tag = true := by
    intro key value hvalue
    rw [get_mergeNbtCompounds hsource.nodup] at hvalue
    cases hget : get source key with
    | none =>
      rw [hget] at hvalue
      exact ⟨value, hvalue, (htarget.entry (mem_of_get hvalue)).equal_refl⟩
    | some sourceValue =>
      obtain ⟨tag, htag, hequal⟩ := h _ (mem_of_get hget)
      rw [hget, htag] at hvalue
      cases hvalue
      exact ⟨tag, htag, hequal⟩
  have hnodup : ((mergeNbtCompounds target source).map Prod.fst).Nodup :=
    nodup_mergeNbtCompounds htarget.nodup
  have hperm : (mergeNbtCompounds target source).map Prod.fst ~ target.map Prod.fst := by
    refine (perm_ext_iff_of_nodup hnodup htarget.nodup).mpr fun key => ?_
    rw [mem_map_fst_iff, mem_map_fst_iff]
    constructor
    · rintro ⟨value, hvalue⟩
      obtain ⟨tag, htag, _⟩ := hentry key value hvalue
      exact ⟨tag, htag⟩
    · rintro ⟨value, hvalue⟩
      rw [get_mergeNbtCompounds hsource.nodup]
      cases get source key with
      | none => exact ⟨value, hvalue⟩
      | some sourceValue => exact ⟨_, rfl⟩
  have hlength := hperm.length_eq
  rw [length_map, length_map] at hlength
  refine nbtTagsEqual_compound.mpr ⟨target, rfl, hlength, fun entry hmem => ?_⟩
  exact hentry entry.1 entry.2 ((HashMap.list_lookup_eq_some_iff hnodup).mpr hmem)

end NbtCompound

namespace NbtTag.DuplicateFree

open NbtCompound

variable {value : NbtTag}

theorem of_mem_option {target : NbtCompound} (h : (NbtTag.compound target).DuplicateFree)
    {key : NbtKey} {tag : NbtTag} (htag : tag ∈ target.get key) : tag.DuplicateFree :=
  h.entry (mem_of_get htag)

/-- An induction through compounds only. -/
theorem entries_induction {motive : NbtTag → Prop}
    (plain : ∀ value : NbtTag, value.DuplicateFree → (∀ entries, value ≠ .compound entries) →
      motive value)
    (compound : ∀ entries : NbtCompound, (NbtTag.compound entries).DuplicateFree →
      (∀ entry ∈ entries, motive entry.2) → motive (.compound entries))
    (h : value.DuplicateFree) : motive value := by
  induction h with
  | leaf hleaf => exact plain _ (.leaf hleaf) hleaf.2
  | list htags _ => exact plain _ (.list htags) nofun
  | compound hnodup hentries ih => exact compound _ (.compound hnodup hentries) ih

theorem mergeValue_plain (h : ∀ entries, value ≠ .compound entries) (current : Option NbtTag) :
    mergeValue current value = value := by
  rcases mergeValue_cases current value with heq | ⟨_, source, _, heq, _⟩
  · exact heq
  · exact absurd heq (h source)

theorem mergeValue_duplicateFree (h : value.DuplicateFree) (current : Option NbtTag)
    (hcurrent : ∀ tag ∈ current, tag.DuplicateFree) : (mergeValue current value).DuplicateFree := by
  revert current
  refine h.entries_induction (motive := fun value => ∀ current : Option NbtTag,
    (∀ tag ∈ current, tag.DuplicateFree) → (mergeValue current value).DuplicateFree) ?_ ?_
  · intro value hfree hplain current _
    rwa [mergeValue_plain hplain]
  · intro source hfree ih current hcurrent
    rcases mergeValue_cases current (.compound source) with heq | ⟨target, _, rfl, hsource, heq⟩
    · rwa [heq]
    · cases hsource
      have htarget := hcurrent _ rfl
      have hmerged : ((mergeNbtCompounds target source).map Prod.fst).Nodup :=
        nodup_mergeNbtCompounds htarget.nodup
      rw [heq]
      refine .compound hmerged fun entry hentry => ?_
      have hget : (mergeNbtCompounds target source).get entry.1 = some entry.2 :=
        (HashMap.list_lookup_eq_some_iff hmerged).mpr hentry
      rw [get_mergeNbtCompounds hfree.nodup] at hget
      cases hvalue : NbtCompound.get source entry.1 with
      | none =>
        rw [hvalue] at hget
        exact htarget.of_mem_option hget
      | some value =>
        rw [hvalue] at hget
        rw [← Option.some.inj hget]
        exact ih _ (mem_of_get hvalue) _ fun tag htag => htarget.of_mem_option htag

/-- The source matches a part of what it is merged into. -/
theorem compare_mergeValue (h : value.DuplicateFree) (current : Option NbtTag) :
    compareNbt value (mergeValue current value) = true := by
  revert current
  refine h.entries_induction (motive := fun value => ∀ current,
    compareNbt value (mergeValue current value) = true) ?_ ?_
  · intro value hfree hplain current
    rw [mergeValue_plain hplain]
    exact hfree.compare_refl
  · intro source hfree ih current
    rcases mergeValue_cases current (.compound source) with heq | ⟨target, _, rfl, hsource, heq⟩
    · rw [heq]
      exact hfree.compare_refl
    · cases hsource
      have hget := fun (entry : NbtKey × NbtTag) (hentry : entry ∈ source) =>
        get_mergeNbtCompounds_of_mem hfree target hentry
      have hsubset : source.map Prod.fst ⊆ (mergeNbtCompounds target source).map Prod.fst := by
        intro key hkey
        obtain ⟨entry, hentry, rfl⟩ := mem_map.mp hkey
        exact mem_map_fst_iff.mpr ⟨_, hget entry hentry⟩
      have hlength := (subperm_of_subset hfree.nodup hsubset).length_le
      rw [length_map, length_map] at hlength
      rw [heq]
      exact compareNbt_compound.mpr ⟨_, rfl, hlength, fun entry hentry =>
        ⟨_, hget entry hentry, ih entry hentry _⟩⟩

/-- Merging again changes nothing. -/
theorem equal_mergeValue (h : value.DuplicateFree) (current : Option NbtTag)
    (hcurrent : ∀ tag ∈ current, tag.DuplicateFree) :
    nbtTagsEqual (mergeValue (some (mergeValue current value)) value) (mergeValue current value) =
      true := by
  revert current
  refine h.entries_induction (motive := fun value => ∀ current : Option NbtTag,
    (∀ tag ∈ current, tag.DuplicateFree) →
    nbtTagsEqual (mergeValue (some (mergeValue current value)) value) (mergeValue current value) =
      true) ?_ ?_
  · intro value hfree hplain current _
    rw [mergeValue_plain hplain, mergeValue_plain hplain]
    exact hfree.equal_refl
  · intro source hfree ih current hcurrent
    have hmerged := hfree.mergeValue_duplicateFree current hcurrent
    rcases mergeValue_cases current (.compound source) with heq | ⟨target, _, rfl, hsource, heq⟩
    · -- The source was put there as it is, and merged into itself.
      rw [heq]
      refine equal_mergeNbtCompounds hfree hfree fun entry hentry => ?_
      exact ⟨entry.2, hfree.get_eq_some.mpr hentry, ih entry hentry none fun _ h => nomatch h⟩
    · cases hsource
      rw [heq] at hmerged ⊢
      refine equal_mergeNbtCompounds hmerged hfree fun entry hentry => ?_
      refine ⟨_, get_mergeNbtCompounds_of_mem hfree target hentry, ih entry hentry _ ?_⟩
      exact fun tag htag => (hcurrent _ rfl).of_mem_option htag

end NbtTag.DuplicateFree

abbrev DuplicateFreeTag := {tag : NbtTag // tag.DuplicateFree}

/-- Equality is an equivalence and implies a partial match, which is a preorder. The source of a
merge matches the result, and merging it again gives an equal compound. -/
theorem nbt_comparison_laws :
    Equivalence (fun left right : DuplicateFreeTag => nbtTagsEqual left.1 right.1 = true) ∧
    (∀ left right : DuplicateFreeTag, nbtTagsEqual left.1 right.1 = true →
      compareNbtOptions (some left.1) (some right.1) true = true) ∧
    (∀ tag : DuplicateFreeTag, compareNbtOptions (some tag.1) (some tag.1) true = true) ∧
    (∀ first second third : DuplicateFreeTag,
      compareNbtOptions (some first.1) (some second.1) true = true →
      compareNbtOptions (some second.1) (some third.1) true = true →
      compareNbtOptions (some first.1) (some third.1) true = true) ∧
    ∀ target source : NbtCompound, (NbtTag.compound target).DuplicateFree →
      (NbtTag.compound source).DuplicateFree →
      compareNbt (.compound source) (.compound (mergeNbtCompounds target source)) = true ∧
      nbtTagsEqual (.compound (mergeNbtCompounds (mergeNbtCompounds target source) source))
        (.compound (mergeNbtCompounds target source)) = true := by
  refine ⟨⟨fun tag => tag.2.equal_refl, fun {left right} => left.2.equal_symm right.1,
    fun {first second third} => first.2.equal_trans second.1 third.1⟩,
    fun left right => left.2.compare_of_equal right.1, fun tag => tag.2.compare_refl,
    fun first second third => first.2.compare_trans second.1 third.1, ?_⟩
  intro target source htarget hsource
  refine ⟨hsource.compare_mergeValue (some (.compound target)), ?_⟩
  exact hsource.equal_mergeValue (some (.compound target)) fun _ h => Option.some.inj h ▸ htarget

/-- A value that is replaced is put behind the entries that are merged in place. -/
theorem mergeNbtCompounds_again_reorders :
    ∃ target source : NbtCompound, (NbtTag.compound target).DuplicateFree ∧
      (NbtTag.compound source).DuplicateFree ∧
      mergeNbtCompounds (mergeNbtCompounds target source) source ≠
        mergeNbtCompounds target source := by
  refine ⟨[], [("a".toList, .byte 1), ("b".toList, .compound [])], .compound nodup_nil nofun,
    .compound (by decide) ?_, ?_⟩
  · intro entry hentry
    rcases mem_cons.mp hentry with rfl | hentry
    · exact .leaf ⟨nofun, nofun⟩
    · rw [mem_singleton.mp hentry]
      exact .compound nodup_nil nofun
  · intro heq
    have hkeys := congrArg (fun entries => entries.map Prod.fst) heq
    revert hkeys
    decide

end Steel

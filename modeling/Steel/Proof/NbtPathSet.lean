import Steel.Proof.NbtMerge
import Steel.Proof.NbtPathLevels

/-!
# What is selected after setting a value

Setting a value leaves it where its path leads, created parents included. A list that a branch
leaves equal to what it was is not written back, and zeros of either sign are equal; what a path
selects is therefore the value or equal to it.
-/

namespace Steel

open List

/-!
### Lists as they are stored

A list of values is stored as it is if they all have the same kind. Otherwise it is stored as
compounds, and the values that are not compounds are wrapped.
-/

namespace NbtTag

def listKind : NbtTag → NbtListKind
  | .byte _ => .byte
  | .short _ => .short
  | .int _ => .int
  | .long _ => .long
  | .float _ => .float
  | .double _ => .double
  | .byteArray _ => .byteArray
  | .string _ => .string
  | .list _ _ => .list
  | .compound _ => .compound
  | .intArray _ => .intArray
  | .longArray _ => .longArray

def wrap : NbtTag → NbtTag
  | .compound entries => .compound entries
  | tag => .compound [([], tag)]

/-- The tag is not mistaken for a wrapped value. -/
def Plain (tag : NbtTag) : Prop := unwrapListWrapper tag = tag

end NbtTag

def storeList (values : List NbtTag) : NbtListKind × List NbtTag :=
  match values with
  | [] => (.empty, [])
  | value :: rest =>
    if rest.all fun other => decide (other.listKind = value.listKind) then
      (value.listKind, value :: rest)
    else (.compound, (value :: rest).map NbtTag.wrap)

namespace NbtTag

theorem plain_compound {entries : NbtCompound} (h : ∀ entry ∈ entries, entry.1 ≠ []) :
    (NbtTag.compound entries).Plain := by
  rw [Plain]
  match entries, h with
  | [], _ => rfl
  | [(key, value)], h => rw [unwrapListWrapper, if_neg (h _ mem_cons_self)]
  | _ :: _ :: _, _ => rfl

end NbtTag

theorem nbtListValues_of_plain {values : List NbtTag} (h : ∀ value ∈ values, value.Plain) :
    nbtListValues values = values := by
  rw [nbtListValues, map_congr_left (g := id) h, map_id]

/-! ### Equality of tags -/

/-- The bits of equal numbers: the same, or those of two zeros. -/
def SameNumber {β : Type} (isNumber isZero : β → Prop) (left right : β) : Prop :=
  isNumber left ∧ isNumber right ∧ (left = right ∨ isZero left ∧ isZero right)

section SameNumber

variable {β : Type} {isNumber isZero : β → Prop} {left middle right : β}

theorem SameNumber.symm (h : SameNumber isNumber isZero left right) :
    SameNumber isNumber isZero right left := by
  obtain ⟨hleft, hright, hbits⟩ := h
  exact ⟨hright, hleft, hbits.imp Eq.symm And.symm⟩

theorem SameNumber.trans (h : SameNumber isNumber isZero left middle)
    (h' : SameNumber isNumber isZero middle right) : SameNumber isNumber isZero left right := by
  refine ⟨h.1, h'.2.1, ?_⟩
  rcases h.2.2 with rfl | hzero
  · exact h'.2.2
  · rcases h'.2.2 with rfl | hzero'
    · exact .inr hzero
    · exact .inr ⟨hzero.1, hzero'.2⟩

end SameNumber

theorem floatBitsEq_iff {left right : UInt32} :
    floatBitsEq left right = true ↔
      SameNumber (fun bits => bits &&& 0x7fffffff ≤ 0x7f800000)
        (fun bits => bits &&& 0x7fffffff = 0) left right := by
  have hdistrib : (left ||| right) &&& 0x7fffffff =
      left &&& 0x7fffffff ||| right &&& 0x7fffffff :=
    UInt32.toBitVec_inj.mp BitVec.and_or_distrib_right
  have hzero : (left ||| right) &&& 0x7fffffff = 0 ↔
      left &&& 0x7fffffff = 0 ∧ right &&& 0x7fffffff = 0 := by
    rw [hdistrib]
    exact UInt32.or_eq_zero_iff
  simp [floatBitsEq, SameNumber, hzero, and_assoc]

theorem doubleBitsEq_iff {left right : UInt64} :
    doubleBitsEq left right = true ↔
      SameNumber (fun bits => bits &&& 0x7fffffffffffffff ≤ 0x7ff0000000000000)
        (fun bits => bits &&& 0x7fffffffffffffff = 0) left right := by
  have hdistrib : (left ||| right) &&& 0x7fffffffffffffff =
      left &&& 0x7fffffffffffffff ||| right &&& 0x7fffffffffffffff :=
    UInt64.toBitVec_inj.mp BitVec.and_or_distrib_right
  have hzero : (left ||| right) &&& 0x7fffffffffffffff = 0 ↔
      left &&& 0x7fffffffffffffff = 0 ∧ right &&& 0x7fffffffffffffff = 0 := by
    rw [hdistrib]
    exact UInt64.or_eq_zero_iff
  simp [doubleBitsEq, SameNumber, hzero, and_assoc]

/-- Equal tags are the same, but for zeros and what holds them. -/
inductive EqualShape : NbtTag → NbtTag → Prop
  | same {tag : NbtTag} : tag.Leaf → EqualShape tag tag
  | float {left right : UInt32} : floatBitsEq left right = true →
      EqualShape (.float left) (.float right)
  | double {left right : UInt64} : doubleBitsEq left right = true →
      EqualShape (.double left) (.double right)
  | list (kind : NbtListKind) {left right : List NbtTag} : tagsEq left right = true →
      EqualShape (.list kind left) (.list kind right)
  | compound {left right : NbtCompound} : entriesEq left right = true →
      EqualShape (.compound left) (.compound right)

theorem equalShape_of_eq {left right : NbtTag} (h : left.eq right = true) :
    EqualShape left right := by
  cases left with
  | float left =>
    cases right with
    | float right => exact .float (by simpa only [NbtTag.eq] using h)
    | _ => simp only [NbtTag.eq, Bool.false_eq_true] at h
  | double left =>
    cases right with
    | double right => exact .double (by simpa only [NbtTag.eq] using h)
    | _ => simp only [NbtTag.eq, Bool.false_eq_true] at h
  | list leftKind left =>
    cases right with
    | list rightKind right =>
      simp only [NbtTag.eq, Bool.and_eq_true, beq_iff_eq] at h
      obtain ⟨rfl, h⟩ := h
      exact .list leftKind h
    | _ => simp only [NbtTag.eq, Bool.false_eq_true] at h
  | compound left =>
    cases right with
    | compound right => exact .compound (by simpa only [NbtTag.eq] using h)
    | _ => simp only [NbtTag.eq, Bool.false_eq_true] at h
  | _ =>
    cases right
    all_goals
      simp only [NbtTag.eq, beq_iff_eq, Bool.false_eq_true] at h
    subst h
    exact .same ⟨nofun, nofun⟩

mutual

theorem NbtTag.eq_symm (left right : NbtTag) (h : left.eq right = true) : right.eq left = true := by
  cases equalShape_of_eq h with
  | same => exact h
  | float hbits =>
    rw [NbtTag.eq, floatBitsEq_iff]
    exact (floatBitsEq_iff.mp hbits).symm
  | double hbits =>
    rw [NbtTag.eq, doubleBitsEq_iff]
    exact (doubleBitsEq_iff.mp hbits).symm
  | list kind htags =>
    rename_i left right
    rw [NbtTag.eq, beq_self_eq_true, Bool.true_and]
    exact tagsEq_symm left right htags
  | compound hentries =>
    rename_i left right
    rw [NbtTag.eq]
    exact entriesEq_symm left right hentries

theorem tagsEq_symm (left right : List NbtTag) (h : tagsEq left right = true) :
    tagsEq right left = true := by
  cases left with
  | nil => cases right <;> simp [tagsEq] at h ⊢
  | cons left lefts =>
    cases right with
    | nil => simp [tagsEq] at h
    | cons right rights =>
      simp only [tagsEq, Bool.and_eq_true] at h ⊢
      exact ⟨NbtTag.eq_symm left right h.1, tagsEq_symm lefts rights h.2⟩

theorem entriesEq_symm (left right : List (NbtKey × NbtTag))
    (h : entriesEq left right = true) : entriesEq right left = true := by
  cases left with
  | nil => cases right <;> simp [entriesEq] at h ⊢
  | cons left lefts =>
    cases right with
    | nil => simp [entriesEq] at h
    | cons right rights =>
      obtain ⟨key, tag⟩ := left
      simp only [entriesEq, Bool.and_eq_true, beq_iff_eq] at h ⊢
      exact ⟨⟨h.1.1.symm, NbtTag.eq_symm tag right.2 h.1.2⟩, entriesEq_symm lefts rights h.2⟩

end

mutual

theorem NbtTag.eq_trans (left middle right : NbtTag) (h : left.eq middle = true)
    (h' : middle.eq right = true) : left.eq right = true := by
  cases equalShape_of_eq h with
  | same => exact h'
  | float hbits =>
    cases equalShape_of_eq h' with
    | same => exact h
    | float hbits' =>
      rw [NbtTag.eq, floatBitsEq_iff]
      rw [floatBitsEq_iff] at hbits hbits'
      exact hbits.trans hbits'
  | double hbits =>
    cases equalShape_of_eq h' with
    | same => exact h
    | double hbits' =>
      rw [NbtTag.eq, doubleBitsEq_iff]
      rw [doubleBitsEq_iff] at hbits hbits'
      exact hbits.trans hbits'
  | list kind htags =>
    rename_i left middle
    cases equalShape_of_eq h' with
    | same => exact h
    | list _ htags' =>
      rename_i right
      rw [NbtTag.eq, beq_self_eq_true, Bool.true_and]
      exact tagsEq_trans left middle right htags htags'
  | compound hentries =>
    rename_i left middle
    cases equalShape_of_eq h' with
    | same => exact h
    | compound hentries' =>
      rename_i right
      rw [NbtTag.eq]
      exact entriesEq_trans left middle right hentries hentries'

theorem tagsEq_trans (left middle right : List NbtTag) (h : tagsEq left middle = true)
    (h' : tagsEq middle right = true) : tagsEq left right = true := by
  match left, middle, right, h, h' with
  | [], [], right, _, h' => exact h'
  | left :: lefts, middle :: middles, right :: rights, h, h' =>
    simp only [tagsEq, Bool.and_eq_true] at h h' ⊢
    exact ⟨NbtTag.eq_trans left middle right h.1 h'.1, tagsEq_trans lefts middles rights h.2 h'.2⟩

theorem entriesEq_trans (left middle right : List (NbtKey × NbtTag))
    (h : entriesEq left middle = true) (h' : entriesEq middle right = true) :
    entriesEq left right = true := by
  match left, middle, right, h, h' with
  | [], [], right, _, h' => exact h'
  | (leftKey, left) :: lefts, (middleKey, middle) :: middles, (rightKey, right) :: rights, h, h' =>
    simp only [entriesEq, Bool.and_eq_true, beq_iff_eq] at h h' ⊢
    exact ⟨⟨h.1.1.trans h'.1.1, NbtTag.eq_trans left middle right h.1.2 h'.1.2⟩,
      entriesEq_trans lefts middles rights h.2 h'.2⟩

end

abbrev Equal (left right : NbtTag) : Prop := left.eq right = true

theorem tagsEq_iff {left right : List NbtTag} :
    tagsEq left right = true ↔ Forall₂ Equal left right := by
  induction left generalizing right with
  | nil => cases right <;> simp [tagsEq]
  | cons left lefts ih =>
    cases right with
    | nil => simp [tagsEq]
    | cons right rights => rw [tagsEq, Bool.and_eq_true, ih, forall₂_cons]

theorem equal_unwrap {left right : NbtTag} (h : Equal left right) :
    Equal (unwrapListWrapper left) (unwrapListWrapper right) := by
  cases equalShape_of_eq h with
  | same hleaf =>
    cases left with
    | compound entries => exact absurd rfl (hleaf.2 entries)
    | _ => exact h
  | compound hentries =>
    rename_i left right
    match left, right, hentries with
    | [], [], _ => exact h
    | [(leftKey, left)], [(rightKey, right)], hentries =>
      simp only [entriesEq, Bool.and_eq_true, beq_iff_eq] at hentries
      obtain ⟨⟨rfl, htag⟩, -⟩ := hentries
      simp only [unwrapListWrapper]
      split_ifs
      · exact htag
      · exact h
    | _ :: _ :: _, _ :: _ :: _, _ => exact h
    | [_], _ :: _ :: _, hentries => simp [entriesEq] at hentries
    | _ :: _ :: _, [_], hentries => simp [entriesEq] at hentries
  | _ => exact h

theorem forall₂_getElem? {left right : List NbtTag} (h : Forall₂ Equal left right) (index : ℕ) :
    Forall₂ Equal left[index]?.toList right[index]?.toList := by
  induction h generalizing index with
  | nil => exact .nil
  | cons hhead _ ih =>
    cases index with
    | zero => exact .cons hhead .nil
    | succ index => exact ih index

theorem forall₂_get {left right : NbtCompound} (h : entriesEq left right = true)
    (key : NbtKey) :
    Forall₂ Equal (NbtCompound.get left key).toList (NbtCompound.get right key).toList := by
  induction left generalizing right with
  | nil =>
    cases right with
    | nil => exact .nil
    | cons right rights => simp [entriesEq] at h
  | cons left lefts ih =>
    cases right with
    | nil => simp [entriesEq] at h
    | cons right rights =>
      obtain ⟨leftKey, left⟩ := left
      simp only [entriesEq, Bool.and_eq_true, beq_iff_eq] at h
      rw [NbtCompound.get_cons, NbtCompound.get_cons, ← h.1.1]
      split_ifs
      · exact .cons h.1.2 .nil
      · exact ih h.2

variable {tag value : NbtTag} {entries : NbtCompound} {key : NbtKey}

theorem equal_self_of_mem_collectionElements {element : NbtTag} (hleaf : tag.Leaf)
    (h : element ∈ collectionElements tag) : Equal element element := by
  cases tag with
  | list kind tags => exact absurd rfl (hleaf.1 kind tags)
  | byteArray values =>
    obtain ⟨value, -, rfl⟩ := mem_map.mp h
    simp [Equal, NbtTag.eq]
  | intArray values =>
    obtain ⟨value, -, rfl⟩ := mem_map.mp h
    simp [Equal, NbtTag.eq]
  | longArray values =>
    obtain ⟨value, -, rfl⟩ := mem_map.mp h
    simp [Equal, NbtTag.eq]
  | _ => exact absurd h not_mem_nil

theorem forall₂_collectionElements {left right : NbtTag} (h : Equal left right) :
    Forall₂ Equal (collectionElements left) (collectionElements right) := by
  cases equalShape_of_eq h with
  | same hleaf => exact forall₂_same.mpr fun _ => equal_self_of_mem_collectionElements hleaf
  | list kind htags =>
    change Forall₂ Equal (map unwrapListWrapper _) (map unwrapListWrapper _)
    rw [forall₂_map_left_iff, forall₂_map_right_iff]
    exact (tagsEq_iff.mp htags).imp fun _ _ => equal_unwrap
  | _ => exact .nil

/-! ### Selections -/

/-- A library that stores lists so that they have the values they are made of, apart from values
that look wrapped. -/
def NbtLibrary.KeepsListValues (library : NbtLibrary) : Prop :=
  ∀ values, nbtListValues (library.listFrom values).2 = nbtListValues values

/-- Nodes that name a child, as the parser accepts them, and those that take elements by place. -/
inductive NbtPathNode.Simple : NbtPathNode → Prop
  | compoundChild {name : String} : name ≠ "" → Simple (.compoundChild name)
  | allElements : Simple .allElements
  | indexedElement (index : Int32) : Simple (.indexedElement index)

/-- Not an array of numbers, and without empty keys. -/
def NbtTag.Regular : NbtTag → Prop
  | .byteArray _ => False
  | .intArray _ => False
  | .longArray _ => False
  | .compound entries => ∀ entry ∈ entries, entry.1 ≠ []
  | _ => True

namespace NbtPath

/-- The tags a path passes before its end are regular. -/
def Clear : List NbtPathNodeEntry → NbtTag → Prop
  | [], _ => True
  | entry :: rest, tag => tag.Regular ∧ ∀ child ∈ entry.node.children tag, Clear rest child

/-- What a path selects, branch by branch. -/
def select : List NbtPathNodeEntry → NbtTag → List NbtTag
  | [], tag => [tag]
  | entry :: rest, tag => (entry.node.children tag).flatMap (select rest)

theorem getFrom_eq_select (nodes : List NbtPathNodeEntry) (tags : List NbtTag) :
    getFrom nodes tags = tags.flatMap (select nodes) := by
  induction nodes generalizing tags with
  | nil => exact (flatMap_singleton' tags).symm
  | cons entry rest ih =>
    have hget : entry.node.get tags = tags.flatMap entry.node.children := by
      rw [NbtPathNode.get]
      exact flatMap_congr fun tag _ => (append_nil _).symm
    have hselect : tags.flatMap (select (entry :: rest)) =
        (tags.flatMap entry.node.children).flatMap (select rest) := by
      rw [flatMap_assoc]
      rfl
    rw [getFrom, hget, hselect]
    split_ifs with hempty
    · rw [List.isEmpty_iff.mp hempty]
      rfl
    · exact ih _

theorem get_eq_select (path : NbtPath) (tag : NbtTag) : path.get tag = select path.nodes tag := by
  rw [get, getFrom_eq_select, flatMap_singleton]

end NbtPath

namespace NbtPathNode

variable {node : NbtPathNode}

/-- Equal parents have equal children. -/
theorem forall₂_children (hsimple : node.Simple) {left right : NbtTag} (h : Equal left right) :
    Forall₂ Equal (node.children left) (node.children right) := by
  have helements := forall₂_collectionElements h
  cases hsimple with
  | compoundChild hname =>
    cases equalShape_of_eq h with
    | compound hentries =>
      simp only [children_compoundChild, filter_true]
      exact forall₂_get hentries _
    | same hleaf =>
      cases left with
      | compound entries => exact absurd rfl (hleaf.2 entries)
      | _ => exact .nil
    | _ => exact .nil
  | allElements =>
    rw [children_allElements, children_allElements]
    exact helements
  | indexedElement index =>
    rw [children_indexedElement, children_indexedElement, helements.length_eq]
    cases actualCollectionIndex (collectionElements right).length index with
    | none => exact .nil
    | some actualIndex => exact forall₂_getElem? helements actualIndex

end NbtPathNode

theorem NbtPath.forall₂_select {nodes : List NbtPathNodeEntry}
    (hsimple : ∀ entry ∈ nodes, entry.node.Simple) {left right : NbtTag} (h : Equal left right) :
    Forall₂ Equal (select nodes left) (select nodes right) := by
  induction nodes generalizing left right with
  | nil => exact .cons h .nil
  | cons entry rest ih =>
    have hchildren := NbtPathNode.forall₂_children (hsimple entry mem_cons_self) h
    exact rel_flatMap hchildren fun _ _ hchild =>
      ih (fun other hother => hsimple other (mem_cons_of_mem entry hother)) hchild

/-! ### One node -/

/-- The value, the way a list of values shows it, or a tag equal to either. -/
def Seen (value tag : NbtTag) : Prop :=
  ∃ target, (target = value ∨ target = unwrapListWrapper value) ∧ (tag = target ∨ Equal tag target)

theorem Seen.of_equal {other : NbtTag} (h : Seen value tag) (heq : Equal tag other) :
    Seen value other := by
  obtain ⟨target, htarget, rfl | htag⟩ := h
  · exact ⟨tag, htarget, .inr (NbtTag.eq_symm tag other heq)⟩
  · have hother := NbtTag.eq_symm tag other heq
    exact ⟨target, htarget, .inr (NbtTag.eq_trans other tag target hother htag)⟩

theorem seen_of_eq (h : tag.eq value = true) : Seen value tag :=
  ⟨value, .inl rfl, .inr h⟩

theorem NbtTag.Regular.plain (h : tag.Regular) : tag.Plain := by
  cases tag with
  | compound entries => exact plain_compound h
  | _ => rfl

theorem NbtCompound.get_insert (h : entries.get key = none) :
    (entries.insert key tag).get key = some tag := by
  rw [get] at h
  rw [get, insert, lookup_append, h, Option.none_or, ← get, get_cons, if_pos rfl]

theorem NbtTag.Regular.insert {name : String} (h : (NbtTag.compound entries).Regular)
    (hname : name ≠ "") :
    (NbtTag.compound (NbtCompound.insert entries name.toList tag)).Regular := by
  intro entry hentry
  rcases mem_append.mp hentry with hentry | hentry
  · exact h entry hentry
  · rw [mem_singleton.mp hentry]
    exact fun hnil => hname (String.toList_eq_nil_iff.mp hnil)

theorem NbtTag.Regular.set (h : (NbtTag.compound entries).Regular) :
    (NbtTag.compound (NbtCompound.set entries key tag)).Regular := by
  intro entry hentry
  have hkey := mem_map_of_mem (f := Prod.fst) hentry
  rw [NbtCompound.map_fst_set] at hkey
  obtain ⟨old, hold, heq⟩ := mem_map.mp hkey
  rw [← heq]
  exact h old hold

theorem actualCollectionIndex_lt {len actualIndex : ℕ} {index : Int32}
    (h : actualCollectionIndex len index = some actualIndex) : actualIndex < len := by
  unfold actualCollectionIndex at h
  dsimp only at h
  split_ifs at h <;> cases h <;> omega

namespace NbtPathNode

variable {library : NbtLibrary} {node : NbtPathNode} {parent child : NbtTag}

theorem collectionElements_listFrom (hlibrary : library.KeepsListValues) (values : List NbtTag) :
    collectionElements (.listFrom library values) = nbtListValues values :=
  hlibrary values

theorem children_list_set (hlibrary : library.KeepsListValues) {index : Int32}
    {elements : List NbtTag} {actualIndex : ℕ}
    (hindex : actualCollectionIndex elements.length index = some actualIndex) (tag : NbtTag) :
    (indexedElement index).children (.listFrom library (elements.set actualIndex tag)) =
      [unwrapListWrapper tag] := by
  have hlt := actualCollectionIndex_lt hindex
  rw [children_indexedElement, collectionElements_listFrom hlibrary, nbtListValues, length_map,
    length_set, hindex, Option.bind_some, getElem?_map, getElem?_set_self hlt]
  rfl

/-- What a node prepares is regular, and its only new child is the preferred one. -/
theorem prepare_spec (hlibrary : library.KeepsListValues) (hsimple : node.Simple)
    (hparent : parent.Regular) (hchild : child.Regular) :
    (node.prepare library child parent).Regular ∧
      ∀ tag ∈ node.children (node.prepare library child parent),
        tag ∈ node.children parent ∨ tag = child := by
  cases hsimple with
  | compoundChild hname =>
    cases parent with
    | compound entries =>
      simp only [prepare, children_compoundChild, filter_true, ensureCompoundChild]
      split_ifs with hcontains
      · exact ⟨hparent, fun _ h => .inl h⟩
      · have hnone : NbtCompound.get entries _ = none :=
          Option.not_isSome_iff_eq_none.mp hcontains
        rw [NbtCompound.get_insert hnone]
        exact ⟨hparent.insert hname, fun tag htag => .inr (mem_singleton.mp htag)⟩
    | _ => exact ⟨hparent, fun _ h => .inl h⟩
  | allElements =>
    simp only [prepare, ensureNonEmptyCollection]
    split_ifs with hempty
    · cases parent with
      | list kind tags =>
        obtain rfl := length_eq_zero_iff.mp (Option.some.inj hempty)
        refine ⟨trivial, fun tag htag => .inr ?_⟩
        rw [children_allElements, addCollectionElement,
          collectionElements_listFrom hlibrary] at htag
        rw [mem_singleton.mp htag]
        exact hchild.plain
      | byteArray values | intArray values | longArray values => exact hparent.elim
      | _ => cases hempty
    · exact ⟨hparent, fun _ h => .inl h⟩
  | indexedElement index => exact ⟨hparent, fun _ h => .inl h⟩

/-- The children afterwards are those written back, unless they equal what was there. -/
theorem writeBack_spec (hlibrary : library.KeepsListValues) (hsimple : node.Simple)
    (hparent : parent.Regular) {replacements : List NbtTag}
    (hlength : replacements.length = (node.children parent).length)
    (hregular : ∀ tag ∈ replacements, tag.Regular) :
    (node.writeBack library parent replacements).Regular ∧
      (node.children (node.writeBack library parent replacements) = replacements ∨
        tagsEq replacements (node.children parent) = true ∧
          node.writeBack library parent replacements = parent) := by
  cases hsimple with
  | @compoundChild name hname =>
    have hwrite : (compoundChild name).writeBack library parent replacements =
        writeEntry parent name.toList replacements := rfl
    rw [hwrite]
    cases parent with
    | compound entries =>
      rw [children_compoundChild, filter_true] at hlength
      cases hget : NbtCompound.get entries name.toList with
      | none =>
        rw [hget] at hlength
        obtain rfl := length_eq_zero_iff.mp hlength
        refine ⟨hparent, .inl ?_⟩
        change (compoundChild name).children (.compound entries) = []
        rw [children_compoundChild, hget]
        rfl
      | some current =>
        rw [hget] at hlength
        obtain ⟨tag, rfl⟩ := length_eq_one_iff.mp hlength
        refine ⟨hparent.set, .inl ?_⟩
        rw [writeEntry, children_compoundChild, NbtCompound.get_set hget, if_pos rfl]
        rfl
    | _ =>
      obtain rfl := length_eq_zero_iff.mp hlength
      exact ⟨hparent, .inl rfl⟩
  | allElements =>
    have hwrite : allElements.writeBack library parent replacements =
        if tagsEq replacements (allElements.children parent) then parent
        else replaceCollection library parent replacements := rfl
    rw [hwrite]
    split_ifs with hunchanged
    · exact ⟨hparent, .inr ⟨hunchanged, rfl⟩⟩
    · cases parent with
      | list kind tags =>
        refine ⟨trivial, .inl ?_⟩
        rw [children_allElements, replaceCollection, collectionElements_listFrom hlibrary]
        exact nbtListValues_of_plain fun tag htag => (hregular tag htag).plain
      | byteArray values | intArray values | longArray values => exact hparent.elim
      | _ =>
        obtain rfl := length_eq_zero_iff.mp hlength
        exact ⟨hparent, .inl rfl⟩
  | indexedElement index =>
    have hchildren := children_indexedElement index parent
    cases hindex : actualCollectionIndex (collectionElements parent).length index with
    | none =>
      rw [hindex] at hchildren
      rw [hchildren] at hlength
      obtain rfl := length_eq_zero_iff.mp hlength
      have hwrite : (indexedElement index).writeBack library parent [] = parent := by
        rw [writeBack_indexedElement, hindex]
      rw [hwrite]
      exact ⟨hparent, .inl hchildren⟩
    | some actualIndex =>
      have hlt := actualCollectionIndex_lt hindex
      rw [hindex, Option.bind_some, getElem?_eq_getElem hlt] at hchildren
      rw [hchildren] at hlength
      obtain ⟨tag, rfl⟩ := length_eq_one_iff.mp hlength
      have hwrite : (indexedElement index).writeBack library parent [tag] =
          if tagsEq [tag] ((indexedElement index).children parent) then parent
          else
            replaceCollection library parent ((collectionElements parent).set actualIndex tag) := by
        rw [writeBack_indexedElement, hindex]
      rw [hwrite]
      split_ifs with hunchanged
      · exact ⟨hparent, .inr ⟨hunchanged, rfl⟩⟩
      · cases parent with
        | list kind tags =>
          refine ⟨trivial, .inl ?_⟩
          rw [replaceCollection, children_list_set hlibrary hindex]
          rw [(hregular tag (mem_singleton_self tag)).plain]
        | byteArray values | intArray values | longArray values => exact hparent.elim
        | _ => exact absurd hlt (Nat.not_lt_zero _)

/-- What the last node leaves below a tag. -/
structure Settles (node : NbtPathNode) (value : NbtTag) (result : NbtTag × ℕ) : Prop where
  regular : result.1.Regular
  seen : ∀ tag ∈ node.children result.1, Seen value tag
  found : 0 < result.2 → node.children result.1 ≠ []

theorem settles_unchanged {value : NbtTag} (hparent : parent.Regular)
    (hseen : ∀ tag ∈ node.children parent, Seen value tag) : node.Settles value (parent, 0) :=
  ⟨hparent, hseen, fun h => absurd h (Nat.lt_irrefl 0)⟩

theorem settles_written {value tag : NbtTag} {modified : ℕ} (htag : tag.Regular)
    (hne : node.children tag ≠ []) (hseen : ∀ child ∈ node.children tag,
      child = value ∨ child = unwrapListWrapper value) : node.Settles value (tag, modified) :=
  ⟨htag, fun child hchild => ⟨child, hseen child hchild, .inl rfl⟩, fun _ => hne⟩

theorem settles_setCompoundChild {name : String} (hname : name ≠ "") (hparent : parent.Regular)
    (value : NbtTag) :
    (compoundChild name).Settles value (setCompoundChild parent name.toList value) := by
  cases parent with
  | compound entries =>
    rw [setCompoundChild]
    cases hget : NbtCompound.get entries name.toList with
    | none =>
      have hchildren : (compoundChild name).children
          (.compound (NbtCompound.insert entries name.toList value)) = [value] := by
        rw [children_compoundChild, NbtCompound.get_insert hget]
        rfl
      refine settles_written (hparent.insert hname) ?_ ?_
      · rw [hchildren]
        exact cons_ne_nil _ _
      · rw [hchildren]
        exact fun child hchild => .inl (mem_singleton.mp hchild)
    | some current =>
      dsimp only
      split_ifs with hequal
      · refine settles_unchanged hparent fun tag htag => ?_
        rw [children_compoundChild, hget] at htag
        rw [mem_singleton.mp htag]
        exact seen_of_eq hequal
      · have hchildren : (compoundChild name).children
            (.compound (NbtCompound.set entries name.toList value)) = [value] := by
          rw [children_compoundChild, NbtCompound.get_set hget, if_pos rfl]
          rfl
        refine settles_written hparent.set ?_ ?_
        · rw [hchildren]
          exact cons_ne_nil _ _
        · rw [hchildren]
          exact fun child hchild => .inl (mem_singleton.mp hchild)
  | _ => exact settles_unchanged hparent fun _ h => absurd h not_mem_nil

theorem settles_setAllCollectionElements (hlibrary : library.KeepsListValues)
    (hparent : parent.Regular) (value : NbtTag) :
    allElements.Settles value (setAllCollectionElements library parent value) := by
  cases parent with
  | list kind tags =>
    have hlen : collectionLen (.list kind tags) = some tags.length := rfl
    rw [setAllCollectionElements, hlen]
    dsimp only
    split_ifs with hempty hcount
    · obtain rfl := length_eq_zero_iff.mp hempty
      have hchildren : allElements.children (addCollectionElement library (.list kind []) value) =
          [unwrapListWrapper value] := by
        rw [children_allElements, addCollectionElement, collectionElements_listFrom hlibrary]
        rfl
      refine settles_written trivial ?_ ?_
      · rw [hchildren]
        exact cons_ne_nil _ _
      · rw [hchildren]
        exact fun child hchild => .inr (mem_singleton.mp hchild)
    · refine settles_unchanged hparent fun tag htag => ?_
      rw [children_allElements] at htag
      have hequal := countP_eq_zero.mp hcount tag htag
      simp only [Bool.not_eq_true', Bool.not_eq_false] at hequal
      exact seen_of_eq hequal
    · have hchildren : allElements.children
            (.listFrom library (replicate tags.length value)) =
          replicate tags.length (unwrapListWrapper value) := by
        rw [children_allElements, collectionElements_listFrom hlibrary, nbtListValues,
          map_replicate]
      refine settles_written trivial ?_ ?_
      · rw [hchildren]
        exact fun h => hempty ((replicate_eq_nil_iff _).mp h)
      · rw [hchildren]
        exact fun child hchild => .inr (eq_of_mem_replicate hchild)
  | byteArray values | intArray values | longArray values => exact hparent.elim
  | _ => exact settles_unchanged hparent fun _ h => absurd h not_mem_nil

theorem settles_setIndexedCollectionElement (hlibrary : library.KeepsListValues)
    (hparent : parent.Regular) (index : Int32) (value : NbtTag) :
    (indexedElement index).Settles value
      (setIndexedCollectionElement library parent index value) := by
  have hchildren := children_indexedElement index parent
  cases parent with
  | list kind tags =>
    have hlen : collectionLen (.list kind tags) = some tags.length := rfl
    have hlen' : (collectionElements (.list kind tags)).length = tags.length := length_map _
    rw [setIndexedCollectionElement, hlen]
    rw [hlen'] at hchildren
    dsimp only
    cases hindex : actualCollectionIndex tags.length index with
    | none =>
      rw [hindex] at hchildren
      refine settles_unchanged hparent fun tag htag => ?_
      rw [hchildren] at htag
      exact absurd htag not_mem_nil
    | some actualIndex =>
      have hlt := actualCollectionIndex_lt hindex
      have helement := getElem?_eq_getElem (hlen'.symm ▸ hlt)
      rw [hindex, Option.bind_some, helement] at hchildren
      dsimp only
      split_ifs with hequal
      · refine settles_unchanged hparent fun tag htag => ?_
        rw [hchildren] at htag
        rw [helement] at hequal
        rw [mem_singleton.mp htag]
        exact seen_of_eq hequal
      · have hset : setCollectionElement library (.list kind tags) actualIndex value =
            (.listFrom library ((nbtListValues tags).set actualIndex value), true) := if_pos hlt
        rw [hset]
        have hindex' : actualCollectionIndex (nbtListValues tags).length index =
            some actualIndex := by
          rw [nbtListValues, length_map]
          exact hindex
        have hwritten := children_list_set hlibrary hindex' value
        refine settles_written trivial ?_ ?_
        · rw [hwritten]
          exact cons_ne_nil _ _
        · rw [hwritten]
          exact fun child hchild => .inr (mem_singleton.mp hchild)
  | byteArray values | intArray values | longArray values => exact hparent.elim
  | _ =>
    refine settles_unchanged hparent fun tag htag => ?_
    rw [hchildren] at htag
    simp only [collectionElements, collectionElementsForMutation, Option.getD_none, length_nil,
      actualCollectionIndex_zero] at htag
    exact absurd htag not_mem_nil

theorem settles_setTag (hlibrary : library.KeepsListValues) (hsimple : node.Simple)
    (hparent : parent.Regular) (value : NbtTag) :
    node.Settles value (node.setTag library parent value) := by
  cases hsimple with
  | compoundChild hname => exact settles_setCompoundChild hname hparent value
  | allElements => exact settles_setAllCollectionElements hlibrary hparent value
  | indexedElement index => exact settles_setIndexedCollectionElement hlibrary hparent index value

end NbtPathNode

/-! ### Branches -/

namespace NbtPath

variable {library : NbtLibrary} {original : String} {value : NbtTag}

theorem clear_preferred {next : NbtPathNodeEntry} (rest : List NbtPathNodeEntry)
    (hsimple : next.node.Simple) : Clear (next :: rest) next.node.createPreferredParentTag := by
  obtain ⟨node, originalEnd⟩ := next
  dsimp only at hsimple ⊢
  rw [Clear]
  cases hsimple with
  | compoundChild hname => exact ⟨fun _ h => absurd h not_mem_nil, fun _ h => absurd h not_mem_nil⟩
  | allElements => exact ⟨trivial, fun _ h => absurd h not_mem_nil⟩
  | indexedElement index =>
    refine ⟨trivial, fun child hchild => ?_⟩
    have hnone : actualCollectionIndex (collectionElements (.list .empty [])).length index = none :=
      NbtPathNode.actualCollectionIndex_zero index
    rw [NbtPathNode.createPreferredParentTag, NbtPathNode.children_indexedElement, hnone] at hchild
    exact absurd hchild not_mem_nil

theorem exists_mem_of_forall₂ {left right : List NbtTag} (h : Forall₂ Equal left right)
    {tag : NbtTag} (htag : tag ∈ right) : ∃ other ∈ left, Equal other tag := by
  induction h with
  | nil => exact absurd htag not_mem_nil
  | cons hhead _ ih =>
    rcases mem_cons.mp htag with rfl | htag
    · exact ⟨_, mem_cons_self, hhead⟩
    · obtain ⟨other, hother, hequal⟩ := ih htag
      exact ⟨other, mem_cons_of_mem _ hother, hequal⟩

/-- What a branch leaves below its tag. -/
structure Reached (nodes : List NbtPathNodeEntry) (value tag : NbtTag) (modified : ℕ) : Prop where
  regular : tag.Regular
  seen : ∀ selected ∈ select nodes tag, Seen value selected
  found : 0 < modified → select nodes tag ≠ []

/-- From the children of a node to the parent they are written back into. -/
theorem Reached.writeBack (hlibrary : library.KeepsListValues) {entry : NbtPathNodeEntry}
    {rest : List NbtPathNodeEntry} (hsimple : ∀ other ∈ entry :: rest, other.node.Simple)
    {parent : NbtTag} (hparent : parent.Regular) {branch : NbtTag → NbtTag} {count : NbtTag → ℕ}
    (h : ∀ child ∈ entry.node.children parent, Reached rest value (branch child) (count child)) :
    Reached (entry :: rest) value
      (entry.node.writeBack library parent ((entry.node.children parent).map branch))
      ((entry.node.children parent).map count).sum := by
  have hrest : ∀ other ∈ rest, other.node.Simple := fun other hother =>
    hsimple other (mem_cons_of_mem entry hother)
  obtain ⟨hregular, hwritten⟩ := NbtPathNode.writeBack_spec hlibrary (hsimple entry mem_cons_self)
    hparent (length_map branch) fun tag htag => by
      obtain ⟨child, hchild, rfl⟩ := mem_map.mp htag
      exact (h child hchild).regular
  have hseen : ∀ selected ∈ ((entry.node.children parent).map branch).flatMap (select rest),
      Seen value selected := by
    intro selected hselected
    obtain ⟨tag, htag, hselected⟩ := mem_flatMap.mp hselected
    obtain ⟨child, hchild, rfl⟩ := mem_map.mp htag
    exact (h child hchild).seen selected hselected
  have hfound : 0 < ((entry.node.children parent).map count).sum →
      ((entry.node.children parent).map branch).flatMap (select rest) ≠ [] := by
    intro hpositive hnil
    rw [flatMap_eq_nil_iff] at hnil
    have hzero : ((entry.node.children parent).map count).sum = 0 := by
      refine sum_eq_zero fun modified hmodified => ?_
      obtain ⟨child, hchild, rfl⟩ := mem_map.mp hmodified
      by_contra hne
      exact (h child hchild).found (Nat.pos_of_ne_zero hne) (hnil _ (mem_map_of_mem hchild))
    omega
  rcases hwritten with hwritten | ⟨hequal, hwritten⟩
  · refine ⟨hregular, ?_, ?_⟩
    · rw [select, hwritten]
      exact hseen
    · rw [select, hwritten]
      exact hfound
  -- The parent was left as it was, with children equal to the new ones.
  · have hselect : Forall₂ Equal (((entry.node.children parent).map branch).flatMap (select rest))
        (select (entry :: rest) parent) :=
      rel_flatMap (tagsEq_iff.mp hequal) fun _ _ => forall₂_select hrest
    rw [hwritten]
    refine ⟨hparent, fun selected hselected => ?_, fun hpositive hnil => ?_⟩
    · obtain ⟨other, hother, hequal⟩ := exists_mem_of_forall₂ hselect hselected
      exact (hseen other hother).of_equal hequal
    · rw [hnil, forall₂_nil_right_iff] at hselect
      exact hfound hpositive hselect

/-- By induction on the path: what a branch leaves is found again by its nodes. -/
theorem reached_setAt (hlibrary : library.KeepsListValues) (nodes : List NbtPathNodeEntry)
    (hne : nodes ≠ []) (hsimple : ∀ entry ∈ nodes, entry.node.Simple) (tag : NbtTag)
    (hclear : Clear nodes tag) {outcome : SetOutcome}
    (hok : (setAt library original value nodes tag).2 = .ok outcome) :
    outcome.found = true ∧
      Reached nodes value (setAt library original value nodes tag).1 outcome.modified := by
  induction nodes generalizing tag outcome with
  | nil => exact absurd rfl hne
  | cons entry nodes ih =>
    cases nodes with
    | nil =>
      rw [setAt] at hok ⊢
      cases hok
      have hsettles := NbtPathNode.settles_setTag hlibrary (hsimple entry mem_cons_self)
        hclear.1 value
      have hselect : ∀ tag, select [entry] tag = entry.node.children tag := fun tag =>
        flatMap_singleton' _
      refine ⟨rfl, hsettles.regular, ?_, ?_⟩
      · rw [hselect]
        exact hsettles.seen
      · rw [hselect]
        exact hsettles.found
    | cons next rest =>
      have hnext : ∀ other ∈ next :: rest, other.node.Simple := fun other hother =>
        hsimple other (mem_cons_of_mem entry hother)
      have hpreferred := clear_preferred rest (hnext next mem_cons_self)
      obtain ⟨hparent, hchildren⟩ := NbtPathNode.prepare_spec hlibrary (hsimple entry mem_cons_self)
        hclear.1 hpreferred.1
      have hbelow : ∀ child ∈ entry.below library next tag, Clear (next :: rest) child := by
        intro child hchild
        rcases hchildren child hchild with hchild | rfl
        · exact hclear.2 child hchild
        · exact hpreferred
      obtain ⟨hsome, hgood⟩ := good_of_setAt hok
      rw [setAt_of_good hgood hsome] at hok ⊢
      cases hok
      refine ⟨rfl, Reached.writeBack hlibrary hsimple hparent fun child hchild => ?_⟩
      obtain ⟨modified, hresult⟩ := hgood child hchild
      rw [NbtBranch.count, hresult]
      exact (ih (cons_ne_nil _ _) hnext child (hbelow child hchild) hresult).2

/--
After setting a value on a path of children and elements, every selected tag is the value or equal
to it, unless the value would look wrapped in a list, and a positive count means that there is one.
-/
theorem get_of_set (library : NbtLibrary) (hlibrary : library.KeepsListValues) (path : NbtPath)
    (hne : path.nodes ≠ []) (hsimple : ∀ entry ∈ path.nodes, entry.node.Simple) (tag value : NbtTag)
    (hclear : Clear path.nodes tag) (modified : ℕ)
    (hset : (path.set library tag value).2 = .ok modified) :
    (value.Plain → ∀ selected ∈ path.get (path.set library tag value).1,
      selected = value ∨ selected.eq value = true) ∧
    (0 < modified → path.get (path.set library tag value).1 ≠ []) := by
  cases hdeep : isTooDeep value path.nodes.length with
  | true =>
    rw [set, if_pos hdeep] at hset
    cases hset
  | false =>
    rw [set_eq_setAt path tag value hdeep] at hset ⊢
    rw [get_eq_select]
    cases hresult : (setAt library path.original value path.nodes tag).2 with
    | error error =>
      rw [hresult] at hset
      cases hset
    | ok outcome =>
      rw [hresult] at hset
      cases hset
      obtain ⟨-, hreached⟩ := reached_setAt hlibrary path.nodes hne hsimple tag hclear hresult
      refine ⟨fun hplain selected hselected => ?_, hreached.found⟩
      obtain ⟨target, htarget, hequal⟩ := hreached.seen selected hselected
      obtain rfl : target = value := htarget.elim id fun h => h.trans hplain
      exact hequal

def storingLibrary : NbtLibrary := { wrappingLibrary with listFrom := storeList }

theorem keepsListValues_storingLibrary : storingLibrary.KeepsListValues := by
  have hwrap : ∀ tag, unwrapListWrapper tag.wrap = unwrapListWrapper tag := by
    intro tag
    cases tag <;> rfl
  intro values
  change nbtListValues (storeList values).2 = nbtListValues values
  cases values with
  | nil => rfl
  | cons value rest =>
    rw [storeList]
    split_ifs
    · rfl
    · rw [nbtListValues, nbtListValues, map_map]
      exact map_congr_left fun tag _ => hwrap tag

def firstElementPath : NbtPath where
  original := "a[0]"
  nodes := [⟨.compoundChild "a", 1⟩, ⟨.indexedElement 0, 4⟩]

/-- The tag `{a:[1]}`. -/
def firstElementTag : NbtTag := .compound [("a".toList, .list .int [.int 1])]

theorem simple_firstElementPath : ∀ entry ∈ firstElementPath.nodes, entry.node.Simple := by
  intro entry hentry
  rcases mem_cons.mp hentry with rfl | hentry
  · exact .compoundChild (by decide)
  · rw [mem_singleton.mp hentry]
    exact .indexedElement 0

theorem clear_firstElementTag : Clear firstElementPath.nodes firstElementTag := by
  refine ⟨fun entry hentry => ?_, fun child hchild => ⟨?_, fun _ _ => trivial⟩⟩
  · rw [mem_singleton.mp hentry]
    exact fun hnil => nomatch String.toList_eq_nil_iff.mp hnil
  · rw [mem_singleton.mp (show child ∈ [NbtTag.list .int [.int 1]] from hchild)]
    trivial

theorem get_of_set_five :
    (firstElementPath.set storingLibrary firstElementTag (.int 5)).2 = .ok 1 ∧
      firstElementPath.get
        (firstElementPath.set storingLibrary firstElementTag (.int 5)).1 ≠ [] := by
  have hset : (firstElementPath.set storingLibrary firstElementTag (.int 5)).2 = .ok 1 := by
    decide +kernel
  exact ⟨hset, (get_of_set storingLibrary keepsListValues_storingLibrary firstElementPath
    (cons_ne_nil _ _) simple_firstElementPath firstElementTag (.int 5) clear_firstElementTag 1
    hset).2 Nat.one_pos⟩

/-- A compound with only the empty key is read back as what it wraps. -/
theorem get_of_set_wrapped :
    Clear firstElementPath.nodes firstElementTag ∧
    (firstElementPath.set storingLibrary firstElementTag (.compound [([], .int 5)])).2 = .ok 1 ∧
      ∃ selected ∈ firstElementPath.get
        (firstElementPath.set storingLibrary firstElementTag (.compound [([], .int 5)])).1,
        selected ≠ .compound [([], .int 5)] ∧ selected.eq (.compound [([], .int 5)]) = false := by
  refine ⟨clear_firstElementTag, by decide +kernel, .int 5, ?_, nofun, rfl⟩
  exact mem_singleton_self _

end NbtPath

end Steel

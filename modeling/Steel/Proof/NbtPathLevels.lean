import Mathlib.Algebra.BigOperators.Group.List.Basic
import Steel.Spec.NbtLevels

/-!
# Branch by branch and level by level

A branch that cannot be descended fails the whole operation, whatever the other branches do. Going
down branch by branch says what the levels say exactly if the first branch that ends does so at the
first empty level.
-/

namespace Steel

open List

variable {library : NbtLibrary}

/-! ### Branches -/

/-- The result of setting the value below one tag. -/
abbrev NbtBranch := NbtTag → NbtTag × Except NbtPathMutationError SetOutcome

namespace NbtBranch

variable {branch : NbtBranch}

def Good (branch : NbtBranch) (tag : NbtTag) : Prop :=
  ∃ modified, (branch tag).2 = .ok ⟨true, modified⟩

def count (branch : NbtBranch) (tag : NbtTag) : ℕ :=
  match (branch tag).2 with
  | .ok outcome => outcome.modified
  | .error _ => 0

theorem countBranch_of_good {tag : NbtTag} (h : branch.Good tag) (found : Bool) (modified : ℕ) :
    NbtPath.countBranch branch ⟨found, modified⟩ tag =
      (⟨true, modified + branch.count tag⟩, (branch tag).1, .ok true) := by
  obtain ⟨changes, hresult⟩ := h
  have hpair : branch tag = ((branch tag).1, .ok ⟨true, changes⟩) := Prod.ext rfl hresult
  rw [NbtPath.countBranch, count, hpair]
  simp

variable {error : NbtPathMutationError}

theorem countBranch_of_error {tag : NbtTag}
    (h : (branch tag).2 = .error error) (state : SetOutcome) :
    NbtPath.countBranch branch state tag = (state, (branch tag).1, .error error) := by
  have hpair : branch tag = ((branch tag).1, .error error) := Prod.ext rfl h
  rw [NbtPath.countBranch, hpair]

theorem visitElements_of_good (selected : NbtTag → Bool) (elements : List NbtTag) (found : Bool)
    (modified : ℕ) (h : ∀ element ∈ elements.filter selected, branch.Good element) :
    visitElements selected (NbtPath.countBranch branch) ⟨found, modified⟩ elements =
      (⟨found || !(elements.filter selected).isEmpty,
          modified + ((elements.filter selected).map branch.count).sum⟩,
        .ok (replaceSelected selected elements
            ((elements.filter selected).map fun element => (branch element).1),
          !(elements.filter selected).isEmpty,
          !tagsEq ((elements.filter selected).map fun element => (branch element).1)
            (elements.filter selected))) := by
  induction elements generalizing found modified with
  | nil => simp [visitElements, replaceSelected, tagsEq]
  | cons element rest ih =>
    by_cases hselected : selected element = true
    · rw [filter_cons_of_pos hselected] at h ⊢
      obtain ⟨hhead, htail⟩ := forall_mem_cons.mp h
      rw [visitElements, if_pos hselected, countBranch_of_good hhead]
      simp only
      rw [ih true (modified + branch.count element) htail]
      simp [replaceSelected, hselected, tagsEq, Nat.add_assoc]
    · rw [filter_cons_of_neg hselected] at h ⊢
      rw [visitElements, if_neg hselected, ih found modified h]
      simp [replaceSelected, hselected]

/-- One of the tags fails, and those before it do not. -/
inductive Fails (branch : NbtBranch) (error : NbtPathMutationError) : List NbtTag → Prop
  | head {tag : NbtTag} {rest : List NbtTag} (herror : (branch tag).2 = .error error) :
      Fails branch error (tag :: rest)
  | tail {tag : NbtTag} {rest : List NbtTag} (hgood : branch.Good tag)
      (h : Fails branch error rest) : Fails branch error (tag :: rest)

theorem Fails.singleton {tag : NbtTag} (h : Fails branch error [tag]) :
    (branch tag).2 = .error error := by
  cases h with
  | head herror => exact herror
  | tail _ hrest => cases hrest

theorem visitElements_of_fails (selected : NbtTag → Bool) {elements : List NbtTag}
    (h : Fails branch error (elements.filter selected)) (state : SetOutcome) :
    ∃ last, visitElements selected (NbtPath.countBranch branch) state elements =
      (last, .error error) := by
  induction elements generalizing state with
  | nil => cases h
  | cons element elements ih =>
    rw [visitElements]
    by_cases hselected : selected element = true
    · rw [filter_cons_of_pos hselected] at h
      rw [if_pos hselected]
      cases h with
      | head herror => exact ⟨state, by rw [countBranch_of_error herror]⟩
      | tail hgood hrest =>
        rw [countBranch_of_good hgood]
        obtain ⟨last, hlast⟩ := ih hrest ⟨true, state.modified + branch.count element⟩
        exact ⟨last, by simp only [hlast]⟩
    · rw [filter_cons_of_neg hselected] at h
      obtain ⟨last, hlast⟩ := ih h state
      exact ⟨last, by rw [if_neg hselected, hlast]⟩

theorem visitEntry_of_good (entries : NbtCompound) (name : NbtKey) (selected : NbtTag → Bool)
    (h : ∀ tag ∈ (NbtCompound.get entries name).toList.filter selected, branch.Good tag) :
    visitEntry entries name selected (NbtPath.countBranch branch) ⟨false, 0⟩ =
      (⟨!((NbtCompound.get entries name).toList.filter selected).isEmpty,
          (((NbtCompound.get entries name).toList.filter selected).map branch.count).sum⟩,
        writeEntry (.compound entries) name
          (((NbtCompound.get entries name).toList.filter selected).map fun tag => (branch tag).1),
        .ok (!((NbtCompound.get entries name).toList.filter selected).isEmpty)) := by
  unfold visitEntry
  cases hget : NbtCompound.get entries name with
  | none => rfl
  | some tag =>
    rw [hget] at h
    by_cases hselected : selected tag = true
    · have hgood : branch.Good tag := h tag (by simp [hselected])
      simp [hselected, countBranch_of_good hgood, writeEntry]
    · simp [hselected, writeEntry]

theorem visitEntry_of_fails {entries : NbtCompound} {name : NbtKey} {selected : NbtTag → Bool}
    (h : Fails branch error ((NbtCompound.get entries name).toList.filter selected))
    (state : SetOutcome) :
    (visitEntry entries name selected (NbtPath.countBranch branch) state).2.2 = .error error := by
  unfold visitEntry
  cases hget : NbtCompound.get entries name with
  | none =>
    rw [hget] at h
    cases h
  | some tag =>
    rw [hget, Option.toList_some] at h
    by_cases hselected : selected tag = true
    · rw [filter_cons_of_pos hselected] at h
      simp [hselected, countBranch_of_error h.singleton]
    · rw [filter_cons_of_neg hselected] at h
      cases h

end NbtBranch

/-! ### Nodes -/

namespace NbtPathNode

variable {branch : NbtBranch} {node : NbtPathNode} {parent child : NbtTag}

theorem replaceSelected_true {elements replacements : List NbtTag}
    (h : replacements.length = elements.length) :
    replaceSelected (fun _ => true) elements replacements = replacements := by
  induction elements generalizing replacements with
  | nil => rw [length_eq_zero_iff.mp h]; rfl
  | cons element elements ih =>
    obtain ⟨replacement, replacements, rfl⟩ := exists_cons_of_length_eq_add_one h
    rw [replaceSelected, if_pos rfl, ih (Nat.succ.inj h)]

/-- What visiting the children of a node leaves when all of them can be descended. -/
def descended (library : NbtLibrary) (node : NbtPathNode) (branch : NbtBranch) (parent : NbtTag) :
    SetOutcome × NbtTag × Except NbtPathMutationError Bool :=
  let children := node.children parent
  (⟨!children.isEmpty, (children.map branch.count).sum⟩,
    node.writeBack library parent (children.map fun tag => (branch tag).1), .ok (!children.isEmpty))

theorem filter_numbers {α : Type} (pattern : NbtCompound) (values : List α) (number : α → NbtTag)
    (h : ∀ value, compoundPatternMatches pattern (number value) = false) :
    (values.map number).filter (compoundPatternMatches pattern) = [] := by
  rw [filter_eq_nil_iff]
  intro tag hmem
  obtain ⟨value, -, rfl⟩ := mem_map.mp hmem
  simp [h value]

theorem children_matchRootObject (pattern : NbtCompound) (parent : NbtTag) :
    (matchRootObject pattern).children parent =
      if compoundPatternMatches pattern parent then [parent] else [] := by
  simp [children, get]

theorem children_allElements (parent : NbtTag) :
    allElements.children parent = collectionElements parent := by
  simp [children, get]

theorem children_indexedElement (index : Int32) (parent : NbtTag) :
    (indexedElement index).children parent =
      ((actualCollectionIndex (collectionElements parent).length index).bind
        ((collectionElements parent)[·]?)).toList := by
  simp [children, get]

theorem children_compoundChild (name : String) (entries : NbtCompound) :
    (compoundChild name).children (.compound entries) =
      (NbtCompound.get entries name.toList).toList.filter fun _ => true := by
  simp [children, get]

theorem children_matchObject (name : String) (pattern entries : NbtCompound) :
    (matchObject name pattern).children (.compound entries) =
      (NbtCompound.get entries name.toList).toList.filter
        (compoundPatternMatches pattern) := by
  simp [children, get]

theorem children_matchElement (pattern : NbtCompound) (kind : NbtListKind) (tags : List NbtTag) :
    (matchElement pattern).children (.list kind tags) =
      (nbtListValues tags).filter (compoundPatternMatches pattern) := by
  simp [children, get, collectionElements, collectionElementsForMutation]

theorem children_matchElement_eq_nil (pattern : NbtCompound)
    (h : ∀ kind tags, parent ≠ .list kind tags) :
    (matchElement pattern).children parent = [] := by
  have hbyte : ∀ value, compoundPatternMatches pattern (.byte value) = false := fun _ => rfl
  have hint : ∀ value, compoundPatternMatches pattern (.int value) = false := fun _ => rfl
  have hlong : ∀ value, compoundPatternMatches pattern (.long value) = false := fun _ => rfl
  cases parent with
  | byteArray values =>
    simpa [children, get, collectionElements, collectionElementsForMutation] using
      filter_numbers pattern values (fun value => .byte value.toInt8) fun _ => hbyte _
  | intArray values =>
    simpa [children, get, collectionElements, collectionElementsForMutation] using
      filter_numbers pattern values .int hint
  | longArray values =>
    simpa [children, get, collectionElements, collectionElementsForMutation] using
      filter_numbers pattern values .long hlong
  | list kind tags => exact absurd rfl (h kind tags)
  | _ => rfl

theorem visitAllCollectionElements_of_good
    (h : ∀ tag ∈ allElements.children (ensureNonEmptyCollection library parent child),
      branch.Good tag) :
    visitAllCollectionElements library parent child (NbtPath.countBranch branch) ⟨false, 0⟩ =
      allElements.descended library branch (ensureNonEmptyCollection library parent child) := by
  have hwrite : ∀ prepared replacements, allElements.writeBack library prepared replacements =
      if tagsEq replacements (collectionElements prepared) then prepared
      else replaceCollection library prepared replacements := by
    intro prepared replacements
    rw [← children_allElements]
    rfl
  simp only [visitAllCollectionElements, descended, children_allElements, hwrite] at h ⊢
  generalize ensureNonEmptyCollection library parent child = prepared at h ⊢
  unfold collectionElements at h ⊢
  cases helements : collectionElementsForMutation prepared with
  | none => simp [tagsEq]
  | some elements =>
    rw [helements, Option.getD_some] at h
    have hvisit := NbtBranch.visitElements_of_good (fun _ => true) elements false 0
      (by simpa using h)
    simp only [filter_true] at hvisit
    rw [replaceSelected_true (by rw [length_map])] at hvisit
    simp only [hvisit, Option.getD_some, Bool.false_or, Nat.zero_add]
    cases tagsEq (elements.map fun tag => (branch tag).1) elements <;> rfl

theorem actualCollectionIndex_zero (index : Int32) : actualCollectionIndex 0 index = none := by
  unfold actualCollectionIndex
  exact if_neg fun h => absurd h.2 (Int.not_lt.mpr h.1)

theorem writeBack_indexedElement (index : Int32) (replacements : List NbtTag) :
    (indexedElement index).writeBack library parent replacements =
      match actualCollectionIndex (collectionElements parent).length index, replacements with
      | some actualIndex, tag :: _ =>
        if tagsEq replacements ((indexedElement index).children parent) then parent
        else replaceCollection library parent ((collectionElements parent).set actualIndex tag)
      | _, _ => parent :=
  rfl

theorem visitIndexedCollectionElement_of_good {index : Int32}
    (h : ∀ tag ∈ (indexedElement index).children parent, branch.Good tag) :
    visitIndexedCollectionElement library parent index (NbtPath.countBranch branch) ⟨false, 0⟩ =
      (indexedElement index).descended library branch parent := by
  simp only [visitIndexedCollectionElement, descended, writeBack_indexedElement,
    children_indexedElement] at h ⊢
  unfold collectionElements at h ⊢
  cases helements : collectionElementsForMutation parent with
  | none => simp [actualCollectionIndex_zero]
  | some elements =>
    rw [helements, Option.getD_some] at h
    simp only [Option.getD_some]
    cases hindex : actualCollectionIndex elements.length index with
    | none => rfl
    | some actualIndex =>
      rw [hindex, Option.bind_some] at h
      cases helement : elements[actualIndex]? with
      | none => simp [helement]
      | some element =>
        rw [helement] at h
        have hgood : branch.Good element := h element (by simp)
        simp only [Option.bind_some, helement, Option.toList_some, map_cons, map_nil,
          NbtBranch.countBranch_of_good hgood, tagsEq, Bool.and_true]
        cases (branch element).1.eq element <;> simp

/-- A list is prepared as a list, and nothing else has elements that match. -/
theorem prepare_matchElement (library : NbtLibrary) (pattern : NbtCompound)
    (child parent : NbtTag) :
    (∃ kind tags kind' tags', parent = .list kind tags ∧
      ensureMatchingListElement library kind tags pattern = .list kind' tags' ∧
      (matchElement pattern).prepare library child parent = .list kind' tags') ∨
    (∀ kind tags, parent ≠ .list kind tags) ∧
      (matchElement pattern).prepare library child parent = parent ∧
      (matchElement pattern).children parent = [] := by
  cases parent with
  | list kind tags =>
    refine .inl ⟨kind, tags, ?_⟩
    rw [prepare, ensureMatchingListElement]
    split
    · exact ⟨kind, tags, rfl, rfl, rfl⟩
    · exact ⟨_, _, rfl, rfl, rfl⟩
  | _ => exact .inr ⟨nofun, rfl, children_matchElement_eq_nil pattern nofun⟩

theorem visitMatchingListElements_of_good {pattern : NbtCompound}
    (h : ∀ tag ∈ (matchElement pattern).children
      ((matchElement pattern).prepare library child parent), branch.Good tag) :
    visitMatchingListElements library parent pattern (NbtPath.countBranch branch) ⟨false, 0⟩ =
      (matchElement pattern).descended library branch
        ((matchElement pattern).prepare library child parent) := by
  have hwrite : ∀ prepared replacements,
      (matchElement pattern).writeBack library prepared replacements =
        if tagsEq replacements ((matchElement pattern).children prepared) then prepared
        else .listFrom library (replaceSelected (compoundPatternMatches pattern)
          (collectionElements prepared) replacements) := fun _ _ => rfl
  simp only [descended, hwrite]
  obtain ⟨kind, tags, kind', tags', rfl, hprepare, hprepared⟩ | ⟨hlist, hprepared, hnil⟩ :=
    prepare_matchElement library pattern child parent
  · have helements : collectionElements (.list kind' tags') = nbtListValues tags' := rfl
    rw [hprepared, children_matchElement] at h ⊢
    simp only [visitMatchingListElements, hprepare, helements,
      NbtBranch.visitElements_of_good _ _ _ _ h, Bool.false_or, Nat.zero_add]
    cases tagsEq _ _ <;> rfl
  · rw [hprepared, hnil]
    cases parent <;> first | rfl | exact absurd rfl (hlist _ _)

theorem getOrCreateTag_of_good
    (h : ∀ tag ∈ node.children (node.prepare library child parent), branch.Good tag) :
    node.getOrCreateTag library parent child (NbtPath.countBranch branch) ⟨false, 0⟩ =
      node.descended library branch (node.prepare library child parent) := by
  cases node with
  | compoundChild name =>
    cases parent with
    | compound entries =>
      simp only [prepare, descended, children_compoundChild] at h ⊢
      rw [getOrCreateTag, NbtBranch.visitEntry_of_good _ _ _ h]
      rfl
    | _ => rfl
  | matchObject name pattern =>
    cases parent with
    | compound entries =>
      simp only [prepare, descended, children_matchObject] at h ⊢
      rw [getOrCreateTag, NbtBranch.visitEntry_of_good _ _ _ h]
      rfl
    | _ => rfl
  | matchRootObject pattern =>
    have hwrite : ∀ replacements,
        (matchRootObject pattern).writeBack library parent replacements =
          replacements.headD parent := fun _ => rfl
    simp only [prepare, descended, children_matchRootObject, hwrite] at h ⊢
    rw [getOrCreateTag]
    cases hmatch : compoundPatternMatches pattern parent with
    | true =>
      rw [hmatch, if_pos rfl] at h
      simp [NbtBranch.countBranch_of_good (h parent (mem_singleton_self _))]
    | false => simp
  | allElements => exact visitAllCollectionElements_of_good h
  | indexedElement index => exact visitIndexedCollectionElement_of_good h
  | matchElement pattern => exact visitMatchingListElements_of_good h

/-- The first branch that ends gives the error. -/
theorem getOrCreateTag_of_fails {error : NbtPathMutationError}
    (h : branch.Fails error (node.children (node.prepare library child parent)))
    (state : SetOutcome) :
    (node.getOrCreateTag library parent child (NbtPath.countBranch branch) state).2.2 =
      .error error := by
  cases node with
  | compoundChild name =>
    cases parent with
    | compound entries =>
      simp only [prepare, children_compoundChild] at h
      exact NbtBranch.visitEntry_of_fails h state
    | _ => cases h
  | matchObject name pattern =>
    cases parent with
    | compound entries =>
      simp only [prepare, children_matchObject] at h
      exact NbtBranch.visitEntry_of_fails h state
    | _ => cases h
  | matchRootObject pattern =>
    simp only [prepare, children_matchRootObject] at h
    rw [getOrCreateTag]
    split at h
    · next hmatch => rw [if_pos hmatch, NbtBranch.countBranch_of_error h.singleton]
    · cases h
  | allElements =>
    simp only [prepare, children_allElements, collectionElements] at h
    simp only [getOrCreateTag, visitAllCollectionElements]
    cases helements :
      collectionElementsForMutation (ensureNonEmptyCollection library parent child) with
    | none =>
      rw [helements] at h
      cases h
    | some elements =>
      rw [helements, Option.getD_some, ← elements.filter_true] at h
      obtain ⟨last, hlast⟩ := NbtBranch.visitElements_of_fails _ h state
      simp [hlast]
  | indexedElement index =>
    simp only [prepare, children_indexedElement, collectionElements] at h
    simp only [getOrCreateTag, visitIndexedCollectionElement]
    cases helements : collectionElementsForMutation parent with
    | none =>
      rw [helements, Option.getD_none, length_nil, actualCollectionIndex_zero] at h
      cases h
    | some elements =>
      rw [helements, Option.getD_some] at h
      cases hindex : actualCollectionIndex elements.length index with
      | none =>
        rw [hindex] at h
        cases h
      | some actualIndex =>
        rw [hindex, Option.bind_some] at h
        cases helement : elements[actualIndex]? with
        | none =>
          rw [helement] at h
          cases h
        | some element =>
          rw [helement] at h
          simp [helement, hindex, NbtBranch.countBranch_of_error h.singleton]
  | matchElement pattern =>
    obtain ⟨kind, tags, kind', tags', rfl, hprepare, hprepared⟩ | ⟨-, hprepared, hnil⟩ :=
      prepare_matchElement library pattern child parent
    · have helements : collectionElements (.list kind' tags') = nbtListValues tags' := rfl
      rw [hprepared, children_matchElement] at h
      obtain ⟨last, hlast⟩ := NbtBranch.visitElements_of_fails _ h state
      simp [getOrCreateTag, visitMatchingListElements, hprepare, helements, hlast]
    · rw [hprepared, hnil] at h
      cases h

end NbtPathNode

/-! ### Levels -/

namespace NbtPath

variable {original : String} {value : NbtTag} {nodes : List NbtPathNodeEntry}

theorem splitLevel_flatten (level : List (List NbtTag)) (visit : NbtTag → NbtTag) :
    splitLevel level (level.flatten.map visit) = level.map (·.map visit) := by
  induction level with
  | nil => rfl
  | cons children rest ih =>
    rw [splitLevel, flatten_cons, map_append, take_left' (length_map _),
      drop_left' (length_map _), ih]
    rfl

variable {entry next : NbtPathNodeEntry} {rest : List NbtPathNodeEntry} {tag : NbtTag}

theorem setAt_of_good
    (h : ∀ child ∈ entry.below library next tag,
      NbtBranch.Good (setAt library original value (next :: rest)) child)
    (hne : entry.below library next tag ≠ []) :
    setAt library original value (entry :: next :: rest) tag =
      (entry.node.writeBack library (entry.parent library next tag)
          ((entry.below library next tag).map
            fun child => (setAt library original value (next :: rest) child).1),
        .ok ⟨true, ((entry.below library next tag).map
          (NbtBranch.count (setAt library original value (next :: rest)))).sum⟩) := by
  obtain ⟨first, others, hbelow⟩ := exists_cons_of_ne_nil hne
  rw [setAt, NbtPathNode.getOrCreateTag_of_good h, NbtPathNode.descended]
  change entry.node.children (entry.node.prepare library next.node.createPreferredParentTag tag) =
    first :: others at hbelow
  simp only [NbtPathNodeEntry.below, NbtPathNodeEntry.parent, hbelow]
  rfl

theorem setAt_of_nil (h : entry.below library next tag = []) :
    (setAt library original value (entry :: next :: rest) tag).2 =
      .error (.nothingFound (originalUpTo original entry.originalEnd)) := by
  change entry.node.children (entry.node.prepare library next.node.createPreferredParentTag tag) =
    [] at h
  rw [setAt, NbtPathNode.getOrCreateTag_of_good (by rw [h]; exact forall_mem_nil _),
    NbtPathNode.descended, h]
  rfl

theorem setAt_of_fails {error : NbtPathMutationError}
    (h : NbtBranch.Fails (setAt library original value (next :: rest)) error
      (entry.below library next tag)) :
    (setAt library original value (entry :: next :: rest) tag).2 = .error error := by
  have hvisit := NbtPathNode.getOrCreateTag_of_fails h ⟨false, 0⟩
  rw [setAt]
  generalize entry.node.getOrCreateTag library tag next.node.createPreferredParentTag
    (countBranch (setAt library original value (next :: rest))) ⟨false, 0⟩ = visited at hvisit
  obtain ⟨state, visitedTag, result⟩ := visited
  cases hvisit
  rfl

/-- Branch by branch, a value can be set below a tag exactly if no branch ends, and the first branch
that ends gives the error. -/
structure Descends (library : NbtLibrary) (original : String) (value : NbtTag)
    (nodes : List NbtPathNodeEntry) (tag : NbtTag) : Prop where
  good : deadEnd library original nodes tag = none →
    NbtBranch.Good (setAt library original value nodes) tag
  error : ∀ text, deadEnd library original nodes tag = some text →
    (setAt library original value nodes tag).2 = .error (.nothingFound text)

theorem fails_of_findSome? {tags : List NbtTag} {text : String}
    (hdescends : ∀ tag, Descends library original value nodes tag)
    (h : tags.findSome? (deadEnd library original nodes) = some text) :
    NbtBranch.Fails (setAt library original value nodes) (.nothingFound text) tags := by
  induction tags with
  | nil => cases h
  | cons tag tags ih =>
    rw [findSome?_cons] at h
    cases hend : deadEnd library original nodes tag with
    | some other =>
      rw [hend] at h
      cases h
      exact .head ((hdescends tag).error text hend)
    | none =>
      rw [hend] at h
      exact .tail ((hdescends tag).good hend) (ih h)

theorem below_of_deadEnd (h : deadEnd library original (entry :: next :: rest) tag = none) :
    entry.below library next tag ≠ [] ∧ ∀ child ∈ entry.below library next tag,
      deadEnd library original (next :: rest) child = none := by
  rw [deadEnd] at h
  split at h
  · cases h
  · next hne => exact ⟨by simpa using hne, findSome?_eq_none_iff.mp h⟩

variable (library original value) in
theorem descends (nodes : List NbtPathNodeEntry) (tag : NbtTag) :
    Descends library original value nodes tag := by
  induction nodes generalizing tag with
  | nil => exact ⟨fun _ => ⟨0, rfl⟩, fun _ h => nomatch h⟩
  | cons entry rest ih =>
    cases rest with
    | nil => exact ⟨fun _ => ⟨_, rfl⟩, fun _ h => nomatch h⟩
    | cons next rest =>
      by_cases hnil : entry.below library next tag = []
      · refine ⟨?_, ?_⟩ <;> simp only [deadEnd, hnil, isEmpty_nil, if_true]
        · exact fun h => nomatch h
        · rintro _ ⟨⟩
          exact setAt_of_nil hnil
      · have hend : deadEnd library original (entry :: next :: rest) tag =
            (entry.below library next tag).findSome? (deadEnd library original (next :: rest)) := by
          rw [deadEnd, if_neg (by simpa using hnil)]
        refine ⟨fun h => ?_, fun text h => ?_⟩
        · rw [hend, findSome?_eq_none_iff] at h
          exact ⟨_, congrArg Prod.snd
            (setAt_of_good (fun child hmem => (ih child).good (h child hmem)) hnil)⟩
        · rw [hend] at h
          exact setAt_of_fails (fails_of_findSome? ih h)

/-- If a value was set below a tag, it was set in every branch. -/
theorem good_of_setAt {outcome : SetOutcome}
    (h : (setAt library original value (entry :: next :: rest) tag).2 = .ok outcome) :
    entry.below library next tag ≠ [] ∧ ∀ child ∈ entry.below library next tag,
      NbtBranch.Good (setAt library original value (next :: rest)) child := by
  cases hend : deadEnd library original (entry :: next :: rest) tag with
  | some text =>
    rw [(descends _ _ _ _ tag).error text hend] at h
    cases h
  | none =>
    obtain ⟨hne, hchildren⟩ := below_of_deadEnd hend
    exact ⟨hne, fun child hmem => (descends _ _ _ _ child).good (hchildren child hmem)⟩

variable (library original value) in
theorem setLevels_emptyLevel (nodes : List NbtPathNodeEntry) (tags : List NbtTag) :
    match emptyLevel library original nodes tags with
    | some text => (setLevels library original value nodes tags).2 = .error (.nothingFound text)
    | none => ∃ modified, (setLevels library original value nodes tags).2 = .ok modified := by
  fun_induction emptyLevel library original nodes tags with
  | case1 entry next rest tags level hempty =>
    simp only [setLevels]
    rw [if_pos hempty]
  | case2 entry next rest tags level hempty ih =>
    simp only [setLevels]
    rw [if_neg hempty]
    exact ih
  | case3 nodes tags hshort =>
    match nodes with
    | [] => exact ⟨0, rfl⟩
    | [entry] => exact ⟨_, rfl⟩
    | entry :: next :: rest => exact absurd rfl (hshort entry next rest)

/-- If no branch ends, the levels do what every branch does. -/
theorem setLevels_eq (nodes : List NbtPathNodeEntry) {tags : List NbtTag} (htags : tags ≠ [])
    (h : ∀ tag ∈ tags, deadEnd library original nodes tag = none) :
    setLevels library original value nodes tags =
      (tags.map fun tag => (setAt library original value nodes tag).1,
        .ok (tags.map (NbtBranch.count (setAt library original value nodes))).sum) := by
  induction nodes generalizing tags with
  | nil =>
    have hcount : NbtBranch.count (setAt library original value []) = fun _ => 0 := rfl
    rw [hcount]
    simp [setLevels, setAt]
  | cons entry rest ih =>
    cases rest with
    | nil => rfl
    | cons next rest =>
      have hbelow := fun tag hmem => below_of_deadEnd (h tag hmem)
      have hset : ∀ tag ∈ tags, setAt library original value (entry :: next :: rest) tag = _ :=
        fun tag hmem => setAt_of_good
          (fun child hchild => (descends _ _ _ _ child).good ((hbelow tag hmem).2 child hchild))
          (hbelow tag hmem).1
      have hflatten : (tags.map (entry.below library next)).flatten ≠ [] := by
        obtain ⟨tag, others, rfl⟩ := exists_cons_of_ne_nil htags
        exact fun hnil => (hbelow tag mem_cons_self).1
          (flatten_eq_nil_iff.mp hnil _ (mem_map_of_mem mem_cons_self))
      have hlevel := ih hflatten (by
        intro child hchild
        obtain ⟨_, hmem, hchild⟩ := mem_flatten.mp hchild
        obtain ⟨tag, htag, rfl⟩ := mem_map.mp hmem
        exact (hbelow tag htag).2 child hchild)
      simp only [setLevels]
      rw [if_neg (by simpa using hflatten), hlevel, splitLevel_flatten]
      refine Prod.ext ?_ (congrArg Except.ok ?_)
      · rw [map_map, zipWith_map, zipWith_self]
        exact map_congr_left fun tag hmem => (congrArg Prod.fst (hset tag hmem)).symm
      · rw [map_flatten, sum_flatten, map_map, map_map]
        refine congrArg List.sum (map_congr_left fun tag hmem => ?_)
        rw [NbtBranch.count, hset tag hmem]
        rfl

theorem set_eq_setAt (path : NbtPath) (tag value : NbtTag)
    (hdeep : isTooDeep value path.nodes.length = false) :
    path.set library tag value =
      ((setAt library path.original value path.nodes tag).1,
        (setAt library path.original value path.nodes tag).2.map (·.modified)) := by
  obtain ⟨original, nodes⟩ := path
  rw [set, hdeep]
  match nodes with
  | [] => rfl
  | [last] => rfl
  | entry :: next :: rest => rfl

theorem setByLevels_eq (path : NbtPath) (tag value : NbtTag)
    (hdeep : isTooDeep value path.nodes.length = false) :
    path.setByLevels library tag value =
      ((setLevels library path.original value path.nodes [tag]).1.headD tag,
        (setLevels library path.original value path.nodes [tag]).2) := by
  rw [setByLevels, hdeep]
  rfl

/-- Setting a value branch by branch gives the result of the levels exactly if the value is too deep
or the first branch that ends does so at the first empty level, and whenever something was set the
levels set the same. -/
theorem set_eq_setByLevels_iff (path : NbtPath) (tag value : NbtTag) :
    ((path.set library tag value).2 = (path.setByLevels library tag value).2 ↔
      isTooDeep value path.nodes.length = true ∨
        deadEnd library path.original path.nodes tag =
          emptyLevel library path.original path.nodes [tag]) ∧
      ∀ modified, (path.set library tag value).2 = .ok modified →
        path.set library tag value = path.setByLevels library tag value := by
  cases hdeep : isTooDeep value path.nodes.length with
  | true => simp [set, setByLevels, hdeep]
  | false =>
    rw [set_eq_setAt path tag value hdeep, setByLevels_eq path tag value hdeep]
    have hlevels := setLevels_emptyLevel library path.original value path.nodes [tag]
    have hdescends := descends library path.original value path.nodes tag
    cases hend : deadEnd library path.original path.nodes tag with
    | some text =>
      rw [hdescends.error text hend]
      cases hempty : emptyLevel library path.original path.nodes [tag] with
      | some other =>
        rw [hempty] at hlevels
        rw [hlevels]
        simp [Except.map]
      | none =>
        rw [hempty] at hlevels
        obtain ⟨modified, hmodified⟩ := hlevels
        rw [hmodified]
        simp [Except.map]
    | none =>
      obtain ⟨changes, hgood⟩ := hdescends.good hend
      have hall : setLevels library path.original value path.nodes [tag] = _ :=
        setLevels_eq path.nodes (cons_ne_nil tag []) (forall_mem_singleton.mpr hend)
      have hempty : emptyLevel library path.original path.nodes [tag] = none := by
        cases hempty : emptyLevel library path.original path.nodes [tag] with
        | none => rfl
        | some other =>
          rw [hempty, hall] at hlevels
          cases hlevels
      have hcount : NbtBranch.count (setAt library path.original value path.nodes) tag =
          changes := by rw [NbtBranch.count, hgood]
      rw [hempty, hall, hgood]
      simp [Except.map, hcount]

def wrappingLibrary : NbtLibrary where
  listFrom := fun tags =>
    if tags.all fun tag => tag matches .compound _ then (.compound, tags)
    else if tags.all fun tag => tag matches .int _ then (.int, tags)
    else
      (.compound, tags.map fun tag =>
        match tag with
        | .compound entries => .compound entries
        | tag => .compound [([], tag)])
  floatToI32 := fun _ => 0
  floatToI64 := fun _ => 0
  doubleToI32 := fun _ => 0
  doubleToI64 := fun _ => 0

def deepPath : NbtPath where
  original := "[].a.b.c"
  nodes := [⟨.allElements, 2⟩, ⟨.compoundChild "a", 4⟩, ⟨.compoundChild "b", 6⟩,
    ⟨.compoundChild "c", 8⟩]

/-- The second element has no compound at `a`, and the first one is not changed either. -/
theorem set_elements_ne_setByLevels :
    (deepPath.set wrappingLibrary
        (.list .compound [.compound [], .compound [("a".toList, .int 1)]]) (.int 5)).2 =
      .error (.nothingFound "[].a.b") ∧
    (deepPath.setByLevels wrappingLibrary
        (.list .compound [.compound [], .compound [("a".toList, .int 1)]]) (.int 5)).2 =
          .ok 1 := by
  constructor <;> decide +kernel

end NbtPath

end Steel

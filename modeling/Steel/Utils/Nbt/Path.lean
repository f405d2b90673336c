import Mathlib.Data.Int.Notation
import Steel.Utils.Nbt.Tag

/-!
# NBT paths

A path selects tags level by level. Setting a value goes down branch by branch, creates parents that
are missing, and writes back what was changed. Whatever a branch has changed through a reference to
an entry of a compound stays changed when a later branch fails; the elements of a list are copies
until they are written back.
-/

namespace Steel

inductive NbtPathMutationError where
  | nothingFound (path : String)
  | tooDeep
deriving DecidableEq, Repr

inductive NbtPathNode where
  | compoundChild (name : String)
  | matchObject (name : String) (pattern : NbtCompound)
  | matchRootObject (pattern : NbtCompound)
  | allElements
  | indexedElement (index : Int32)
  | matchElement (pattern : NbtCompound)

structure NbtPathNodeEntry where
  node : NbtPathNode
  originalEnd : ℕ

structure NbtPath where
  original : String
  nodes : List NbtPathNodeEntry

def compoundPatternMatches (pattern : NbtCompound) (tag : NbtTag) : Bool :=
  compareNbt (.compound pattern) tag

/-! ### Collections -/

def collectionElementsForMutation : NbtTag → Option (List NbtTag)
  | .list _ tags => some (nbtListValues tags)
  | .byteArray values => some (values.map fun value => .byte value.toInt8)
  | .intArray values => some (values.map .int)
  | .longArray values => some (values.map .long)
  | _ => none

def collectionElements (tag : NbtTag) : List NbtTag := (collectionElementsForMutation tag).getD []

def collectionLen : NbtTag → Option ℕ
  | .list _ tags => some tags.length
  | .byteArray values => some values.length
  | .intArray values => some values.length
  | .longArray values => some values.length
  | _ => none

def actualCollectionIndex (len : ℕ) (index : Int32) : Option ℕ :=
  let actualIndex : ℤ := if index < 0 then len + index.toInt else index.toInt
  if 0 ≤ actualIndex ∧ actualIndex < len then some actualIndex.toNat else none

variable (library : NbtLibrary)

def nbtByteValue : NbtTag → Option Int8
  | .byte value => some value
  | .short value => some value.toInt8
  | .int value => some value.toInt8
  | .long value => some value.toInt8
  | .float bits => some (library.floatToI32 bits).toInt8
  | .double bits => some (library.doubleToI32 bits).toInt8
  | _ => none

def nbtIntValue : NbtTag → Option Int32
  | .byte value => some value.toInt32
  | .short value => some value.toInt32
  | .int value => some value
  | .long value => some value.toInt32
  | .float bits => some (library.floatToI32 bits)
  | .double bits => some (library.doubleToI32 bits)
  | _ => none

def nbtLongValue : NbtTag → Option Int64
  | .byte value => some value.toInt64
  | .short value => some value.toInt64
  | .int value => some value.toInt64
  | .long value => some value
  | .float bits => some (library.floatToI64 bits)
  | .double bits => some (library.doubleToI64 bits)
  | _ => none

variable (parent : NbtTag)

def replaceCollection (elements : List NbtTag) : NbtTag :=
  match parent with
  | .list _ _ => .listFrom library elements
  | .byteArray values =>
    .byteArray (((elements.mapM (nbtByteValue library)).map (·.map Int8.toUInt8)).getD values)
  | .intArray values => .intArray ((elements.mapM (nbtIntValue library)).getD values)
  | .longArray values => .longArray ((elements.mapM (nbtLongValue library)).getD values)
  | parent => parent

def replaceCollectionWithRepeated (len : ℕ) (value : NbtTag) : NbtTag × Bool :=
  match parent with
  | .list _ _ => (.listFrom library (List.replicate len value), true)
  | .byteArray values =>
    match nbtByteValue library value with
    | some value => (.byteArray (List.replicate len value.toUInt8), true)
    | none => (.byteArray values, false)
  | .intArray values =>
    match nbtIntValue library value with
    | some value => (.intArray (List.replicate len value), true)
    | none => (.intArray values, false)
  | .longArray values =>
    match nbtLongValue library value with
    | some value => (.longArray (List.replicate len value), true)
    | none => (.longArray values, false)
  | parent => (parent, false)

def clearCollection : NbtTag → NbtTag
  | .list kind _ => .list kind []
  | .byteArray _ => .byteArray []
  | .intArray _ => .intArray []
  | .longArray _ => .longArray []
  | tag => tag

def addCollectionElement (value : NbtTag) : NbtTag :=
  match parent with
  | .list _ tags => .listFrom library (nbtListValues tags ++ [value])
  | .byteArray values =>
    .byteArray (values ++ ((nbtByteValue library value).map Int8.toUInt8).toList)
  | .intArray values => .intArray (values ++ (nbtIntValue library value).toList)
  | .longArray values => .longArray (values ++ (nbtLongValue library value).toList)
  | parent => parent

def setCollectionElement (index : ℕ) (value : NbtTag) : NbtTag × Bool :=
  match parent with
  | .list kind tags =>
    if index < tags.length then (.listFrom library ((nbtListValues tags).set index value), true)
    else (.list kind tags, false)
  | .byteArray values =>
    match nbtByteValue library value with
    | some value => (.byteArray (values.set index value.toUInt8), decide (index < values.length))
    | none => (.byteArray values, false)
  | .intArray values =>
    match nbtIntValue library value with
    | some value => (.intArray (values.set index value), decide (index < values.length))
    | none => (.intArray values, false)
  | .longArray values =>
    match nbtLongValue library value with
    | some value => (.longArray (values.set index value), decide (index < values.length))
    | none => (.longArray values, false)
  | parent => (parent, false)

def ensureNonEmptyCollection (child : NbtTag) : NbtTag :=
  if collectionLen parent = some 0 then addCollectionElement library parent child else parent

def ensureMatchingListElement (kind : NbtListKind) (tags : List NbtTag) (pattern : NbtCompound) :
    NbtTag :=
  if (nbtListValues tags).any (compoundPatternMatches pattern) then .list kind tags
  else .listFrom library (nbtListValues tags ++ [.compound pattern])

/-! ### The last node -/

def setCompoundChild (name : NbtKey) (value : NbtTag) : NbtTag × ℕ :=
  match parent with
  | .compound entries =>
    match NbtCompound.get entries name with
    | some current =>
      if current.eq value then (parent, 0)
      else (.compound (NbtCompound.set entries name value), 1)
    | none => (.compound (NbtCompound.insert entries name value), 1)
  | parent => (parent, 0)

def setMatchingCompoundChild (name : NbtKey) (pattern : NbtCompound) (value : NbtTag) :
    NbtTag × ℕ :=
  match parent with
  | .compound entries =>
    match NbtCompound.get entries name with
    | some current =>
      if !compoundPatternMatches pattern current || current.eq value then (parent, 0)
      else (.compound (NbtCompound.set entries name value), 1)
    | none => (parent, 0)
  | parent => (parent, 0)

def setAllCollectionElements (value : NbtTag) : NbtTag × ℕ :=
  match collectionLen parent with
  | none => (parent, 0)
  | some len =>
    if len = 0 then (addCollectionElement library parent value, 1)
    else
      let changedCount := (collectionElements parent).countP fun element => !element.eq value
      if changedCount = 0 then (parent, 0)
      else
        match replaceCollectionWithRepeated library parent len value with
        | (parent, true) => (parent, changedCount)
        | (parent, false) => (clearCollection parent, 0)

def setIndexedCollectionElement (index : Int32) (value : NbtTag) : NbtTag × ℕ :=
  match collectionLen parent with
  | none => (parent, 0)
  | some len =>
    match actualCollectionIndex len index with
    | none => (parent, 0)
    | some actualIndex =>
      if ((collectionElements parent)[actualIndex]?).any (·.eq value) then (parent, 0)
      else
        let (parent, changed) := setCollectionElement library parent actualIndex value
        (parent, changed.toNat)

def setMatchingListElements (pattern : NbtCompound) (value : NbtTag) : NbtTag × ℕ :=
  match parent with
  | .list kind tags =>
    if tags.isEmpty then (.listFrom library (nbtListValues tags ++ [value]), 1)
    else
      let replaced (element : NbtTag) : Bool :=
        compoundPatternMatches pattern element && !element.eq value
      let elements := nbtListValues tags
      let changed := elements.countP replaced
      if 0 < changed then
        (.listFrom library
          (elements.map fun element => if replaced element then value else element), changed)
      else (.list kind tags, 0)
  | parent => (parent, 0)

namespace NbtPathNode

def get (node : NbtPathNode) (input : List NbtTag) : List NbtTag :=
  input.flatMap fun tag =>
    match node with
    | compoundChild name =>
      match tag with
      | .compound entries => (NbtCompound.get entries name.toList).toList
      | _ => []
    | matchObject name pattern =>
      match tag with
      | .compound entries =>
        (NbtCompound.get entries name.toList).toList.filter (compoundPatternMatches pattern)
      | _ => []
    | matchRootObject pattern => if compoundPatternMatches pattern tag then [tag] else []
    | allElements => collectionElements tag
    | indexedElement index =>
      let elements := collectionElements tag
      ((actualCollectionIndex elements.length index).bind (elements[·]?)).toList
    | matchElement pattern => (collectionElements tag).filter (compoundPatternMatches pattern)

def createPreferredParentTag : NbtPathNode → NbtTag
  | compoundChild _ => .compound []
  | matchObject _ _ => .compound []
  | matchRootObject _ => .compound []
  | allElements => .list .empty []
  | indexedElement _ => .list .empty []
  | matchElement _ => .list .empty []

def setTag (node : NbtPathNode) (parent value : NbtTag) : NbtTag × ℕ :=
  match node with
  | compoundChild name => setCompoundChild parent name.toList value
  | matchObject name pattern => setMatchingCompoundChild parent name.toList pattern value
  | matchRootObject _ => (parent, 0)
  | allElements => setAllCollectionElements library parent value
  | indexedElement index => setIndexedCollectionElement library parent index value
  | matchElement pattern => setMatchingListElements library parent pattern value

end NbtPathNode

/-! ### Visiting children -/

section Visit

variable {State : Type}

/-- A visitor changes what it has captured and the tag, and says whether it has found something. -/
abbrev NbtVisitor (State : Type) :=
  State → NbtTag → State × NbtTag × Except NbtPathMutationError Bool

/-- Visit the selected elements of a copy: the elements afterwards, whether something was found, and
whether something was changed. -/
def visitElements (selected : NbtTag → Bool) (visitor : NbtVisitor State) :
    State → List NbtTag → State × Except NbtPathMutationError (List NbtTag × Bool × Bool)
  | state, [] => (state, .ok ([], false, false))
  | state, element :: rest =>
    if selected element then
      match visitor state element with
      | (state, _, .error error) => (state, .error error)
      | (state, visited, .ok found) =>
        match visitElements selected visitor state rest with
        | (state, .error error) => (state, .error error)
        | (state, .ok (rest, foundLater, changedLater)) =>
          (state, .ok (visited :: rest, found || foundLater,
            !visited.eq element || changedLater))
    else
      match visitElements selected visitor state rest with
      | (state, .error error) => (state, .error error)
      | (state, .ok (rest, found, changed)) => (state, .ok (element :: rest, found, changed))

def visitAllCollectionElements (parent child : NbtTag) (visitor : NbtVisitor State)
    (state : State) :
    State × NbtTag × Except NbtPathMutationError Bool :=
  let parent := ensureNonEmptyCollection library parent child
  match collectionElementsForMutation parent with
  | none => (state, parent, .ok false)
  | some elements =>
    match visitElements (fun _ => true) visitor state elements with
    | (state, .error error) => (state, parent, .error error)
    | (state, .ok (elements, found, changed)) =>
      (state, if changed then replaceCollection library parent elements else parent, .ok found)

def visitIndexedCollectionElement (parent : NbtTag) (index : Int32) (visitor : NbtVisitor State)
    (state : State) : State × NbtTag × Except NbtPathMutationError Bool :=
  match collectionElementsForMutation parent with
  | none => (state, parent, .ok false)
  | some elements =>
    match actualCollectionIndex elements.length index with
    | none => (state, parent, .ok false)
    | some actualIndex =>
      match elements[actualIndex]? with
      | none => (state, parent, .ok false)
      | some element =>
        match visitor state element with
        | (state, _, .error error) => (state, parent, .error error)
        | (state, visited, .ok found) =>
          (state,
            if visited.eq element then parent
            else replaceCollection library parent (elements.set actualIndex visited),
            .ok found)

def visitMatchingListElements (parent : NbtTag) (pattern : NbtCompound) (visitor : NbtVisitor State)
    (state : State) : State × NbtTag × Except NbtPathMutationError Bool :=
  match parent with
  | .list kind tags =>
    let parent := ensureMatchingListElement library kind tags pattern
    match visitElements (compoundPatternMatches pattern) visitor state
      (collectionElements parent) with
    | (state, .error error) => (state, parent, .error error)
    | (state, .ok (elements, found, changed)) =>
      (state, if changed then .listFrom library elements else parent, .ok found)
  | parent => (state, parent, .ok false)

def visitEntry (entries : NbtCompound) (name : NbtKey) (selected : NbtTag → Bool)
    (visitor : NbtVisitor State) (state : State) :
    State × NbtTag × Except NbtPathMutationError Bool :=
  match NbtCompound.get entries name with
  | none => (state, .compound entries, .ok false)
  | some tag =>
    if selected tag then
      let (state, tag, result) := visitor state tag
      (state, .compound (NbtCompound.set entries name tag), result)
    else (state, .compound entries, .ok false)

def ensureCompoundChild (entries : NbtCompound) (name : NbtKey) (child : NbtTag) :
    NbtCompound :=
  if NbtCompound.contains entries name then entries else NbtCompound.insert entries name child

def NbtPathNode.getOrCreateTag (node : NbtPathNode) (parent child : NbtTag)
    (visitor : NbtVisitor State) (state : State) :
    State × NbtTag × Except NbtPathMutationError Bool :=
  match node with
  | compoundChild name =>
    match parent with
    | .compound entries =>
      visitEntry (ensureCompoundChild entries name.toList child) name.toList
        (fun _ => true) visitor state
    | parent => (state, parent, .ok false)
  | matchObject name pattern =>
    match parent with
    | .compound entries =>
      visitEntry (ensureCompoundChild entries name.toList (.compound pattern))
        name.toList (compoundPatternMatches pattern) visitor state
    | parent => (state, parent, .ok false)
  | matchRootObject pattern =>
    if compoundPatternMatches pattern parent then visitor state parent
    else (state, parent, .ok false)
  | allElements => visitAllCollectionElements library parent child visitor state
  | indexedElement index => visitIndexedCollectionElement library parent index visitor state
  | matchElement pattern => visitMatchingListElements library parent pattern visitor state

end Visit

/-! ### Setting a value -/

/-- The depth that is left; a value may not reach the last level. -/
def isTooDeepWithin : ℕ → NbtTag → Bool
  | 0, _ => true
  | room + 1, tag =>
    match tag with
    | .compound entries => entries.any fun entry => isTooDeepWithin room entry.2
    | .list _ tags => (nbtListValues tags).any (isTooDeepWithin room)
    | _ => false

def isTooDeep (tag : NbtTag) (depth : ℕ) : Bool := isTooDeepWithin (512 - depth) tag

structure SetOutcome where
  found : Bool
  modified : ℕ
deriving DecidableEq, Repr

namespace NbtPath

/-- The loop of `get`, which stops when nothing is selected. -/
def getFrom : List NbtPathNodeEntry → List NbtTag → List NbtTag
  | [], tags => tags
  | entry :: rest, tags =>
    let tags := entry.node.get tags
    if tags.isEmpty then tags else getFrom rest tags

def get (path : NbtPath) (tag : NbtTag) : List NbtTag := getFrom path.nodes [tag]

def originalUpTo (original : String) (originalEnd : ℕ) : String :=
  String.Pos.Raw.extract original 0 ⟨originalEnd⟩

/-- What the visitor of a node does with the result of a branch. -/
def countBranch (branch : NbtTag → NbtTag × Except NbtPathMutationError SetOutcome) :
    NbtVisitor SetOutcome :=
  fun state tag =>
    match branch tag with
    | (tag, .error error) => (state, tag, .error error)
    | (tag, .ok outcome) =>
      (⟨state.found || outcome.found, state.modified + outcome.modified⟩, tag, .ok outcome.found)

def setAt (original : String) (value : NbtTag) :
    List NbtPathNodeEntry → NbtTag → NbtTag × Except NbtPathMutationError SetOutcome
  | [], tag => (tag, .ok ⟨true, 0⟩)
  | [entry], tag =>
    let (tag, modified) := entry.node.setTag library tag value
    (tag, .ok ⟨true, modified⟩)
  | entry :: next :: rest, tag =>
    let preferredChild := next.node.createPreferredParentTag
    let (state, tag, result) := entry.node.getOrCreateTag library tag preferredChild
      (countBranch (setAt original value (next :: rest))) ⟨false, 0⟩
    match result with
    | .error error => (tag, .error error)
    | .ok false => (tag, .error (.nothingFound (originalUpTo original entry.originalEnd)))
    | .ok true => (tag, .ok ⟨state.found, state.modified⟩)

def set (path : NbtPath) (tag value : NbtTag) : NbtTag × Except NbtPathMutationError ℕ :=
  if isTooDeep value path.nodes.length then (tag, .error .tooDeep)
  else
    match path.nodes with
    | [] => (tag, .ok 0)
    | [last] =>
      let (tag, modified) := last.node.setTag library tag value
      (tag, .ok modified)
    | nodes =>
      let (tag, result) := setAt library path.original value nodes tag
      (tag, result.map (·.modified))

end NbtPath

end Steel

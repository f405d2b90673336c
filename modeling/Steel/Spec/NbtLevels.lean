import Mathlib.Algebra.GroupWithZero.Nat
import Steel.Utils.Nbt.Path

/-!
# Setting a value level by level

From the root on, the tags of a level are replaced by all the tags that the next node selects in any
of them, after it has created what is missing. It is an error if a level has no tag at all. The last
node sets the value in every tag of its level, and the changes are written back into the parents.
-/

namespace Steel

variable (library : NbtLibrary)

namespace NbtPathNode

def prepare (node : NbtPathNode) (child parent : NbtTag) : NbtTag :=
  match node, parent with
  | compoundChild name, .compound entries =>
    .compound (ensureCompoundChild entries name.toList child)
  | matchObject name pattern, .compound entries =>
    .compound (ensureCompoundChild entries name.toList (.compound pattern))
  | allElements, parent => ensureNonEmptyCollection library parent child
  | matchElement pattern, .list kind tags => ensureMatchingListElement library kind tags pattern
  | _, parent => parent

def children (node : NbtPathNode) (parent : NbtTag) : List NbtTag := node.get [parent]

end NbtPathNode

def replaceSelected (selected : NbtTag → Bool) : List NbtTag → List NbtTag → List NbtTag
  | element :: rest, replacements =>
    if selected element then
      match replacements with
      | replacement :: replacements => replacement :: replaceSelected selected rest replacements
      | [] => element :: rest
    else element :: replaceSelected selected rest replacements
  | [], _ => []

def writeEntry (parent : NbtTag) (name : NbtKey) (replacements : List NbtTag) : NbtTag :=
  match parent, replacements with
  | .compound entries, tag :: _ => .compound (NbtCompound.set entries name tag)
  | parent, _ => parent

/-- Write the tags of the next level back. A collection is only written if an element has
changed. -/
def NbtPathNode.writeBack (node : NbtPathNode) (parent : NbtTag) (replacements : List NbtTag) :
    NbtTag :=
  let elements := collectionElements parent
  let unchanged := tagsEq replacements (node.children parent)
  match node with
  | compoundChild name => writeEntry parent name.toList replacements
  | matchObject name _ => writeEntry parent name.toList replacements
  | matchRootObject _ => replacements.headD parent
  | allElements => if unchanged then parent else replaceCollection library parent replacements
  | indexedElement index =>
    match actualCollectionIndex elements.length index, replacements with
    | some actualIndex, tag :: _ =>
      if unchanged then parent
      else replaceCollection library parent (elements.set actualIndex tag)
    | _, _ => parent
  | matchElement pattern =>
    if unchanged then parent
    else
      .listFrom library
        (replaceSelected (compoundPatternMatches pattern) elements replacements)

def splitLevel : List (List NbtTag) → List NbtTag → List (List NbtTag)
  | [], _ => []
  | children :: rest, tags =>
    tags.take children.length :: splitLevel rest (tags.drop children.length)

namespace NbtPathNodeEntry

/-- A tag of a level, with everything that is needed for the next one. -/
def parent (entry next : NbtPathNodeEntry) (tag : NbtTag) : NbtTag :=
  entry.node.prepare library next.node.createPreferredParentTag tag

def below (entry next : NbtPathNodeEntry) (tag : NbtTag) : List NbtTag :=
  entry.node.children (entry.parent library next tag)

end NbtPathNodeEntry

namespace NbtPath

def setLevels (original : String) (value : NbtTag) :
    List NbtPathNodeEntry → List NbtTag → List NbtTag × Except NbtPathMutationError ℕ
  | [], tags => (tags, .ok 0)
  | [entry], tags =>
    (tags.map fun tag => (entry.node.setTag library tag value).1,
      .ok (tags.map fun tag => (entry.node.setTag library tag value).2).sum)
  | entry :: next :: rest, tags =>
    let parents := tags.map (entry.parent library next)
    let level := tags.map (entry.below library next)
    if level.flatten.isEmpty then
      (parents, .error (.nothingFound (originalUpTo original entry.originalEnd)))
    else
      let (tags, result) := setLevels original value (next :: rest) level.flatten
      (List.zipWith (entry.node.writeBack library) parents (splitLevel level tags), result)

def setByLevels (path : NbtPath) (tag value : NbtTag) : NbtTag × Except NbtPathMutationError ℕ :=
  if isTooDeep value path.nodes.length then (tag, .error .tooDeep)
  else
    let (tags, result) := setLevels library path.original value path.nodes [tag]
    (tags.headD tag, result)

/-- The path up to the node at which the first branch ends, in the order in which the branches are
visited. -/
def deadEnd (original : String) : List NbtPathNodeEntry → NbtTag → Option String
  | entry :: next :: rest, tag =>
    if (entry.below library next tag).isEmpty then some (originalUpTo original entry.originalEnd)
    else (entry.below library next tag).findSome? (deadEnd original (next :: rest))
  | _, _ => none

/-- The path up to the first node with nothing below it in any branch. -/
def emptyLevel (original : String) : List NbtPathNodeEntry → List NbtTag → Option String
  | entry :: next :: rest, tags =>
    let level := tags.map (entry.below library next)
    if level.flatten.isEmpty then some (originalUpTo original entry.originalEnd)
    else emptyLevel original (next :: rest) level.flatten
  | _, _ => none

end NbtPath

end Steel

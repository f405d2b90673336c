import Mathlib.Data.Prod.Lex
import Steel.Lib.HashMap
import Steel.Lib.RunningBest
import Steel.Utils.Types

/-!
# Permission keys, sets and groups

A rule applies everywhere, in a domain, in a world, where a custom key has a value, or where several
of these hold at once. A set is a sequence of rules, each with the place that it comes from. The
rule that decides is found in one pass: a more specific key comes first, then a more specific
context, then a rule of the subject itself before one of a group, then a group of a higher priority.
Of the rules that are left, one that denies wins.
-/

namespace Steel

inductive PermissionRuleContext where
  | global
  | domain (domain : String)
  | world (world : Identifier)
  | custom (key value : String)
  | all (contexts : List PermissionRuleContext)

/-- What is active. -/
structure PermissionContext where
  domain : Option String
  world : Option Identifier
  customContexts : List PermissionRuleContext

namespace PermissionRuleContext

def isCustom (key value : String) : PermissionRuleContext → Bool
  | custom otherKey otherValue => decide (otherKey = key ∧ otherValue = value)
  | _ => false

mutual

def matchesContext (context : PermissionContext) : PermissionRuleContext → Bool
  | global => true
  | domain name => decide (context.domain = some name)
  | world name => decide (context.world = some name)
  | custom key value => context.customContexts.any (isCustom key value)
  | all contexts => allMatch context contexts

def allMatch (context : PermissionContext) : List PermissionRuleContext → Bool
  | [] => true
  | constraint :: rest => constraint.matchesContext context && allMatch context rest

end

mutual

def specificity : PermissionRuleContext → ℕ
  | global => 0
  | domain _ => 1
  | custom _ _ => 1
  | world _ => 2
  | all contexts => specificitySum contexts

def specificitySum : List PermissionRuleContext → ℕ
  | [] => 0
  | context :: rest => context.specificity + specificitySum rest

end

end PermissionRuleContext

/-!
### Keys

A key is a text of segments with dots between them. The last segment may be a wildcard. A key
matches itself, and a wildcard matches everything below its other segments.
-/

inductive PermissionKeyError where
  | empty
  | emptySegment
  | wildcardNotFinal
  | invalidWildcardSegment
  | invalidSegment
deriving DecidableEq, Repr

def splitDots (text : List Char) : List (List Char) := text.splitOn '.'

def validatePermissionSegment (segment : List Char) : Except PermissionKeyError Unit :=
  if segment.all fun character => character.isLower || character.isDigit || character == '_' ||
      character == '-' then .ok ()
  else .error .invalidSegment

namespace PermissionKey

def checkSegments : List (List Char) → Except PermissionKeyError Unit
  | [] => .ok ()
  | segment :: rest => do
    if segment.isEmpty then .error .emptySegment
    else if segment = ['*'] then
      if rest.isEmpty then .ok () else .error .wildcardNotFinal
    else if segment.contains '*' then .error .invalidWildcardSegment
    else
      validatePermissionSegment segment
      checkSegments rest

def check (value : List Char) : Except PermissionKeyError Unit :=
  if value.isEmpty then .error .empty else checkSegments (splitDots value)

end PermissionKey

structure PermissionKey where
  value : List Char
  checked : PermissionKey.check value = .ok ()
deriving DecidableEq

namespace PermissionKey

def stripSuffix (suffix text : List Char) : Option (List Char) :=
  if suffix <:+ text then some (text.take (text.length - suffix.length)) else none

def isBelow (start text : List Char) : Bool := start ++ ['.'] <+: text

def matchesKey (key other : PermissionKey) : Bool :=
  if key.value = ['*'] then true
  else
    match stripSuffix ['.', '*'] key.value with
    | none => decide (key = other)
    | some start => isBelow start other.value

def specificity (key : PermissionKey) : ℕ :=
  if key.value = ['*'] then 0
  else (splitDots ((stripSuffix ['.', '*'] key.value).getD key.value)).length

def scopes (parent key : PermissionKey) : Bool :=
  if parent = key then true else isBelow parent.value key.value

end PermissionKey

inductive PermissionState where
  | allow
  | deny
deriving DecidableEq, Repr

structure PermissionEntry where
  key : PermissionKey
  context : PermissionRuleContext
  state : PermissionState

inductive PermissionResolutionSource where
  | group (name : String) (priority : ℤ)
  | subject
deriving DecidableEq, Repr

namespace PermissionResolutionSource

def rank : PermissionResolutionSource → ℕ
  | group _ _ => 0
  | subject => 1

def tiePriority : PermissionResolutionSource → ℤ
  | group _ priority => priority
  | subject => 0

end PermissionResolutionSource

/-- Every entry has a source. -/
structure PermissionSet where
  entries : List PermissionEntry
  sources : List PermissionResolutionSource
  length_eq : entries.length = sources.length

structure PermissionCandidate where
  entryIndex : ℕ
  keySpecificity : ℕ
  contextSpecificity : ℕ
  source : PermissionResolutionSource
  state : PermissionState

/-- How rules are compared: by keys, by contexts, by where they come from, and by groups. -/
abbrev PermissionOrder := ℕ ×ₗ ℕ ×ₗ ℕ ×ₗ ℤ

def PermissionCandidate.order (candidate : PermissionCandidate) : PermissionOrder :=
  toLex (candidate.keySpecificity, toLex (candidate.contextSpecificity,
    toLex (candidate.source.rank, candidate.source.tiePriority)))

def pushCandidate (best : Option PermissionCandidate) (candidate : PermissionCandidate) :
    Option PermissionCandidate :=
  keepBest PermissionCandidate.order
    (fun candidate => decide (candidate.state = .deny)) best candidate

namespace PermissionSet

def new : PermissionSet := ⟨[], [], rfl⟩

variable (set : PermissionSet)

def rules : List (PermissionEntry × PermissionResolutionSource) :=
  set.entries.zip set.sources

variable (entry : PermissionEntry)

def pushWithSource (source : PermissionResolutionSource) : PermissionSet where
  entries := set.entries ++ [entry]
  sources := set.sources ++ [source]
  length_eq := by
    rw [List.length_append, List.length_append, set.length_eq]
    rfl

def push : PermissionSet :=
  set.pushWithSource entry .subject

def pushGroup (group : String) (groupPriority : ℤ) : PermissionSet :=
  set.pushWithSource entry (.group group groupPriority)

def fromEntries (entries : List PermissionEntry) : PermissionSet where
  entries := entries
  sources := List.replicate entries.length .subject
  length_eq := (List.length_replicate).symm

def keySpecificity (key pattern : PermissionKey) : Option ℕ :=
  if pattern.matchesKey key then some pattern.specificity else none

/-- The specificity of a rule that matches the key, or the parent if it is one. -/
def scopedKeySpecificity (parent key pattern : PermissionKey) : Option ℕ :=
  let matchesParent := parent.scopes key && pattern.matchesKey parent
  let matchesKey := pattern.matchesKey key
  if !matchesParent && !matchesKey then none
  else if matchesKey && !matchesParent then some (pattern.specificity + 1)
  else some pattern.specificity

/-- The best rule among those that have a specificity and whose context matches. -/
def bestCandidate (specificityOf : PermissionKey → Option ℕ) (context : PermissionContext) :
    Option PermissionCandidate :=
  set.rules.zipIdx.foldl
    (fun best rule =>
      let ((entry, source), index) := rule
      if !entry.context.matchesContext context then best
      else
        match specificityOf entry.key with
        | none => best
        | some specificity =>
          pushCandidate best ⟨index, specificity, entry.context.specificity, source, entry.state⟩)
    none

def bestKeyCandidate (key : PermissionKey) (context : PermissionContext) :
    Option PermissionCandidate :=
  set.bestCandidate (keySpecificity key) context

def bestScopedKeyCandidate (parent key : PermissionKey) (context : PermissionContext) :
    Option PermissionCandidate :=
  set.bestCandidate (scopedKeySpecificity parent key) context

def resolveKeyIn (key : PermissionKey) (context : PermissionContext) : Option PermissionState :=
  (set.bestKeyCandidate key context).map PermissionCandidate.state

def resolveScopedKeyIn (parent key : PermissionKey) (context : PermissionContext) :
    Option PermissionState :=
  (set.bestScopedKeyCandidate parent key context).map PermissionCandidate.state

end PermissionSet

/-!
### Groups

A subject has the rules of the default groups and of its own groups, and of the groups that these
inherit from. Every group contributes at most once, and the subject's own rules come last. Groups
may inherit from each other in a circle.
-/

structure PermissionGroup where
  priority : ℤ
  inherits : List String
  permissions : PermissionSet

structure PermissionGroups where
  defaultGroups : List String
  groups : HashMap String PermissionGroup

structure GroupCollection where
  effective : PermissionSet
  appendedGroups : Finset String

namespace PermissionGroups

variable (groups : PermissionGroups)

/-- Append a group and those it inherits from. It has no result if it is nested too deeply. -/
def appendGroup : ℕ → GroupCollection → String → Option GroupCollection
  | 0, _, _ => none
  | depth + 1, collection, groupName =>
    if groupName ∈ collection.appendedGroups then some collection
    else
      let collection :=
        { collection with appendedGroups := insert groupName collection.appendedGroups }
      match groups.groups.lookup groupName with
      | none => some collection
      | some group => do
        let collection ← group.inherits.foldlM (appendGroup depth) collection
        return { collection with
          effective := group.permissions.entries.foldl
            (fun effective entry => effective.pushGroup entry groupName group.priority)
            collection.effective }

def effectivePermissions (assignedGroups : List String) (subjectPermissions : PermissionSet) :
    Option PermissionSet := do
  -- A group is only entered once, so that this depth is enough.
  let depth := groups.groups.keys.card + 1
  let collection ← groups.defaultGroups.foldlM (groups.appendGroup depth) ⟨.new, ∅⟩
  let collection ← assignedGroups.foldlM (groups.appendGroup depth) collection
  return subjectPermissions.entries.foldl (fun effective entry => effective.push entry)
    collection.effective

end PermissionGroups

end Steel

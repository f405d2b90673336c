import Steel.Permission.Set

/-!
# Which rule decides

The rules of a subject are a set: those of the groups that it belongs to, and its own. Of the rules
that apply, those of the highest precedence decide. They deny if one of them denies, and allow
otherwise.
-/

namespace Steel

abbrev PermissionRule := PermissionEntry × PermissionResolutionSource

namespace PermissionRule

structure Applies (rule : PermissionRule) (key : PermissionKey) (context : PermissionContext) :
    Prop where
  context : rule.1.context.matchesContext context = true
  key : rule.1.key.matchesKey key = true

def precedence (rule : PermissionRule) : PermissionOrder :=
  toLex (rule.1.key.specificity, toLex (rule.1.context.specificity,
    toLex (match rule.2 with
      | .subject => (1, 0)
      | .group _ priority => (0, priority))))

end PermissionRule

def decidingRules (rules : Set PermissionRule) (key : PermissionKey) (context : PermissionContext) :
    Set PermissionRule :=
  {rule | rule ∈ rules ∧ rule.Applies key context ∧
    ∀ other ∈ rules, other.Applies key context → other.precedence ≤ rule.precedence}

open Classical in
noncomputable def ruleDecision (rules : Set PermissionRule) (key : PermissionKey)
    (context : PermissionContext) : Option PermissionState :=
  if ∃ rule ∈ rules, rule.Applies key context then
    if ∃ rule ∈ decidingRules rules key context, rule.1.state = .deny then some .deny
    else some .allow
  else none

namespace PermissionGroups

variable (groups : PermissionGroups)

def Inherits (name parent : String) : Prop :=
  ∃ group, groups.groups.lookup name = some group ∧ parent ∈ group.inherits

def Member (assignedGroups : List String) (name : String) : Prop :=
  ∃ start, (start ∈ groups.defaultGroups ∨ start ∈ assignedGroups) ∧
    Relation.ReflTransGen groups.Inherits start name

def GroupRule (name : String) (rule : PermissionRule) : Prop :=
  ∃ group, groups.groups.lookup name = some group ∧ rule.1 ∈ group.permissions.entries ∧
    rule.2 = .group name group.priority

def rulesOf (assignedGroups : List String) (subjectPermissions : PermissionSet) :
    Set PermissionRule :=
  {rule | (∃ name, groups.Member assignedGroups name ∧ groups.GroupRule name rule) ∨
    (rule.1 ∈ subjectPermissions.entries ∧ rule.2 = .subject)}

end PermissionGroups

/-- The same group but for the order and repetition of what it has. -/
structure PermissionGroup.SameContents (left right : PermissionGroup) : Prop where
  priority : left.priority = right.priority
  inherits : ∀ name, name ∈ left.inherits ↔ name ∈ right.inherits
  entries : ∀ entry, entry ∈ left.permissions.entries ↔ entry ∈ right.permissions.entries

/-- The same groups but for the order and repetition of what they have. -/
structure PermissionGroups.SameContents (left right : PermissionGroups) : Prop where
  defaultGroups : ∀ name, name ∈ left.defaultGroups ↔ name ∈ right.defaultGroups
  groups : ∀ name,
    Option.Rel PermissionGroup.SameContents (left.groups.lookup name) (right.groups.lookup name)

end Steel

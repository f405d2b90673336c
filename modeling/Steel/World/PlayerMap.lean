import Steel.Lib.HashMap

/-!
# The players of a world

Two indexes lead to the slot of a player, and a list keeps the order of insertion. All changes are
made under one lock from beginning to end, so calls on several threads run one after the other.
-/

namespace Steel

variable {P U : Type} [DecidableEq P] [DecidableEq U]

/-- The keys of a player. A handle `P` is equal to another if they point to the same player. -/
structure PlayerKeys (P U : Type) where
  uuid : P → U
  entityId : P → ℤ

/-- A slot is the number of its creation. -/
structure PlayerMap (P U : Type) where
  slots : List P
  byUuid : HashMap U ℕ
  byEntityId : HashMap ℤ ℕ
  order : List U

namespace PlayerMap

def new : PlayerMap P U := { slots := [], byUuid := ∅, byEntityId := ∅, order := [] }

variable (keys : PlayerKeys P U)

/-- An entity id that is already registered is a panic, and leaves the map as it was. -/
def insert (map : PlayerMap P U) (player : P) : Option (Bool × PlayerMap P U) :=
  if keys.uuid player ∈ map.byUuid then some (false, map)
  else if keys.entityId player ∈ map.byEntityId then none
  else
    let slot := map.slots.length
    some (true,
      { slots := map.slots ++ [player]
        byUuid := map.byUuid.insert (keys.uuid player) slot
        byEntityId := map.byEntityId.insert (keys.entityId player) slot
        order := map.order ++ [keys.uuid player] })

variable (map : PlayerMap P U)

def unregister (uuid : U) (slot : ℕ) (player : P) : PlayerMap P U :=
  { map with
    byUuid := map.byUuid.erase uuid
    byEntityId :=
      if map.byEntityId.lookup (keys.entityId player) = some slot then
        map.byEntityId.erase (keys.entityId player)
      else map.byEntityId
    order := map.order.filter (· ≠ uuid) }

def removeSync (uuid : U) : Option P × PlayerMap P U :=
  match map.byUuid.lookup uuid with
  | none => (none, map)
  | some slot =>
    match map.slots[slot]? with
    | none => (none, map)
    | some player => (some player, map.unregister keys uuid slot player)

def removePlayerSync (player : P) : Option P × PlayerMap P U :=
  match map.byUuid.lookup (keys.uuid player) with
  | none => (none, map)
  | some slot =>
    if map.slots[slot]? = some player then
      (some player, map.unregister keys (keys.uuid player) slot player)
    else (none, map)

/-- Under the lock, nothing comes between the comparison and the swap. -/
def replaceSlot (slot : ℕ) (expected replacement : P) : Bool × PlayerMap P U :=
  if map.slots[slot]? = some expected then
    (true, { map with slots := map.slots.set slot replacement })
  else (false, map)

def replacePlayer (expected replacement : P) : Bool × PlayerMap P U :=
  if keys.uuid replacement ≠ keys.uuid expected ∨
      keys.entityId replacement ≠ keys.entityId expected then (false, map)
  else
    match map.byUuid.lookup (keys.uuid expected) with
    | none => (false, map)
    | some slot =>
      if map.byEntityId.lookup (keys.entityId expected) = some slot then
        map.replaceSlot slot expected replacement
      else (false, map)

def getByUuid (uuid : U) : Option P :=
  (map.byUuid.lookup uuid).bind fun slot => map.slots[slot]?

def getByEntityId (entityId : ℤ) : Option P :=
  (map.byEntityId.lookup entityId).bind fun slot => map.slots[slot]?

/-! ### Runs -/

inductive Change (P U : Type) where
  | inserted (player : P)
  | removed (uuid : U)
  | replaced (expected replacement : P)

inductive Reached (keys : PlayerKeys P U) : List (Change P U) → PlayerMap P U → Prop
  | new : Reached keys [] new
  | insert {changes : List (Change P U)} {map after : PlayerMap P U} {player : P} {inserted : Bool}
      (hreached : Reached keys changes map)
      (hinsert : map.insert keys player = some (inserted, after)) :
      Reached keys (changes ++ if inserted then [.inserted player] else []) after
  | remove {changes : List (Change P U)} {map after : PlayerMap P U} {uuid : U}
      {removed : Option P} (hreached : Reached keys changes map)
      (hremove : map.removeSync keys uuid = (removed, after)) :
      Reached keys (changes ++ if removed.isSome then [.removed uuid] else []) after
  | removePlayer {changes : List (Change P U)} {map after : PlayerMap P U} {player : P}
      {removed : Option P} (hreached : Reached keys changes map)
      (hremove : map.removePlayerSync keys player = (removed, after)) :
      Reached keys (changes ++ if removed.isSome then [.removed (keys.uuid player)] else []) after
  | replace {changes : List (Change P U)} {map after : PlayerMap P U} {expected replacement : P}
      {replaced : Bool} (hreached : Reached keys changes map)
      (hreplace : map.replacePlayer keys expected replacement = (replaced, after)) :
      Reached keys (changes ++ if replaced then [.replaced expected replacement] else []) after

def insertions (changes : List (Change P U)) : List U :=
  changes.filterMap fun
    | .inserted player => some (keys.uuid player)
    | _ => none

def Change.Registers (player : P) : Change P U → Prop
  | .inserted other => other = player
  | .replaced _ replacement => replacement = player
  | .removed _ => False

end PlayerMap

end Steel

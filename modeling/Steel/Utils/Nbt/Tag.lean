import Mathlib.Data.List.Basic

/-!
# NBT tags

A list has one kind of elements, and keeps it when it is emptied. A list of different kinds is
stored as a list of compounds, in which an element of another kind is wrapped: it is the only entry
of a compound and has the empty key. Keys are texts. Strings are sequences of UTF-16 code units, of
which any may be a lone surrogate. Floating-point numbers are their bits.
-/

namespace Steel

abbrev Mutf8String := List UInt16

/-- A key is well formed. The source looks keys up as texts, in which a lone surrogate would be
replaced. -/
abbrev NbtKey := List Char

inductive NbtListKind where
  | empty
  | byte
  | short
  | int
  | long
  | float
  | double
  | byteArray
  | string
  | list
  | compound
  | intArray
  | longArray
deriving DecidableEq, Repr

inductive NbtTag where
  | byte (value : Int8)
  | short (value : Int16)
  | int (value : Int32)
  | long (value : Int64)
  | float (bits : UInt32)
  | double (bits : UInt64)
  | byteArray (values : List UInt8)
  | string (value : Mutf8String)
  | list (kind : NbtListKind) (tags : List NbtTag)
  | compound (entries : List (NbtKey × NbtTag))
  | intArray (values : List Int32)
  | longArray (values : List Int64)

abbrev NbtCompound := List (NbtKey × NbtTag)

/-! ### Compounds -/

namespace NbtCompound

variable (compound : NbtCompound)

def get (key : NbtKey) : Option NbtTag := compound.lookup key

def contains (key : NbtKey) : Bool := (compound.get key).isSome

def insert (key : NbtKey) (tag : NbtTag) : NbtCompound :=
  compound ++ [(key, tag)]

/-- Write through the reference to the first entry with the key. -/
def set : NbtCompound → NbtKey → NbtTag → NbtCompound
  | [], _, _ => []
  | (other, current) :: rest, key, tag =>
    if key = other then (other, tag) :: rest else (other, current) :: set rest key tag

end NbtCompound

/-! ### Lists -/

def unwrapListWrapper : NbtTag → NbtTag
  | .compound [(key, value)] => if key = [] then value else .compound [(key, value)]
  | tag => tag

def nbtListValues (tags : List NbtTag) : List NbtTag := tags.map unwrapListWrapper

/-! ### Equality -/

/-- Numbers with the given bits are equal: zeros are equal, and nothing equals a number that is not
one. -/
def floatBitsEq (left right : UInt32) : Bool :=
  let notNan (bits : UInt32) := decide (bits &&& 0x7fffffff ≤ 0x7f800000)
  notNan left && notNan right && (left == right || (left ||| right) &&& 0x7fffffff == 0)

def doubleBitsEq (left right : UInt64) : Bool :=
  let notNan (bits : UInt64) := decide (bits &&& 0x7fffffffffffffff ≤ 0x7ff0000000000000)
  notNan left && notNan right && (left == right || (left ||| right) &&& 0x7fffffffffffffff == 0)

mutual

def NbtTag.eq : NbtTag → NbtTag → Bool
  | .byte left, .byte right => left == right
  | .short left, .short right => left == right
  | .int left, .int right => left == right
  | .long left, .long right => left == right
  | .float left, .float right => floatBitsEq left right
  | .double left, .double right => doubleBitsEq left right
  | .byteArray left, .byteArray right => left == right
  | .string left, .string right => left == right
  | .list leftKind left, .list rightKind right => leftKind == rightKind && tagsEq left right
  | .compound left, .compound right => entriesEq left right
  | .intArray left, .intArray right => left == right
  | .longArray left, .longArray right => left == right
  | _, _ => false

def tagsEq : List NbtTag → List NbtTag → Bool
  | [], [] => true
  | left :: lefts, right :: rights => left.eq right && tagsEq lefts rights
  | _, _ => false

def entriesEq : List (NbtKey × NbtTag) → List (NbtKey × NbtTag) → Bool
  | [], [] => true
  | (leftKey, left) :: lefts, (rightKey, right) :: rights =>
    leftKey == rightKey && left.eq right && entriesEq lefts rights
  | _, _ => false

end

def floatTagsEqual (left right : UInt32) : Bool :=
  let isNan (bits : UInt32) := decide (0x7f800000 < bits &&& 0x7fffffff)
  (isNan left && isNan right) || left == right

def doubleTagsEqual (left right : UInt64) : Bool :=
  let isNan (bits : UInt64) := decide (0x7ff0000000000000 < bits &&& 0x7fffffffffffffff)
  (isNan left && isNan right) || left == right

mutual

/-- Equality of values: compounds are maps, and lists have the values that they stand for. -/
def nbtTagsEqual : NbtTag → NbtTag → Bool
  | .byte left, .byte right => left == right
  | .short left, .short right => left == right
  | .int left, .int right => left == right
  | .long left, .long right => left == right
  | .float left, .float right => floatTagsEqual left right
  | .double left, .double right => doubleTagsEqual left right
  | .byteArray left, .byteArray right => left == right
  | .string left, .string right => left == right
  | .list _ left, .list _ right => nbtValuesEqual left (nbtListValues right)
  | .compound left, .compound right =>
    left.length == right.length && nbtEntriesEqual left right
  | .intArray left, .intArray right => left == right
  | .longArray left, .longArray right => left == right
  | _, _ => false

def nbtValuesEqual : List NbtTag → List NbtTag → Bool
  | [], [] => true
  | .compound [(key, value)] :: lefts, right :: rights =>
    (if key = [] then nbtTagsEqual value right
      else nbtTagsEqual (.compound [(key, value)]) right) && nbtValuesEqual lefts rights
  | left :: lefts, right :: rights => nbtTagsEqual left right && nbtValuesEqual lefts rights
  | _, _ => false

def nbtEntriesEqual : List (NbtKey × NbtTag) → List (NbtKey × NbtTag) → Bool
  | [], _ => true
  | (key, left) :: lefts, rights =>
    (match NbtCompound.get rights key with
      | some right => nbtTagsEqual left right
      | none => false) && nbtEntriesEqual lefts rights

end

mutual

/-- Whether a value has everything that is expected, in any order within lists. -/
def compareNbt : NbtTag → NbtTag → Bool
  | .compound expected, .compound actual =>
    decide (expected.length ≤ actual.length) && compareNbtCompounds expected actual
  | .list _ expected, .list _ actual =>
    if expected.isEmpty then actual.isEmpty
    else decide (expected.length ≤ actual.length) &&
      compareListsPartially expected (nbtListValues actual)
  | expected, actual => nbtTagsEqual expected actual

def compareNbtCompounds : List (NbtKey × NbtTag) → List (NbtKey × NbtTag) → Bool
  | [], _ => true
  | (key, expected) :: rest, actual =>
    (match NbtCompound.get actual key with
      | some tag => compareNbt expected tag
      | none => false) && compareNbtCompounds rest actual

def compareListsPartially : List NbtTag → List NbtTag → Bool
  | [], _ => true
  | .compound [(key, value)] :: rest, actual =>
    (if key = [] then actual.any (compareNbt value)
      else actual.any (compareNbt (.compound [(key, value)]))) && compareListsPartially rest actual
  | expected :: rest, actual =>
    actual.any (compareNbt expected) && compareListsPartially rest actual

end

def compareNbtOptions (expected actual : Option NbtTag) (partialListMatches : Bool) : Bool :=
  match expected, actual with
  | none, _ => true
  | some _, none => false
  | some expected, some actual =>
    if partialListMatches then compareNbt expected actual else nbtTagsEqual expected actual

/-! ### Merging -/

def NbtCompound.removeAll (compound : NbtCompound) (key : NbtKey) : NbtCompound :=
  compound.filter fun entry => entry.1 ≠ key

mutual

/-- Compounds are merged where both sides have one; other values of the source replace what there
is. -/
def mergeNbtCompounds (target : NbtCompound) : List (NbtKey × NbtTag) → NbtCompound
  | [] => target
  | (key, sourceValue) :: rest => mergeNbtCompounds (mergeNbtEntry target key sourceValue) rest

def mergeNbtEntry (target : NbtCompound) (key : NbtKey) : NbtTag → NbtCompound
  | .compound sourceCompound =>
    match target.get key with
    | some (.compound targetCompound) =>
      target.set key (.compound (mergeNbtCompounds targetCompound sourceCompound))
    | _ => (target.removeAll key).insert key (.compound sourceCompound)
  | sourceValue => (target.removeAll key).insert key sourceValue

end

/-- What a value looks like to the library: how it stores lists of different kinds, and how it
rounds floating-point numbers down. -/
structure NbtLibrary where
  listFrom : List NbtTag → NbtListKind × List NbtTag
  floatToI32 : UInt32 → Int32
  floatToI64 : UInt32 → Int64
  doubleToI32 : UInt64 → Int32
  doubleToI64 : UInt64 → Int64

def NbtTag.listFrom (library : NbtLibrary) (tags : List NbtTag) : NbtTag :=
  .list (library.listFrom tags).1 (library.listFrom tags).2

end Steel

import Steel.Chunk.PalettedContainer
import Steel.Lib.WordPacking
import Steel.Utils.VariableInteger

/-!
# Network encoding of paletted containers

Entries are packed into big-endian longs, `64 / bits` of them in each, low bits first. An entry is
an index into the palette, found through a table by global id that the containers of a thread share,
or the global id itself.
-/

namespace Steel

open Function

/-- Values with a global id. Ids are `u16`-backed and distinct. -/
class ToGlobalId (V : Type) where
  toGlobalId : V → ℕ
  toGlobalId_lt : ∀ value, toGlobalId value < 65536
  toGlobalId_injective : Injective toGlobalId

export ToGlobalId (toGlobalId)

instance : ToGlobalId BlockStateId where
  toGlobalId state := state.id.toNat
  toGlobalId_lt state := state.id.toNat_lt
  toGlobalId_injective first second h := by
    rcases first with ⟨first⟩
    rcases second with ⟨second⟩
    exact congrArg BlockStateId.mk (UInt16.toNat_inj.mp h)

instance : ToGlobalId UInt16 where
  toGlobalId := UInt16.toNat
  toGlobalId_lt := UInt16.toNat_lt
  toGlobalId_injective _ _ h := UInt16.toNat_inj.mp h

/-! ### Packing -/

namespace PaletteEncode

def maxPackedBytes : ℕ := divCeil 4096 4 * 8

def indexTableLen : ℕ := 65536

/-- Marks a slot whose global id is not in the palette being encoded. -/
def emptySlot : ℕ := 65535

def toBeBytes (long : ℕ) : List UInt8 := (toLeBytes 8 long).reverse

variable {V : Type} [ToGlobalId V]

omit [ToGlobalId V] in
/-- The longs of the values; a value without an entry counts as zero. -/
def longs (bits : ℕ) (lookup : V → Option ℕ) (values : List V) : List ℕ :=
  (List.range (divCeil values.length (64 / bits))).map fun long =>
    WordPacking.orFrom bits 0 0
      (WordPacking.wordPart (64 / bits) (values.map fun value => (lookup value).getD 0) long)

omit [ToGlobalId V] in
def packLongs (bits : ℕ) (lookup : V → Option ℕ) (values : List V) :
    Except IoError (List UInt8) :=
  if maxPackedBytes < divCeil values.length (64 / bits) * 8 then
    .error (.invalidData "container is too large to pack")
  else if values.any fun value => (lookup value).isNone then
    .error (.invalidData "container holds a value its palette cannot encode")
  else .ok ((longs bits lookup values).flatMap toBeBytes)

omit [ToGlobalId V] in
def pack (values : List V) (bits : ℕ) (lookup : V → Option ℕ) : Except IoError (List UInt8) :=
  if 1 ≤ bits ∧ bits ≤ 16 then packLongs bits lookup values
  else .error (.invalidData "unsupported bits per entry")

def packGlobalIds (values : List V) (bits : ℕ) : Except IoError (List UInt8) :=
  let allIds := values.foldl (fun allIds value => allIds ||| toGlobalId value) 0
  if allIds >>> (bits % 32) ≠ 0 then
    .error (.invalidData "container holds a global id wider than the global palette")
  else pack values bits fun value => some (toGlobalId value)

abbrev IndexTable := ℕ → ℕ

/-- Enter the palette from an index on. An error leaves what was entered before. -/
def fill (slots : IndexTable) (index : ℕ) : Palette V → Except IoError Unit × IndexTable
  | [] => (.ok (), slots)
  | (value, _) :: rest =>
    if emptySlot ≤ index then
      (.error (.invalidData "palette has too many entries to index"), slots)
    else if indexTableLen ≤ toGlobalId value then
      (.error (.invalidData "palette value has an out-of-range global id"), slots)
    else fill (update slots (toGlobalId value) index) (index + 1) rest

def indexOf (slots : IndexTable) (value : V) : Option ℕ :=
  if indexTableLen ≤ toGlobalId value then none
  else if slots (toGlobalId value) = emptySlot then none
  else some (slots (toGlobalId value))

/-- Empty the slots of a palette, when its table is dropped. -/
def reset (slots : IndexTable) (palette : Palette V) : IndexTable :=
  palette.foldl (fun slots entry =>
    if indexTableLen ≤ toGlobalId entry.1 then slots
    else update slots (toGlobalId entry.1) emptySlot) slots

def packPaletteIndices (values : List V) (palette : Palette V) (bits : ℕ) (slots : IndexTable) :
    Except IoError (List UInt8) × IndexTable :=
  match fill slots 0 palette with
  | (.error error, slots) => (.error error, reset slots palette)
  | (.ok (), slots) => (pack values bits (indexOf slots), reset slots palette)

end PaletteEncode

/-! ### Writing -/

/-- A writer fails once it has taken all the bytes it has room for, if that is limited. -/
structure Writer where
  written : List UInt8
  room : Option ℕ

namespace Writer

def writeAll (writer : Writer) (bytes : List UInt8) : Except IoError Unit × Writer :=
  match writer.room with
  | none => (.ok (), { writer with written := writer.written ++ bytes })
  | some room =>
    if bytes.length ≤ room then
      (.ok (), { written := writer.written ++ bytes, room := some (room - bytes.length) })
    else (.error .failed, { written := writer.written ++ bytes.take room, room := some 0 })

def writeEach (writer : Writer) : List (List UInt8) → Except IoError Unit × Writer
  | [] => (.ok (), writer)
  | bytes :: rest =>
    match writer.writeAll bytes with
    | (.error error, writer) => (.error error, writer)
    | (.ok (), writer) => writer.writeEach rest

end Writer

/-- The sizes of the registries that global ids come from. -/
structure RegistrySizes where
  blockStates : ℕ
  biomes : ℕ

inductive PaletteMode where
  | linear
  | hash
  | global
deriving DecidableEq, Repr

namespace PalettedContainer

/-- Bits per entry and the kind of palette. Fewer than two entries are unreachable. -/
def calculateStrategy (sizes : RegistrySizes) (dim count : ℕ) : Option (ℕ × PaletteMode) :=
  if dim = 16 then
    if count ≤ 1 then none
    else if count ≤ 16 then some (4, .linear)
    else if count ≤ 32 then some (5, .hash)
    else if count ≤ 64 then some (6, .hash)
    else if count ≤ 128 then some (7, .hash)
    else if count ≤ 256 then some (8, .hash)
    else some (ceilLog2 sizes.blockStates, .global)
  else
    if count ≤ 1 then none
    else if count ≤ 2 then some (1, .linear)
    else if count ≤ 4 then some (2, .linear)
    else if count ≤ 8 then some (3, .hash)
    else some (ceilLog2 sizes.biomes, .global)

variable {V : Type} [ToGlobalId V] {dim : ℕ}

/-- The packed entries, which are computed before anything is written. -/
def packEntries (data : HeterogeneousPalette V dim) (bits : ℕ) (mode : PaletteMode)
    (slots : PaletteEncode.IndexTable) :
    Except IoError (List UInt8) × PaletteEncode.IndexTable :=
  match mode with
  | .global => (PaletteEncode.packGlobalIds data.cube.values bits, slots)
  | _ => PaletteEncode.packPaletteIndices data.cube.values data.palette bits slots

def paletteBytes (palette : Palette V) : PaletteMode → List (List UInt8)
  | .global => []
  | _ => VarInt.bytes palette.length :: palette.map fun entry => VarInt.bytes (toGlobalId entry.1)

/-- Write a container, with the index table of the thread. `none` is a panic. -/
def write (sizes : RegistrySizes) (container : PalettedContainer V dim)
    (slots : PaletteEncode.IndexTable) (writer : Writer) :
    Option ((Except IoError Unit × Writer) × PaletteEncode.IndexTable) :=
  match container with
  | .homogeneous value => some (writer.writeEach [[0], VarInt.bytes (toGlobalId value)], slots)
  | .heterogeneous data => do
    let (bits, mode) ← calculateStrategy sizes dim data.palette.length
    match packEntries data bits mode slots with
    | (.error error, slots) => return ((.error error, writer), slots)
    | (.ok packed, slots) =>
      return (writer.writeEach
        ([UInt8.ofNat bits] :: paletteBytes data.palette mode ++ [packed]), slots)
  | .building _ => none

end PalettedContainer

end Steel

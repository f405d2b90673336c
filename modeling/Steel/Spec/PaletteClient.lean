import Steel.Lib.LittleEndian
import Steel.Lib.WordPacking
import Steel.Utils.Types

/-!
# How a client reads a paletted container

A byte says how many bits an entry has. No bits stand for one value everywhere; few bits for indices
into a palette that follows; more bits for global ids. The entries follow in big-endian longs, and
no entry spans two of them.
-/

namespace Steel.PaletteClient

def readVarIntFrom : ℕ → ℕ → ℕ → List UInt8 → Option (ℕ × List UInt8)
  | 0, _, _, _ => none
  | _ + 1, _, _, [] => none
  | fuel + 1, shift, value, byte :: rest =>
    let value := value ||| ((byte.toNat &&& 0x7f) <<< shift) % 2 ^ 32
    if byte.toNat &&& 0x80 = 0 then some (value, rest)
    else readVarIntFrom fuel (shift + 7) value rest

def readVarInt (bytes : List UInt8) : Option (ℕ × List UInt8) := readVarIntFrom 5 0 0 bytes

def readVarInts : ℕ → List UInt8 → Option (List ℕ × List UInt8)
  | 0, bytes => some ([], bytes)
  | count + 1, bytes => do
    let (first, bytes) ← readVarInt bytes
    let (rest, bytes) ← readVarInts count bytes
    return (first :: rest, bytes)

def readLongs : ℕ → List UInt8 → Option (List ℕ × List UInt8)
  | 0, bytes => some ([], bytes)
  | count + 1, bytes =>
    if bytes.length < 8 then none
    else do
      let (rest, left) ← readLongs count (bytes.drop 8)
      return (fromLeBytes (bytes.take 8).reverse :: rest, left)

/-- The palette, unless entries are global ids. -/
def readPalette (bits maxPalettedBits : ℕ) (bytes : List UInt8) :
    Option (Option (List ℕ) × List UInt8) :=
  if bits ≤ maxPalettedBits then do
    let (count, bytes) ← readVarInt bytes
    let (palette, bytes) ← readVarInts count bytes
    return (some palette, bytes)
  else some (none, bytes)

def resolve (palette : Option (List ℕ)) (entry : ℕ) : Option ℕ :=
  match palette with
  | some palette => palette[entry]?
  | none => some entry

def readEntry (bits : ℕ) (palette : Option (List ℕ)) (longs : List ℕ) (index : ℕ) : Option ℕ := do
  let long ← longs[index / (64 / bits)]?
  resolve palette (WordPacking.wordEntry bits long (index % (64 / bits)))

/-- The widest entries that are palette indices, for block states and for biomes. -/
def maxPalettedBits (dim : ℕ) : ℕ := if dim = 16 then 8 else 3

def readContainer (volume maxPalettedBits : ℕ) : List UInt8 → Option (List ℕ × List UInt8)
  | [] => none
  | bitsByte :: bytes =>
    let bits := bitsByte.toNat
    if bits = 0 then do
      let (value, bytes) ← readVarInt bytes
      return (List.replicate volume value, bytes)
    else do
      let (palette, bytes) ← readPalette bits maxPalettedBits bytes
      let (longs, bytes) ← readLongs (divCeil volume (64 / bits)) bytes
      let values ← (List.range volume).mapM (readEntry bits palette longs)
      return (values, bytes)

end Steel.PaletteClient

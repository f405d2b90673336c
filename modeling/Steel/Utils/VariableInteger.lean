import Steel.Lib.LittleEndian
import Steel.Utils.FrontVec
import Steel.Utils.Types

/-!
# Variable-length integers

The writers spread the bits of a number over the bytes of a word and or the continuation marks into
it. The readers collect seven bits per byte until a byte without a mark.
-/

namespace Steel

def leadingZeros (width n : ℕ) : ℕ := width - n.size

/-- Read at most the given number of bytes, from byte `i` on. A shift by the whole width or more
would be a panic. -/
def readDigits (width : ℕ) (tooLong : IoError) :
    ℕ → ℕ → BitVec width → List UInt8 → Outcome (BitVec width × List UInt8)
  | 0, _, _, _ => Outcome.error tooLong
  | _ + 1, _, _, [] => Outcome.error .unexpectedEof
  | left + 1, i, val, byte :: rest =>
    if width ≤ i * 7 then none
    else
      let val := val ||| ((BitVec.ofNat width byte.toNat &&& 0x7F) <<< (i * 7))
      if byte &&& 0x80 = 0 then some (.ok (val, rest))
      else readDigits width tooLong left (i + 1) val rest

namespace VarInt

def packPayload (value : ℕ) : ℕ :=
  (value &&& 0x7f)
    ||| ((value &&& 0x3f80) <<< 1)
    ||| ((value &&& 0x001fc000) <<< 2)
    ||| ((value &&& 0x0fe00000) <<< 3)
    ||| ((value &&& 0x00000007f0000000) <<< 4)
    ||| ((value &&& 0x000003f800000000) <<< 5)
    ||| ((value &&& 0x0001fc0000000000) <<< 6)
    ||| ((value &&& 0x00fe000000000000) <<< 7)

def bytes (value : ℕ) : List UInt8 :=
  if value < 0x80 then [UInt8.ofNat value]
  else if value < 0x4000 then [UInt8.ofNat value ||| 0x80, UInt8.ofNat (value >>> 7)]
  else if value < 0x200000 then
    [UInt8.ofNat value ||| 0x80, UInt8.ofNat (value >>> 7) ||| 0x80, UInt8.ofNat (value >>> 14)]
  else if value < 2 ^ 28 then (toLeBytes 8 (packPayload value ||| 0x00808080)).take 4
  else (toLeBytes 8 (packPayload value ||| 0x80808080)).take 5

def maxSize : ℕ := 5

def write (value : Int32) : List UInt8 := bytes value.toUInt32.toNat

def writtenSize (value : Int32) : ℕ :=
  if value = 0 then 1 else (31 - leadingZeros 32 value.toUInt32.toNat) / 7 + 1

/-- Put the bytes in front of a payload. The size is asserted, and must leave a shift below 64. -/
def setInFront (value : Int32) (vec : FrontVec) (varintSize : ℕ) : Option FrontVec :=
  if varintSize ≠ writtenSize value then none
  else if 8 < varintSize ∨ varintSize = 0 then none
  else
    let continuation := 0x0080808080808080 >>> ((8 - varintSize) * 8)
    let bytes := toLeBytes 8 (packPayload value.toUInt32.toNat ||| continuation)
    if maxSize < varintSize then none
    else vec.setInFront ((bytes.take maxSize).take varintSize)

def read (bytes : List UInt8) : Outcome (Int32 × List UInt8) := do
  let (val, rest) ← readDigits 32 (.other "VarInt to long") maxSize 0 0 bytes
  return (Int32.ofBitVec val, rest)

def readAsync (bytes : List UInt8) : Outcome (Int32 × List UInt8) :=
  match readDigits 32 (.other "VarInt") maxSize 0 0 bytes with
  | some (.ok (val, rest)) => some (.ok (Int32.ofBitVec val, rest))
  | some (.error _) => Outcome.error (.other "VarInt")
  | none => none

end VarInt

namespace VarLong

def maxSize : ℕ := 10

def write (value : Int64) : List UInt8 :=
  let unsigned := value.toUInt64.toNat
  if unsigned < 0x80 then [UInt8.ofNat unsigned]
  else if unsigned < 2 ^ 32 then VarInt.write (UInt32.ofNat unsigned).toInt32
  else
    let packed := VarInt.packPayload unsigned
    if 2 ^ 56 ≤ unsigned then
      let bytes := toLeBytes 8 (packed ||| 0x8080808080808080) ++ [UInt8.ofNat (unsigned >>> 56), 1]
      if 0 ≤ value then bytes.take 9 else bytes
    else
      let size := divCeil (64 - leadingZeros 64 unsigned) 7
      let continuation := 0x0080808080808080 >>> ((8 - size) * 8)
      let bytes := toLeBytes 8 (packed ||| continuation)
      match size with
      | 5 => bytes.take 5
      | 6 => bytes.take 6
      | 7 => bytes.take 7
      | _ => bytes

def read (bytes : List UInt8) : Outcome (Int64 × List UInt8) := do
  let (val, rest) ← readDigits 64 (.other "VarLong too long") maxSize 0 0 bytes
  return (Int64.ofBitVec val, rest)

end VarLong

end Steel

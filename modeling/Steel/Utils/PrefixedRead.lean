import Steel.Utils.VariableInteger

/-!
# Strings with a length in front

A string is read as a number of bytes and its UTF-8 bytes. Malformed bytes are replaced the way Java
replaces them, and the length of the string is bounded in UTF-16 units.
-/

namespace Steel.PrefixedRead

/-! ### Decoding -/

def replacementCharacter : Char := '�'

def isUtf8Continuation (byte : UInt8) : Bool := byte &&& 0xC0 == 0x80

def malformedThreeBytePrefix (first second : UInt8) : Bool :=
  (first == 0xE0 && second &&& 0xE0 != 0xA0) || !isUtf8Continuation second

def malformedThreeByteSequence (first second third : UInt8) : Bool :=
  malformedThreeBytePrefix first second || !isUtf8Continuation third

def malformedThreeByteLength (first second : UInt8) : ℕ :=
  if malformedThreeBytePrefix first second then 1 else 2

def malformedFourByteSecond (first second : UInt8) : Bool :=
  (first == 0xF0 && (second < 0x90 || second > 0xBF)) ||
    (first == 0xF4 && (second < 0x80 || second > 0x8F)) || first > 0xF4 ||
    !isUtf8Continuation second

def malformedFourBytePrefixLength (first : UInt8) (second third : Option UInt8) (remaining : ℕ) :
    ℕ :=
  match second with
  | none => 1
  | some second =>
    if malformedFourByteSecond first second then 1
    else
      match third with
      | some third => if !isUtf8Continuation third then 2 else remaining
      | none => remaining

def malformedFourByteSequence (first second third fourth : UInt8) : Bool :=
  malformedFourByteSecond first second || !isUtf8Continuation third || !isUtf8Continuation fourth

def malformedFourByteLength (first second third : UInt8) : ℕ :=
  if malformedFourByteSecond first second then 1
  else if !isUtf8Continuation third then 2
  else 3

/-- The character with a code point, or the replacement character if there is none. -/
def charFromU32 (codePoint : ℕ) : Char :=
  if codePoint.isValidChar then Char.ofNat codePoint else replacementCharacter

/-- The character to push and the number of bytes to pass, from the bytes at an offset on. A byte
beyond the end panics. -/
def decodeStep (bytes : List UInt8) : Option (Char × ℕ) := do
  let first ← bytes[0]?
  let remaining := bytes.length
  if first < 0x80 then some (Char.ofNat first.toNat, 1)
  else if 0xC2 ≤ first ∧ first ≤ 0xDF then
    if 2 ≤ remaining then
      let second ← bytes[1]?
      if isUtf8Continuation second then
        some (charFromU32 (((first &&& 0x1F).toNat <<< 6) ||| (second &&& 0x3F).toNat), 2)
      else some (replacementCharacter, 1)
    else some (replacementCharacter, 1)
  else if 0xE0 ≤ first ∧ first ≤ 0xEF then
    if remaining < 3 then
      if remaining = 1 then some (replacementCharacter, 1)
      else
        let second ← bytes[1]?
        some (replacementCharacter,
          if malformedThreeBytePrefix first second then 1 else remaining)
    else
      let second ← bytes[1]?
      let third ← bytes[2]?
      if malformedThreeByteSequence first second third then
        some (replacementCharacter, malformedThreeByteLength first second)
      else
        some (charFromU32 (((first &&& 0x0F).toNat <<< 12) ||| ((second &&& 0x3F).toNat <<< 6) |||
          (third &&& 0x3F).toNat), 3)
  else if 0xF0 ≤ first ∧ first ≤ 0xF7 then
    if remaining < 4 then
      some (replacementCharacter,
        malformedFourBytePrefixLength first bytes[1]? bytes[2]? remaining)
    else
      let second ← bytes[1]?
      let third ← bytes[2]?
      let fourth ← bytes[3]?
      if malformedFourByteSequence first second third fourth then
        some (replacementCharacter, malformedFourByteLength first second third)
      else
        some (charFromU32 (((first &&& 0x07).toNat <<< 18) ||| ((second &&& 0x3F).toNat <<< 12) |||
          ((third &&& 0x3F).toNat <<< 6) ||| (fourth &&& 0x3F).toNat), 4)
  else some (replacementCharacter, 1)

/-- The loop over the bytes, with a bound on its rounds. -/
def decodeLoop : ℕ → List UInt8 → Option (List Char)
  | _, [] => some []
  | 0, _ :: _ => none
  | rounds + 1, byte :: bytes => do
    let (character, length) ← decodeStep (byte :: bytes)
    let decoded ← decodeLoop rounds ((byte :: bytes).drop length)
    some (character :: decoded)

/-- Every round passes a byte, so that there are no more rounds than bytes. -/
def decodeJavaUtf8Lossy (bytes : List UInt8) : Option (List Char) := decodeLoop bytes.length bytes

/-! ### Reading -/

def utf16Units (text : List Char) : ℕ :=
  (text.map fun character => if character.toNat < 0x10000 then 1 else 2).sum

/-- A slice has at most `isize::MAX` bytes. -/
structure Cursor where
  data : List UInt8
  position : ℕ
  length_le : data.length ≤ 2 ^ 63 - 1

inductive ReadUtfError where
  | io (error : IoError)
  | unexpectedEof (message : String)

/-- `none` is a panic. -/
def readUtf (cursor : Cursor) (maxUtf16Units : ℕ) :
    Option (Except ReadUtfError (List Char × Cursor)) := do
  match ← VarInt.read (cursor.data.drop cursor.position) with
  | .error error => some (.error (.io error))
  | .ok (encodedLen, rest) =>
    if encodedLen < 0 then
      some (.error (.io (.invalidData "encoded string length is negative")))
    else
      let encodedLen := encodedLen.toInt.toNat
      if 2 ^ 64 ≤ maxUtf16Units * 3 then
        some (.error (.io (.invalidInput "maximum UTF-16 length is too large")))
      else if maxUtf16Units * 3 < encodedLen then
        some (.error (.io (.invalidData "encoded string length exceeds maximum")))
      else
        let start := cursor.data.length - rest.length
        let stop := start + encodedLen
        if 2 ^ 64 ≤ stop then
          some (.error (.unexpectedEof "encoded string length exceeds the addressable input"))
        else if cursor.data.length < stop then
          some (.error (.unexpectedEof "encoded string is truncated"))
        else
          let decoded ← decodeJavaUtf8Lossy ((cursor.data.drop start).take encodedLen)
          if maxUtf16Units < utf16Units decoded then
            some (.error (.io (.invalidData "decoded string length exceeds maximum")))
          else some (.ok (decoded, { cursor with position := stop }))

end Steel.PrefixedRead

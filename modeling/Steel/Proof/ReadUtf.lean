import Steel.Proof.Utf8Lossy
import Steel.Proof.VariableInteger

/-!
# Strings are read back

A character takes at most three bytes per UTF-16 unit, so that the bound on the bytes never refuses
a string that is short enough. Every other input is refused, or is the text of its bytes with the
malformed parts replaced.
-/

namespace Steel.PrefixedRead

open List

/-! ### Lengths -/

theorem length_utf8EncodeChar_le (character : Char) :
    (String.utf8EncodeChar character).length ≤ 3 * utf16Units [character] := by
  rw [utf16Units, map_singleton, sum_singleton]
  obtain ⟨hone, hencode⟩ | ⟨hlow, htwo, hencode⟩ | ⟨hlow, hthree, hscalar, hencode⟩ |
      ⟨hlow, hfour, hencode⟩ := utf8EncodeChar_cases character
  · rw [hencode, if_pos (by omega), length_singleton]
    omega
  · rw [hencode, if_pos (by omega), length_cons, length_singleton]
    omega
  · rw [hencode, if_pos (by omega), length_cons, length_cons, length_singleton]
  · rw [hencode, if_neg (by omega), length_cons, length_cons, length_cons, length_singleton]
    omega

theorem utf16Units_cons (character : Char) (text : List Char) :
    utf16Units (character :: text) = utf16Units [character] + utf16Units text := by
  simp only [utf16Units, map_cons, map_nil, sum_cons, sum_nil, Nat.add_zero]

theorem length_utf8Bytes_le (text : List Char) :
    (utf8Bytes text).length ≤ utf16Units text * 3 := by
  induction text with
  | nil => exact Nat.zero_le _
  | cons character text ih =>
    have hcharacter := length_utf8EncodeChar_le character
    rw [utf16Units_cons, utf8Bytes, flatMap_cons, length_append, ← utf8Bytes]
    omega

/-! ### Reading -/

variable {cursor : Cursor} {encodedLen : Int32}

/-- What reading does once the length is read. -/
theorem readUtf_eq {rest : List UInt8} (maxUtf16Units : ℕ)
    (hread : VarInt.read (cursor.data.drop cursor.position) = some (.ok (encodedLen, rest)))
    (hrest : rest <:+ cursor.data) : readUtf cursor maxUtf16Units =
      if encodedLen < 0 then
        some (.error (.io (.invalidData "encoded string length is negative")))
      else if 2 ^ 64 ≤ maxUtf16Units * 3 then
        some (.error (.io (.invalidInput "maximum UTF-16 length is too large")))
      else if maxUtf16Units * 3 < encodedLen.toInt.toNat then
        some (.error (.io (.invalidData "encoded string length exceeds maximum")))
      else if rest.length < encodedLen.toInt.toNat then
        some (.error (.unexpectedEof "encoded string is truncated"))
      else if maxUtf16Units < utf16Units (decoded (rest.take encodedLen.toInt.toNat)) then
        some (.error (.io (.invalidData "decoded string length exceeds maximum")))
      else
        some (.ok (decoded (rest.take encodedLen.toInt.toNat),
          { cursor with
            position := cursor.data.length - rest.length + encodedLen.toInt.toNat })) := by
  have hsegment :
      (cursor.data.drop (cursor.data.length - rest.length)).take encodedLen.toInt.toNat =
      rest.take encodedLen.toInt.toNat := by
    obtain ⟨before, hdata⟩ := hrest
    rw [← hdata, length_append, Nat.add_sub_cancel, drop_left]
  have hle := hrest.length_le
  have hdata := cursor.length_le
  have hlen : encodedLen.toInt < 2 ^ 31 := encodedLen.toInt_lt
  have htruncated : cursor.data.length < cursor.data.length - rest.length + encodedLen.toInt.toNat ↔
      rest.length < encodedLen.toInt.toNat := by
    omega
  rw [readUtf, hread]
  simp only [Option.bind_eq_bind, Option.bind_some, hsegment, decodeJavaUtf8Lossy_eq]
  rw [if_neg (show ¬ 2 ^ 64 ≤ cursor.data.length - rest.length + encodedLen.toInt.toNat by omega)]
  simp only [htruncated]

theorem decoded_utf8Bytes_self (text : List Char) : decoded (utf8Bytes text) = text := by
  have hdecoded := decoded_utf8Bytes text []
  rwa [append_nil, decoded, append_nil] at hdecoded

/-- A string that is short enough is read back, and the cursor is left after it. The length is an
`i32`, and the bound on the bytes a `usize`. -/
theorem readUtf_write {maxUtf16Units : ℕ} {before suffix : List UInt8} {text : List Char}
    (hmax : maxUtf16Units * 3 < 2 ^ 64) (htext : utf16Units text ≤ maxUtf16Units)
    (hlen : encodedLen.toInt = (utf8Bytes text).length)
    (hdata : cursor.data = before ++ (VarInt.write encodedLen ++ (utf8Bytes text ++ suffix)))
    (hposition : cursor.position = before.length) : readUtf cursor maxUtf16Units = some (.ok (text,
      { cursor with
        position := before.length + (VarInt.write encodedLen).length +
          (utf8Bytes text).length })) := by
  have hread : VarInt.read (cursor.data.drop cursor.position) =
      some (.ok (encodedLen, utf8Bytes text ++ suffix)) := by
    rw [hdata, hposition, drop_left, VarInt.read_write]
  have hsuffix : utf8Bytes text ++ suffix <:+ cursor.data := by
    rw [hdata, ← append_assoc]
    exact suffix_append _ _
  have hnonneg : ¬ encodedLen < 0 := by
    rw [Int32.lt_iff_toInt_lt, hlen]
    exact Int.not_lt.mpr (Int.natCast_nonneg _)
  have hnat : encodedLen.toInt.toNat = (utf8Bytes text).length := by
    rw [hlen, Int.toNat_natCast]
  have hbytes := length_utf8Bytes_le text
  have hposition : cursor.data.length - (utf8Bytes text ++ suffix).length =
      before.length + (VarInt.write encodedLen).length := by
    rw [hdata, length_append, length_append, ← Nat.add_assoc, Nat.add_sub_cancel]
  rw [readUtf_eq maxUtf16Units hread hsuffix, hnat, take_left, decoded_utf8Bytes_self, hposition,
    if_neg hnonneg, if_neg (Nat.not_le.mpr hmax), if_neg (by omega),
    if_neg (by rw [length_append]; omega), if_neg (Nat.not_lt.mpr htext)]

/-- A string of at most the given number of UTF-16 units is read back from after its length, with
the cursor left after it. Any input at all gives an error, or a text within the bound in which the
encoded characters stand as they are and the malformed parts are replaced. -/
theorem readUtf_text (cursor : Cursor) (maxUtf16Units : ℕ) :
    (∀ (before suffix : List UInt8) (text : List Char) (encodedLen : Int32),
      maxUtf16Units * 3 < 2 ^ 64 → utf16Units text ≤ maxUtf16Units →
      encodedLen.toInt = (utf8Bytes text).length →
      cursor.data = before ++ (VarInt.write encodedLen ++ (utf8Bytes text ++ suffix)) →
      cursor.position = before.length →
      readUtf cursor maxUtf16Units = some (.ok (text,
        { cursor with
          position := before.length + (VarInt.write encodedLen).length +
            (utf8Bytes text).length }))) ∧
    ((∃ error, readUtf cursor maxUtf16Units = some (.error error)) ∨
      ∃ encodedLen rest text,
        VarInt.read (cursor.data.drop cursor.position) = some (.ok (encodedLen, rest)) ∧
        0 ≤ encodedLen.toInt ∧ encodedLen.toInt ≤ rest.length ∧
        readUtf cursor maxUtf16Units = some (.ok (text,
          { cursor with
            position := cursor.data.length - rest.length + encodedLen.toInt.toNat })) ∧
        Replaced (rest.take encodedLen.toInt.toNat) text ∧ utf16Units text ≤ maxUtf16Units) := by
  refine ⟨fun _ _ _ _ => readUtf_write, ?_⟩
  obtain ⟨error, hread⟩ | ⟨encodedLen, rest, hread, hsuffix⟩ :=
    VarInt.read_total (cursor.data.drop cursor.position)
  · refine .inl ⟨.io error, ?_⟩
    rw [readUtf, hread]
    rfl
  · have heq := readUtf_eq maxUtf16Units hread (hsuffix.trans (drop_suffix _ _))
    split_ifs at heq with hneg hlarge hlong htruncated hunits
    · exact .inl ⟨_, heq⟩
    · exact .inl ⟨_, heq⟩
    · exact .inl ⟨_, heq⟩
    · exact .inl ⟨_, heq⟩
    · exact .inl ⟨_, heq⟩
    · rw [Int32.lt_iff_toInt_lt, Int32.toInt_zero] at hneg
      exact .inr ⟨encodedLen, rest, _, hread, by omega, by omega, heq, replaced_decoded _,
        Nat.le_of_not_lt hunits⟩

/-- The string `é` and a byte after it. -/
def accent : Cursor := ⟨[2, 0xC3, 0xA9, 0xFF], 0, by decide⟩

theorem readUtf_text_accent :
    readUtf accent 1 = some (.ok (['é'], { accent with position := 3 })) :=
  (readUtf_text accent 1).1 [] [0xFF] ['é'] 2 (by decide) (by decide) (by decide) (by decide)
    (by decide)

def emptyText : Cursor := ⟨VarInt.write 0 ++ utf8Bytes [], 0, by decide⟩

/-- A bound whose number of bytes is not a `usize` refuses even the empty string. -/
theorem readUtf_tooLarge :
    utf16Units [] ≤ 2 ^ 64 - 1 ∧
      readUtf emptyText (2 ^ 64 - 1) =
        some (.error (.io (.invalidInput "maximum UTF-16 length is too large"))) := by
  have hread : VarInt.read (emptyText.data.drop emptyText.position) = some (.ok (0, [])) :=
    VarInt.read_write 0 []
  refine ⟨by decide, ?_⟩
  rw [readUtf_eq _ hread nil_suffix, if_neg (by decide), if_pos (by decide)]

end Steel.PrefixedRead

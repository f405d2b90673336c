import Mathlib.Data.List.Infix
import Steel.Utils.PrefixedRead

/-!
# Lossy decoding

What the decoder does at a byte depends on which of the next three are as they should be, a byte
beyond the end being like one that is not. So a malformed part ends before the next byte that is not
a continuation, and encoded characters are decoded wherever they stand.
-/

namespace Steel.PrefixedRead

open List

/-! ### Bytes as numbers -/

theorem isUtf8Continuation_iff (byte : UInt8) :
    isUtf8Continuation byte = true ↔ 128 ≤ byte.toNat ∧ byte.toNat < 192 := by
  have hall : ∀ n : Fin 256, (n : ℕ) &&& 192 = 128 ↔ 128 ≤ (n : ℕ) ∧ (n : ℕ) < 192 := by
    decide +kernel
  rw [isUtf8Continuation, beq_iff_eq, ← UInt8.toNat_inj, UInt8.toNat_and]
  exact hall ⟨byte.toNat, byte.toNat_lt⟩

theorem and_e0_iff (byte : UInt8) :
    byte &&& 0xE0 = 0xA0 ↔ 160 ≤ byte.toNat ∧ byte.toNat < 192 := by
  have hall : ∀ n : Fin 256, (n : ℕ) &&& 224 = 160 ↔ 160 ≤ (n : ℕ) ∧ (n : ℕ) < 192 := by
    decide +kernel
  rw [← UInt8.toNat_inj, UInt8.toNat_and]
  exact hall ⟨byte.toNat, byte.toNat_lt⟩

theorem toNat_and_low (byte : UInt8) :
    (byte &&& 0x1F).toNat = byte.toNat % 32 ∧ (byte &&& 0x0F).toNat = byte.toNat % 16 ∧
      (byte &&& 0x07).toNat = byte.toNat % 8 ∧ (byte &&& 0x3F).toNat = byte.toNat % 64 := by
  simp only [UInt8.toNat_and]
  exact ⟨Nat.and_two_pow_sub_one_eq_mod _ 5, Nat.and_two_pow_sub_one_eq_mod _ 4,
    Nat.and_two_pow_sub_one_eq_mod _ 3, Nat.and_two_pow_sub_one_eq_mod _ 6⟩

theorem shiftLeft_or {high low : ℕ} (shift : ℕ) (hlow : low < 2 ^ shift) :
    (high <<< shift) ||| low = high * 2 ^ shift + low := by
  rw [← Nat.shiftLeft_add_eq_or_of_lt hlow, Nat.shiftLeft_eq]

def codeTwo (first second : ℕ) : ℕ := first % 32 * 64 + second % 64

def codeThree (first second third : ℕ) : ℕ :=
  first % 16 * 4096 + second % 64 * 64 + third % 64

def codeFour (first second third fourth : ℕ) : ℕ :=
  first % 8 * 262144 + second % 64 * 4096 + third % 64 * 64 + fourth % 64

theorem codeTwo_eq (first second : UInt8) :
    ((first &&& 0x1F).toNat <<< 6) ||| (second &&& 0x3F).toNat =
      codeTwo first.toNat second.toNat := by
  have hsecond : second.toNat % 64 < 64 := Nat.mod_lt _ (by decide)
  rw [(toNat_and_low first).1, (toNat_and_low second).2.2.2, shiftLeft_or 6 hsecond]
  rfl

theorem codeThree_eq (first second third : UInt8) :
    ((first &&& 0x0F).toNat <<< 12) ||| ((second &&& 0x3F).toNat <<< 6) |||
        (third &&& 0x3F).toNat =
      codeThree first.toNat second.toNat third.toNat := by
  have hsecond : second.toNat % 64 < 64 := Nat.mod_lt _ (by decide)
  have hthird : third.toNat % 64 < 64 := Nat.mod_lt _ (by decide)
  rw [(toNat_and_low first).2.1, (toNat_and_low second).2.2.2, (toNat_and_low third).2.2.2,
    Nat.or_assoc, shiftLeft_or 6 hthird, shiftLeft_or 12 (by omega), codeThree]
  omega

theorem codeFour_eq (first second third fourth : UInt8) :
    ((first &&& 0x07).toNat <<< 18) ||| ((second &&& 0x3F).toNat <<< 12) |||
        ((third &&& 0x3F).toNat <<< 6) ||| (fourth &&& 0x3F).toNat =
      codeFour first.toNat second.toNat third.toNat fourth.toNat := by
  have hsecond : second.toNat % 64 < 64 := Nat.mod_lt _ (by decide)
  have hthird : third.toNat % 64 < 64 := Nat.mod_lt _ (by decide)
  have hfourth : fourth.toNat % 64 < 64 := Nat.mod_lt _ (by decide)
  rw [(toNat_and_low first).2.2.1, (toNat_and_low second).2.2.2, (toNat_and_low third).2.2.2,
    (toNat_and_low fourth).2.2.2, Nat.or_assoc, Nat.or_assoc, shiftLeft_or 6 hfourth,
    shiftLeft_or 12 (by omega), shiftLeft_or 18 (by omega), codeFour]
  omega

/-! ### What a step depends on -/

def continues : Option UInt8 → Bool
  | some byte => isUtf8Continuation byte
  | none => false

/-- A second byte is there that fits a first one of three or four. -/
def fitsThree (first : UInt8) : Option UInt8 → Bool
  | some second => !malformedThreeBytePrefix first second
  | none => false

def fitsFour (first : UInt8) : Option UInt8 → Bool
  | some second => !malformedFourByteSecond first second
  | none => false

@[simp] theorem continues_none : continues none = false := rfl

@[simp] theorem fitsThree_none (first : UInt8) : fitsThree first none = false := rfl

@[simp] theorem fitsFour_none (first : UInt8) : fitsFour first none = false := rfl

def byteValue (byte : Option UInt8) : ℕ := (byte.map UInt8.toNat).getD 0

def classify (first : UInt8) (second third fourth : Option UInt8) : Char × ℕ :=
  if first.toNat < 128 then (Char.ofNat first.toNat, 1)
  else if 194 ≤ first.toNat ∧ first.toNat ≤ 223 then
    if continues second then (charFromU32 (codeTwo first.toNat (byteValue second)), 2)
    else (replacementCharacter, 1)
  else if 224 ≤ first.toNat ∧ first.toNat ≤ 239 then
    if !fitsThree first second then (replacementCharacter, 1)
    else if !continues third then (replacementCharacter, 2)
    else (charFromU32 (codeThree first.toNat (byteValue second) (byteValue third)), 3)
  else if 240 ≤ first.toNat ∧ first.toNat ≤ 247 then
    if !fitsFour first second then (replacementCharacter, 1)
    else if !continues third then (replacementCharacter, 2)
    else if !continues fourth then (replacementCharacter, 3)
    else
      (charFromU32
        (codeFour first.toNat (byteValue second) (byteValue third) (byteValue fourth)), 4)
  else (replacementCharacter, 1)

theorem decodeStep_eq (first : UInt8) (bytes : List UInt8) :
    decodeStep (first :: bytes) = some (classify first bytes[0]? bytes[1]? bytes[2]?) := by
  have hranges : (first < 0x80 ↔ first.toNat < 128) ∧
      (0xC2 ≤ first ∧ first ≤ 0xDF ↔ 194 ≤ first.toNat ∧ first.toNat ≤ 223) ∧
      (0xE0 ≤ first ∧ first ≤ 0xEF ↔ 224 ≤ first.toNat ∧ first.toNat ≤ 239) ∧
      (0xF0 ≤ first ∧ first ≤ 0xF7 ↔ 240 ≤ first.toNat ∧ first.toNat ≤ 247) :=
    ⟨Iff.rfl, Iff.rfl, Iff.rfl, Iff.rfl⟩
  obtain ⟨hascii, htwo, hthree, hfour⟩ := hranges
  rw [decodeStep, classify]
  simp only [getElem?_cons_zero, Option.bind_eq_bind, Option.bind_some, getElem?_cons_succ, hascii,
    htwo, hthree, hfour, codeTwo_eq, codeThree_eq, codeFour_eq, length_cons]
  by_cases hfirst : first.toNat < 128
  · rw [if_pos hfirst, if_pos hfirst]
  rw [if_neg hfirst, if_neg hfirst]
  by_cases hfirst : 194 ≤ first.toNat ∧ first.toNat ≤ 223
  · rw [if_pos hfirst, if_pos hfirst]
    rcases bytes with - | ⟨second, bytes⟩
    · rfl
    · cases hsecond : isUtf8Continuation second <;> simp [continues, byteValue, hsecond]
  rw [if_neg hfirst, if_neg hfirst]
  by_cases hfirst : 224 ≤ first.toNat ∧ first.toNat ≤ 239
  · rw [if_pos hfirst, if_pos hfirst]
    rcases bytes with - | ⟨second, - | ⟨third, bytes⟩⟩
    · rfl
    · cases hsecond : malformedThreeBytePrefix first second <;>
        simp [continues, fitsThree, hsecond]
    · have hlength : ¬ bytes.length + 1 + 1 + 1 < 3 := by omega
      cases hsecond : malformedThreeBytePrefix first second <;>
        cases hthird : isUtf8Continuation third <;>
        simp [continues, byteValue, fitsThree, malformedThreeByteSequence, malformedThreeByteLength,
          hlength, hsecond, hthird]
  rw [if_neg hfirst, if_neg hfirst]
  by_cases hfirst : 240 ≤ first.toNat ∧ first.toNat ≤ 247
  · rw [if_pos hfirst, if_pos hfirst]
    rcases bytes with - | ⟨second, - | ⟨third, - | ⟨fourth, bytes⟩⟩⟩
    · rfl
    · cases hsecond : malformedFourByteSecond first second <;>
        simp [continues, fitsFour, malformedFourBytePrefixLength, hsecond]
    · cases hsecond : malformedFourByteSecond first second <;>
        cases hthird : isUtf8Continuation third <;>
        simp [continues, fitsFour, malformedFourBytePrefixLength, hsecond, hthird]
    · have hlength : ¬ bytes.length + 1 + 1 + 1 + 1 < 4 := by omega
      cases hsecond : malformedFourByteSecond first second <;>
        cases hthird : isUtf8Continuation third <;> cases hfourth : isUtf8Continuation fourth <;>
        simp [continues, byteValue, fitsFour, malformedFourByteSequence, malformedFourByteLength,
          hlength, hsecond, hthird, hfourth]
  rw [if_neg hfirst, if_neg hfirst]

/-! ### Steps at a boundary -/

variable {first : UInt8} {second third fourth : Option UInt8}

theorem continues_of_fitsThree (h : fitsThree first second = true) : continues second = true := by
  cases second with
  | none => cases h
  | some second =>
    simp only [fitsThree, malformedThreeBytePrefix, Bool.not_or, Bool.not_not,
      Bool.and_eq_true] at h
    exact h.2

theorem continues_of_fitsFour (h : fitsFour first second = true) : continues second = true := by
  cases second with
  | none => cases h
  | some second =>
    simp only [fitsFour, malformedFourByteSecond, Bool.not_or, Bool.not_not,
      Bool.and_eq_true] at h
    exact h.2

/-- The first byte that is not a continuation ends a step, and so does the end of the input. -/
theorem classify_of_second (h : continues second = false) :
    classify first second third fourth = classify first none none none := by
  have hthree : fitsThree first second = false :=
    Bool.eq_false_iff.mpr fun hfits => by rw [continues_of_fitsThree hfits] at h; cases h
  have hfour : fitsFour first second = false :=
    Bool.eq_false_iff.mpr fun hfits => by rw [continues_of_fitsFour hfits] at h; cases h
  simp only [classify, h, hthree, hfour, continues_none, fitsThree_none, fitsFour_none,
    Bool.false_eq_true, if_false, Bool.not_false, if_true]

theorem classify_of_third (h : continues third = false) :
    classify first second third fourth = classify first second none none := by
  simp only [classify, h, continues_none, Bool.not_false, if_true]

theorem classify_of_fourth (h : continues fourth = false) :
    classify first second third fourth = classify first second third none := by
  simp only [classify, h, continues_none, Bool.not_false, if_true]

variable {bytes next : List UInt8} {length n : ℕ} {character : Char}

/-- A step does not see beyond the next byte that is not a continuation. -/
theorem decodeStep_append (hbytes : bytes ≠ []) (hnext : continues next[0]? = false) :
    decodeStep (bytes ++ next) = decodeStep bytes := by
  rcases bytes with - | ⟨first, - | ⟨second, - | ⟨third, - | ⟨fourth, bytes⟩⟩⟩⟩
  · exact absurd rfl hbytes
  · rw [singleton_append, decodeStep_eq, decodeStep_eq, classify_of_second hnext]
    rfl
  · rw [cons_append, singleton_append, decodeStep_eq, decodeStep_eq, getElem?_cons_succ,
      classify_of_third hnext]
    rfl
  · rw [cons_append, cons_append, singleton_append, decodeStep_eq, decodeStep_eq,
      getElem?_cons_succ, getElem?_cons_succ, getElem?_cons_succ, classify_of_fourth hnext]
    rfl
  · rw [cons_append, cons_append, cons_append, cons_append, decodeStep_eq, decodeStep_eq]
    rfl

/-! ### The forms of a step -/

theorem fitsThree_iff {second : UInt8} :
    fitsThree first (some second) = true ↔
      (first.toNat = 224 → 160 ≤ second.toNat) ∧ 128 ≤ second.toNat ∧ second.toNat < 192 := by
  have hfirst : first = 0xE0 ↔ first.toNat = 224 := UInt8.toNat_inj.symm
  simp only [fitsThree, malformedThreeBytePrefix, Bool.not_or, Bool.not_and, Bool.not_not,
    Bool.and_eq_true, Bool.or_eq_true, Bool.not_eq_true', beq_eq_false_iff_ne, bne_eq_false_iff_eq,
    ne_eq, hfirst, and_e0_iff, isUtf8Continuation_iff]
  omega

theorem fitsFour_iff {second : UInt8} :
    fitsFour first (some second) = true ↔
      (first.toNat = 240 → 144 ≤ second.toNat) ∧ (first.toNat = 244 → second.toNat ≤ 143) ∧
        first.toNat ≤ 244 ∧ 128 ≤ second.toNat ∧ second.toNat < 192 := by
  have hlow : first = 0xF0 ↔ first.toNat = 240 := UInt8.toNat_inj.symm
  have hhigh : first = 0xF4 ↔ first.toNat = 244 := UInt8.toNat_inj.symm
  have hbytes : (second < 0x90 ↔ second.toNat < 144) ∧ (second > 0xBF ↔ 191 < second.toNat) ∧
      (second < 0x80 ↔ second.toNat < 128) ∧ (second > 0x8F ↔ 143 < second.toNat) ∧
      (first > 0xF4 ↔ 244 < first.toNat) := ⟨Iff.rfl, Iff.rfl, Iff.rfl, Iff.rfl, Iff.rfl⟩
  obtain ⟨hninety, hbf, heighty, heightyF, hfirst⟩ := hbytes
  simp only [fitsFour, malformedFourByteSecond, Bool.not_or, Bool.not_and, Bool.not_not,
    Bool.and_eq_true, Bool.or_eq_true, Bool.not_eq_true', beq_eq_false_iff_ne,
    decide_eq_false_iff_not, ne_eq, hlow, hhigh, hninety, hbf, heighty, heightyF, hfirst,
    isUtf8Continuation_iff]
  omega

theorem continues_iff {byte : UInt8} :
    continues (some byte) = true ↔ 128 ≤ byte.toNat ∧ byte.toNat < 192 :=
  isUtf8Continuation_iff byte

section Forms

variable {second third fourth : UInt8} {next next' : Option UInt8}

theorem classify_two (hfirst : 194 ≤ first.toNat ∧ first.toNat ≤ 223)
    (hsecond : continues (some second) = true) :
    classify first (some second) next next' =
      (charFromU32 (codeTwo first.toNat second.toNat), 2) := by
  rw [classify, if_neg (by omega), if_pos hfirst, if_pos hsecond]
  rfl

theorem classify_three (hfirst : 224 ≤ first.toNat ∧ first.toNat ≤ 239)
    (hsecond : fitsThree first (some second) = true) (hthird : continues (some third) = true) :
    classify first (some second) (some third) next =
      (charFromU32 (codeThree first.toNat second.toNat third.toNat), 3) := by
  rw [classify, if_neg (by omega), if_neg (by omega), if_pos hfirst, hsecond, hthird]
  rfl

theorem classify_four (hfirst : 240 ≤ first.toNat ∧ first.toNat ≤ 247)
    (hsecond : fitsFour first (some second) = true) (hthird : continues (some third) = true)
    (hfourth : continues (some fourth) = true) :
    classify first (some second) (some third) (some fourth) =
      (charFromU32 (codeFour first.toNat second.toNat third.toNat fourth.toNat), 4) := by
  rw [classify, if_neg (by omega), if_neg (by omega), if_neg (by omega), if_pos hfirst, hsecond,
    hthird, hfourth]
  rfl

end Forms

theorem exists_cons_of_continues (h : continues bytes[0]? = true) :
    ∃ byte rest, bytes = byte :: rest := by
  cases bytes with
  | nil => cases h
  | cons byte rest => exact ⟨byte, rest, rfl⟩

/-- A step finds one of the four forms of a character, or replaces what it passes. -/
inductive IsStep : List UInt8 → Char → ℕ → Prop
  | one (first : UInt8) (rest : List UInt8) (hfirst : first.toNat < 128) :
      IsStep (first :: rest) (Char.ofNat first.toNat) 1
  | two (first second : UInt8) (rest : List UInt8)
      (hfirst : 194 ≤ first.toNat ∧ first.toNat ≤ 223) (hsecond : continues (some second) = true) :
      IsStep (first :: second :: rest) (charFromU32 (codeTwo first.toNat second.toNat)) 2
  | three (first second third : UInt8) (rest : List UInt8)
      (hfirst : 224 ≤ first.toNat ∧ first.toNat ≤ 239)
      (hsecond : fitsThree first (some second) = true) (hthird : continues (some third) = true) :
      IsStep (first :: second :: third :: rest)
        (charFromU32 (codeThree first.toNat second.toNat third.toNat)) 3
  | four (first second third fourth : UInt8) (rest : List UInt8)
      (hfirst : 240 ≤ first.toNat ∧ first.toNat ≤ 247)
      (hsecond : fitsFour first (some second) = true) (hthird : continues (some third) = true)
      (hfourth : continues (some fourth) = true) :
      IsStep (first :: second :: third :: fourth :: rest)
        (charFromU32 (codeFour first.toNat second.toNat third.toNat fourth.toNat)) 4
  | malformed (bytes : List UInt8) (length : ℕ) (hpos : 1 ≤ length) (hle : length ≤ bytes.length) :
      IsStep bytes replacementCharacter length

/-- The bytes are classified as a character or as a malformed part. -/
theorem isStep_classify (first : UInt8) (bytes : List UInt8) :
    IsStep (first :: bytes) (classify first bytes[0]? bytes[1]? bytes[2]?).1
      (classify first bytes[0]? bytes[1]? bytes[2]?).2 := by
  have hone : IsStep (first :: bytes) replacementCharacter 1 :=
    .malformed _ 1 le_rfl (Nat.succ_pos _)
  by_cases hascii : first.toNat < 128
  · rw [classify, if_pos hascii]
    exact .one first bytes hascii
  by_cases htwo : 194 ≤ first.toNat ∧ first.toNat ≤ 223
  · by_cases hsecond : continues bytes[0]? = true
    · obtain ⟨second, rest, rfl⟩ := exists_cons_of_continues hsecond
      rw [getElem?_cons_zero, classify_two htwo hsecond]
      exact .two first second rest htwo hsecond
    · rw [classify_of_second (Bool.eq_false_iff.mpr hsecond), classify, if_neg hascii, if_pos htwo]
      exact hone
  by_cases hthree : 224 ≤ first.toNat ∧ first.toNat ≤ 239
  · by_cases hsecond : fitsThree first bytes[0]? = true
    · obtain ⟨second, rest, rfl⟩ :=
        exists_cons_of_continues (continues_of_fitsThree hsecond)
      by_cases hthird : continues rest[0]? = true
      · obtain ⟨third, rest, rfl⟩ := exists_cons_of_continues hthird
        rw [getElem?_cons_zero, getElem?_cons_succ, getElem?_cons_zero,
          classify_three hthree hsecond hthird]
        exact .three first second third rest hthree hsecond hthird
      · rw [getElem?_cons_succ, classify_of_third (Bool.eq_false_iff.mpr hthird), classify,
          if_neg hascii, if_neg htwo, if_pos hthree, hsecond]
        exact .malformed _ 2 (by decide) (Nat.le_add_left 2 _)
    · rw [classify, if_neg hascii, if_neg htwo, if_pos hthree, Bool.eq_false_iff.mpr hsecond]
      exact hone
  by_cases hfour : 240 ≤ first.toNat ∧ first.toNat ≤ 247
  · by_cases hsecond : fitsFour first bytes[0]? = true
    · obtain ⟨second, rest, rfl⟩ :=
        exists_cons_of_continues (continues_of_fitsFour hsecond)
      by_cases hthird : continues rest[0]? = true
      · obtain ⟨third, rest, rfl⟩ := exists_cons_of_continues hthird
        by_cases hfourth : continues rest[0]? = true
        · obtain ⟨fourth, rest, rfl⟩ := exists_cons_of_continues hfourth
          rw [getElem?_cons_zero, getElem?_cons_succ, getElem?_cons_zero, getElem?_cons_succ,
            getElem?_cons_succ, getElem?_cons_zero, classify_four hfour hsecond hthird hfourth]
          exact .four first second third fourth rest hfour hsecond hthird hfourth
        · rw [getElem?_cons_zero, getElem?_cons_succ, getElem?_cons_zero, getElem?_cons_succ,
            getElem?_cons_succ, classify_of_fourth (Bool.eq_false_iff.mpr hfourth), classify,
            if_neg hascii, if_neg htwo, if_neg hthree, if_pos hfour]
          rw [getElem?_cons_zero] at hsecond hthird
          rw [hsecond, hthird]
          exact .malformed _ 3 (by decide) (Nat.le_add_left 3 _)
      · rw [getElem?_cons_succ, classify_of_third (Bool.eq_false_iff.mpr hthird), classify,
          if_neg hascii, if_neg htwo, if_neg hthree, if_pos hfour, hsecond]
        exact .malformed _ 2 (by decide) (Nat.le_add_left 2 _)
    · rw [classify, if_neg hascii, if_neg htwo, if_neg hthree, if_pos hfour,
        Bool.eq_false_iff.mpr hsecond]
      exact hone
  · rw [classify, if_neg hascii, if_neg htwo, if_neg hthree, if_neg hfour]
    exact hone

/-- A step passes at least one byte, and no byte beyond the end. -/
theorem IsStep.length_bounds (h : IsStep bytes character length) :
    1 ≤ length ∧ length ≤ bytes.length := by
  cases h with
  | one first rest => exact ⟨le_rfl, Nat.le_add_left 1 _⟩
  | two first second rest => exact ⟨by decide, Nat.le_add_left 2 _⟩
  | three first second third rest => exact ⟨by decide, Nat.le_add_left 3 _⟩
  | four first second third fourth rest => exact ⟨by decide, Nat.le_add_left 4 _⟩
  | malformed bytes length hpos hle => exact ⟨hpos, hle⟩

theorem classify_length (first : UInt8) (bytes : List UInt8) :
    1 ≤ (classify first bytes[0]? bytes[1]? bytes[2]?).2 ∧
      (classify first bytes[0]? bytes[1]? bytes[2]?).2 ≤ (first :: bytes).length :=
  (isStep_classify first bytes).length_bounds

/-! ### Encoded characters -/

/-- A character is encoded by the range of its code point. -/
theorem utf8EncodeChar_cases (character : Char) :
    (character.toNat < 128 ∧
      String.utf8EncodeChar character = [UInt8.ofNat character.toNat]) ∨
    (128 ≤ character.toNat ∧ character.toNat < 2048 ∧
      String.utf8EncodeChar character =
        [UInt8.ofNat (character.toNat / 64 % 32 + 192),
          UInt8.ofNat (character.toNat % 64 + 128)]) ∨
    (2048 ≤ character.toNat ∧ character.toNat < 65536 ∧
      (character.toNat < 55296 ∨ 57343 < character.toNat) ∧
      String.utf8EncodeChar character =
        [UInt8.ofNat (character.toNat / 4096 % 16 + 224),
          UInt8.ofNat (character.toNat / 64 % 64 + 128),
          UInt8.ofNat (character.toNat % 64 + 128)]) ∨
    (65536 ≤ character.toNat ∧ character.toNat < 1114112 ∧
      String.utf8EncodeChar character =
        [UInt8.ofNat (character.toNat / 262144 % 8 + 240),
          UInt8.ofNat (character.toNat / 4096 % 64 + 128),
          UInt8.ofNat (character.toNat / 64 % 64 + 128),
          UInt8.ofNat (character.toNat % 64 + 128)]) := by
  have hvalid : character.toNat < 55296 ∨ 57343 < character.toNat ∧ character.toNat < 1114112 :=
    character.valid
  unfold String.utf8EncodeChar
  have hval : character.val.toNat = character.toNat := rfl
  simp only [hval]
  split_ifs with hone htwo hthree
  · exact .inl ⟨by omega, rfl⟩
  · exact .inr (.inl ⟨by omega, by omega, rfl⟩)
  · exact .inr (.inr (.inl ⟨by omega, by omega, by omega, rfl⟩))
  · exact .inr (.inr (.inr ⟨by omega, by omega, rfl⟩))

theorem charFromU32_toNat (character : Char) : charFromU32 character.toNat = character := by
  have hvalid : character.toNat.isValidChar := character.valid
  rw [charFromU32, if_pos hvalid]
  exact Char.ofNat_toNat character

theorem toNat_byte (h : n < 256) : (UInt8.ofNat n).toNat = n := by
  rw [UInt8.toNat_ofNat']
  exact Nat.mod_eq_of_lt h

/-- An encoded character is decoded, whatever comes after it. -/
theorem decodeStep_utf8EncodeChar (character : Char) (bytes : List UInt8) :
    decodeStep (String.utf8EncodeChar character ++ bytes) =
      some (character, (String.utf8EncodeChar character).length) := by
  obtain ⟨hone, hencode⟩ | ⟨hlow, htwo, hencode⟩ | ⟨hlow, hthree, hscalar, hencode⟩ |
      ⟨hlow, hfour, hencode⟩ := utf8EncodeChar_cases character
  · have hfirst := toNat_byte (n := character.toNat) (by omega)
    rw [hencode, singleton_append, decodeStep_eq, classify, hfirst, if_pos hone, Char.ofNat_toNat]
    rfl
  · have hfirst := toNat_byte (n := character.toNat / 64 % 32 + 192) (by omega)
    have hsecond := toNat_byte (n := character.toNat % 64 + 128) (by omega)
    have hcode : codeTwo (character.toNat / 64 % 32 + 192) (character.toNat % 64 + 128) =
        character.toNat := by
      rw [codeTwo]
      omega
    rw [hencode, cons_append, singleton_append, decodeStep_eq, getElem?_cons_zero,
      classify_two (by omega) (continues_iff.mpr (by omega)), hfirst, hsecond, hcode,
      charFromU32_toNat]
    rfl
  · have hfirst := toNat_byte (n := character.toNat / 4096 % 16 + 224) (by omega)
    have hsecond := toNat_byte (n := character.toNat / 64 % 64 + 128) (by omega)
    have hthird := toNat_byte (n := character.toNat % 64 + 128) (by omega)
    have hcode : codeThree (character.toNat / 4096 % 16 + 224) (character.toNat / 64 % 64 + 128)
        (character.toNat % 64 + 128) = character.toNat := by
      rw [codeThree]
      omega
    rw [hencode, cons_append, cons_append, singleton_append, decodeStep_eq, getElem?_cons_zero,
      getElem?_cons_succ, getElem?_cons_zero,
      classify_three (by omega) (fitsThree_iff.mpr (by omega)) (continues_iff.mpr (by omega)),
      hfirst, hsecond, hthird, hcode, charFromU32_toNat]
    rfl
  · have hfirst := toNat_byte (n := character.toNat / 262144 % 8 + 240) (by omega)
    have hsecond := toNat_byte (n := character.toNat / 4096 % 64 + 128) (by omega)
    have hthird := toNat_byte (n := character.toNat / 64 % 64 + 128) (by omega)
    have hfourth := toNat_byte (n := character.toNat % 64 + 128) (by omega)
    have hcode : codeFour (character.toNat / 262144 % 8 + 240)
        (character.toNat / 4096 % 64 + 128) (character.toNat / 64 % 64 + 128)
        (character.toNat % 64 + 128) = character.toNat := by
      rw [codeFour]
      omega
    rw [hencode, cons_append, cons_append, cons_append, singleton_append, decodeStep_eq,
      getElem?_cons_zero, getElem?_cons_succ, getElem?_cons_zero, getElem?_cons_succ,
      getElem?_cons_succ, getElem?_cons_zero,
      classify_four (by omega) (fitsFour_iff.mpr (by omega)) (continues_iff.mpr (by omega))
        (continues_iff.mpr (by omega)), hfirst, hsecond, hthird, hfourth, hcode, charFromU32_toNat]
    rfl

theorem byte_eq (byte : UInt8) (h : n = byte.toNat) : UInt8.ofNat n = byte := by
  rw [h, UInt8.ofNat_toNat]

theorem charFromU32_cases (codePoint : ℕ) :
    charFromU32 codePoint = replacementCharacter ∨ (charFromU32 codePoint).toNat = codePoint := by
  by_cases hvalid : codePoint.isValidChar
  · right
    rw [charFromU32, if_pos hvalid, Char.ofNat, dif_pos hvalid]
    rfl
  · left
    rw [charFromU32, if_neg hvalid]

/-- A step that finds a character passes exactly its encoding. -/
theorem IsStep.encoded (h : IsStep bytes character length) :
    character = replacementCharacter ∨ String.utf8EncodeChar character <+: bytes := by
  cases h with
  | one first rest hfirst =>
    right
    have hcode : (Char.ofNat first.toNat).toNat = first.toNat := by
      rw [Char.ofNat, dif_pos (Or.inl (by omega))]
      rfl
    have hencode : String.utf8EncodeChar (Char.ofNat first.toNat) = [first] := by
      obtain ⟨-, hencode⟩ | hcase | hcase | hcase := utf8EncodeChar_cases (Char.ofNat first.toNat)
      · rw [hencode, hcode, UInt8.ofNat_toNat]
      all_goals omega
    rw [hencode]
    exact ⟨rest, rfl⟩
  | two first second rest hfirst hsecond =>
    rw [continues_iff] at hsecond
    refine (charFromU32_cases _).imp_right fun hcode => ?_
    generalize charFromU32 _ = character at hcode ⊢
    rw [codeTwo] at hcode
    obtain hcase | ⟨-, -, hencode⟩ | hcase | hcase := utf8EncodeChar_cases character
    · omega
    · rw [hencode, byte_eq first (by omega), byte_eq second (by omega)]
      exact ⟨rest, rfl⟩
    all_goals omega
  | three first second third rest hfirst hsecond hthird =>
    rw [continues_iff] at hthird
    rw [fitsThree_iff] at hsecond
    refine (charFromU32_cases _).imp_right fun hcode => ?_
    generalize charFromU32 _ = character at hcode ⊢
    rw [codeThree] at hcode
    obtain hcase | hcase | ⟨-, -, -, hencode⟩ | hcase := utf8EncodeChar_cases character
    · omega
    · omega
    · rw [hencode, byte_eq first (by omega), byte_eq second (by omega), byte_eq third (by omega)]
      exact ⟨rest, rfl⟩
    · omega
  | four first second third fourth rest hfirst hsecond hthird hfourth =>
    rw [continues_iff] at hthird hfourth
    rw [fitsFour_iff] at hsecond
    refine (charFromU32_cases _).imp_right fun hcode => ?_
    generalize charFromU32 _ = character at hcode ⊢
    rw [codeFour] at hcode
    obtain hcase | hcase | hcase | ⟨-, -, hencode⟩ := utf8EncodeChar_cases character
    · omega
    · omega
    · omega
    · rw [hencode, byte_eq first (by omega), byte_eq second (by omega), byte_eq third (by omega),
        byte_eq fourth (by omega)]
      exact ⟨rest, rfl⟩
  | malformed bytes length hpos hle => exact .inl rfl

/-! ### Decoding to the end -/

def decoded : List UInt8 → List Char
  | [] => []
  | first :: bytes =>
    (classify first bytes[0]? bytes[1]? bytes[2]?).1 ::
      decoded ((first :: bytes).drop (classify first bytes[0]? bytes[1]? bytes[2]?).2)
termination_by bytes => bytes.length
decreasing_by
  have hlength := (classify_length first bytes).1
  simp only [length_drop, length_cons]
  omega

theorem decoded_cons (first : UInt8) (bytes : List UInt8) :
    decoded (first :: bytes) =
      (classify first bytes[0]? bytes[1]? bytes[2]?).1 ::
        decoded ((first :: bytes).drop (classify first bytes[0]? bytes[1]? bytes[2]?).2) := by
  rw [decoded]

/-- The loop ends, for it has as many rounds as there are bytes. -/
theorem decodeLoop_eq {rounds : ℕ} (h : bytes.length ≤ rounds) :
    decodeLoop rounds bytes = some (decoded bytes) := by
  induction rounds generalizing bytes with
  | zero =>
    rw [List.length_eq_zero_iff.mp (Nat.le_zero.mp h), decodeLoop, decoded]
  | succ rounds ih =>
    cases bytes with
    | nil => rw [decodeLoop, decoded]
    | cons first bytes =>
      have hstep := (classify_length first bytes).1
      have hrest : ((first :: bytes).drop
          (classify first bytes[0]? bytes[1]? bytes[2]?).2).length ≤ rounds := by
        rw [length_drop]
        omega
      rw [decodeLoop, decodeStep_eq, decoded_cons]
      simp only [Option.bind_eq_bind, Option.bind_some, ih hrest]

theorem decodeJavaUtf8Lossy_eq (bytes : List UInt8) :
    decodeJavaUtf8Lossy bytes = some (decoded bytes) :=
  decodeLoop_eq le_rfl

theorem decoded_of_step (hbytes : bytes ≠ [])
    (hstep : decodeStep bytes = some (character, length)) :
    decoded bytes = character :: decoded (bytes.drop length) := by
  cases bytes with
  | nil => exact absurd rfl hbytes
  | cons first bytes =>
    rw [decodeStep_eq, Option.some_inj] at hstep
    rw [decoded_cons, hstep]

theorem exists_decodeStep (hbytes : bytes ≠ []) :
    ∃ character length, decodeStep bytes = some (character, length) ∧ 1 ≤ length ∧
      length ≤ bytes.length := by
  cases bytes with
  | nil => exact absurd rfl hbytes
  | cons first bytes => exact ⟨_, _, decodeStep_eq first bytes, classify_length first bytes⟩

/-- Two parts are decoded on their own where the second does not start with a continuation. -/
theorem decoded_append (hnext : continues next[0]? = false) :
    decoded (bytes ++ next) = decoded bytes ++ decoded next := by
  induction hlength : bytes.length using Nat.strong_induction_on generalizing bytes with
  | _ count ih =>
    by_cases hbytes : bytes = []
    · rw [hbytes, nil_append, decoded, nil_append]
    · obtain ⟨character, length, hstep, hpos, hle⟩ := exists_decodeStep hbytes
      have hboth : decodeStep (bytes ++ next) = some (character, length) := by
        rw [decodeStep_append hbytes hnext, hstep]
      have hrest : (bytes.drop length).length < count := by
        rw [length_drop]
        omega
      rw [decoded_of_step (append_ne_nil_of_left_ne_nil hbytes next) hboth,
        decoded_of_step hbytes hstep, drop_append_of_le_length hle, ih _ hrest rfl, cons_append]

/-! ### Valid parts and malformed ones -/

def utf8Bytes (text : List Char) : List UInt8 := text.flatMap String.utf8EncodeChar

theorem continues_utf8EncodeChar (character : Char) (bytes : List UInt8) :
    continues (String.utf8EncodeChar character ++ bytes)[0]? = false := by
  refine Bool.eq_false_iff.mpr fun hcontinues => ?_
  obtain ⟨hone, hencode⟩ | ⟨hlow, htwo, hencode⟩ | ⟨hlow, hthree, hscalar, hencode⟩ |
      ⟨hlow, hfour, hencode⟩ := utf8EncodeChar_cases character
  all_goals
    rw [hencode, cons_append, getElem?_cons_zero, continues_iff, toNat_byte (by omega)]
      at hcontinues
    omega

theorem decoded_utf8EncodeChar (character : Char) (bytes : List UInt8) :
    decoded (String.utf8EncodeChar character ++ bytes) = character :: decoded bytes := by
  have hne : String.utf8EncodeChar character ++ bytes ≠ [] := fun h => by
    have hstep := decodeStep_utf8EncodeChar character bytes
    rw [h] at hstep
    cases hstep
  rw [decoded_of_step hne (decodeStep_utf8EncodeChar character bytes), drop_left]

theorem decoded_utf8Bytes (text : List Char) (bytes : List UInt8) :
    decoded (utf8Bytes text ++ bytes) = text ++ decoded bytes := by
  induction text with
  | nil => rfl
  | cons character text ih =>
    rw [utf8Bytes, flatMap_cons, append_assoc, decoded_utf8EncodeChar, ← utf8Bytes, ih, cons_append]

/-- A character is decoded wherever its encoding stands. -/
theorem decoded_around (character : Char) (before after : List UInt8) :
    decoded (before ++ (String.utf8EncodeChar character ++ after)) =
      decoded before ++ character :: decoded after := by
  rw [decoded_append (continues_utf8EncodeChar character after), decoded_utf8EncodeChar]

/-- Bytes that hold no encoded character become replacement characters. -/
theorem decoded_malformedPart (hbytes : ∀ character, ¬ String.utf8EncodeChar character <:+: bytes) :
    decoded bytes = replicate (decoded bytes).length replacementCharacter := by
  fun_induction decoded bytes with
  | case1 => rfl
  | case2 first bytes ih =>
    have hreplaced := (isStep_classify first bytes).encoded.resolve_right fun hvalid =>
      hbytes _ hvalid.isInfix
    have hrest := ih fun character hinside =>
      hbytes character (hinside.trans (drop_suffix _ _).isInfix)
    rw [length_cons, replicate_succ, hreplaced, ← hrest]

/-- The text is that of the bytes with their malformed parts replaced. A malformed part holds no
encoded character, and goes on to the next one or to the end. -/
inductive Replaced : List UInt8 → List Char → Prop
  | nil : Replaced [] []
  | valid (character : Char) {bytes : List UInt8} {text : List Char} (hrest : Replaced bytes text) :
      Replaced (String.utf8EncodeChar character ++ bytes) (character :: text)
  | malformed {part bytes : List UInt8} {text : List Char} (count : ℕ) (hpart : part ≠ [])
      (hcount : 0 < count) (hnone : ∀ character, ¬ String.utf8EncodeChar character <:+: part)
      (hnext : bytes = [] ∨ ∃ character, String.utf8EncodeChar character <+: bytes)
      (hrest : Replaced bytes text) :
      Replaced (part ++ bytes) (replicate count replacementCharacter ++ text)

theorem Replaced.malformed_decoded {part : List UInt8} {text : List Char}
    (hnone : ∀ character, ¬ String.utf8EncodeChar character <:+: part)
    (hnext : bytes = [] ∨ ∃ character, String.utf8EncodeChar character <+: bytes)
    (hrest : Replaced bytes text) : Replaced (part ++ bytes) (decoded part ++ text) := by
  by_cases hpart : part = []
  · rw [hpart, decoded]
    exact hrest
  · rw [decoded_malformedPart hnone]
    refine .malformed _ hpart ?_ hnone hnext hrest
    obtain ⟨character, length, hstep, -, -⟩ := exists_decodeStep hpart
    rw [decoded_of_step hpart hstep]
    exact Nat.succ_pos _

/-- The first encoded character has none before it. -/
theorem exists_first_encoded (h : ∃ character, String.utf8EncodeChar character <:+: bytes) :
    ∃ character before after, bytes = before ++ (String.utf8EncodeChar character ++ after) ∧
      ∀ other, ¬ String.utf8EncodeChar other <:+: before := by
  classical
  have hexists : ∃ length character before after, before.length = length ∧
      bytes = before ++ (String.utf8EncodeChar character ++ after) := by
    obtain ⟨character, before, after, heq⟩ := h
    exact ⟨before.length, character, before, after, rfl, by rw [← heq, append_assoc]⟩
  obtain ⟨character, before, after, hlength, heq⟩ := Nat.find_spec hexists
  refine ⟨character, before, after, heq, fun other ⟨left, right, hinside⟩ => ?_⟩
  have hshorter : left.length < Nat.find hexists := by
    have hpos := Char.utf8Size_pos other
    rw [← hlength, ← hinside, length_append, length_append, String.length_utf8EncodeChar]
    omega
  refine Nat.find_min hexists hshorter
    ⟨other, left, right ++ (String.utf8EncodeChar character ++ after), rfl, ?_⟩
  rw [heq, ← hinside, append_assoc, append_assoc]

theorem replaced_decoded (bytes : List UInt8) : Replaced bytes (decoded bytes) := by
  induction hlength : bytes.length using Nat.strong_induction_on generalizing bytes with
  | _ count ih =>
    by_cases hencoded : ∃ character, String.utf8EncodeChar character <:+: bytes
    · obtain ⟨character, before, after, rfl, hnone⟩ := exists_first_encoded hencoded
      have hshorter : after.length < count := by
        have hpos := Char.utf8Size_pos character
        rw [← hlength, length_append, length_append, String.length_utf8EncodeChar]
        omega
      rw [decoded_around]
      exact .malformed_decoded hnone (.inr ⟨character, prefix_append _ _⟩)
        (.valid character (ih _ hshorter after rfl))
    · have hwhole := Replaced.malformed_decoded (not_exists.mp hencoded) (.inl rfl) .nil
      rwa [append_nil, append_nil] at hwhole

end Steel.PrefixedRead

import Steel.Chunk.PaletteEncode
import Steel.Proof.PaletteCounts
import Steel.Spec.PaletteClient

/-!
# A client reads what was written

Each part of the encoding is read back by its counterpart: variable-length integers, longs, entries
within longs, and indices within palettes. The index table that the containers of a thread share is
empty between two of them.
-/

namespace Steel

open List Option

namespace PaletteClient

/-! ### Integers -/

theorem continued_bits (m : ℕ) : (m ||| 128) &&& 127 = m % 128 ∧ (m ||| 128) &&& 128 ≠ 0 := by
  constructor
  · rw [Nat.and_two_pow_sub_one_eq_mod _ 7, Nat.or_mod_two_pow]
    simp
  · rw [Nat.and_or_distrib_right, Nat.and_self, ne_eq, Nat.or_eq_zero_iff]
    exact fun h => absurd h.2 (by decide)

theorem last_bits {m : ℕ} (h : m < 128) : m &&& 127 = m ∧ m &&& 128 = 0 := by
  constructor
  · rw [Nat.and_two_pow_sub_one_eq_mod _ 7, Nat.mod_eq_of_lt h]
  · have hmark := Nat.and_two_pow m 7
    rw [Nat.testBit_lt_two_pow h] at hmark
    exact hmark

variable {value shift : ℕ}

theorem or_digit {digit : ℕ} (hvalue : value < 2 ^ shift) (hdigit : digit < 128)
    (hshift : shift + 7 ≤ 32) :
    value ||| (digit <<< shift) % 2 ^ 32 = value + 2 ^ shift * digit := by
  have hlt : digit <<< shift < 2 ^ 32 := by
    rw [Nat.shiftLeft_eq]
    calc digit * 2 ^ shift < 2 ^ 7 * 2 ^ shift :=
          Nat.mul_lt_mul_of_pos_right hdigit (Nat.two_pow_pos _)
      _ = 2 ^ (shift + 7) := by rw [← pow_add, Nat.add_comm]
      _ ≤ 2 ^ 32 := Nat.pow_le_pow_right (by decide) hshift
  rw [Nat.mod_eq_of_lt hlt, Nat.shiftLeft_eq, Nat.mul_comm digit, Nat.or_comm,
    ← Nat.two_pow_add_eq_or_of_lt hvalue, Nat.add_comm]

theorem readVarIntFrom_continued {fuel : ℕ} (n : ℕ) (rest : List UInt8)
    (hvalue : value < 2 ^ shift) (hshift : shift + 7 ≤ 32) :
    readVarIntFrom (fuel + 1) shift value ((UInt8.ofNat n ||| 0x80) :: rest) =
      readVarIntFrom fuel (shift + 7) (value + 2 ^ shift * (n % 128)) rest := by
  have hbyte : (UInt8.ofNat n ||| 0x80).toNat = n % 256 ||| 128 := by
    rw [UInt8.toNat_or, UInt8.toNat_ofNat']
    rfl
  obtain ⟨hlow, hmark⟩ := continued_bits (n % 256)
  have hdigit : n % 256 % 128 = n % 128 := by omega
  rw [readVarIntFrom, hbyte, hlow, hdigit, if_neg hmark,
    or_digit hvalue (Nat.mod_lt _ (by decide)) hshift]

theorem readVarIntFrom_last {fuel n : ℕ} (rest : List UInt8)
    (hvalue : value < 2 ^ shift) (hn : n < 128) (hshift : shift + 7 ≤ 32) :
    readVarIntFrom (fuel + 1) shift value (UInt8.ofNat n :: rest) =
      some (value + 2 ^ shift * n, rest) := by
  have hbyte : (UInt8.ofNat n).toNat = n := by
    rw [UInt8.toNat_ofNat']
    omega
  obtain ⟨hlow, hmark⟩ := last_bits hn
  rw [readVarIntFrom, hbyte, hlow, if_pos hmark, or_digit hvalue hn hshift]

theorem readVarInt_bytes {n : ℕ} (h : n < 2 ^ 21) (rest : List UInt8) :
    readVarInt (VarInt.bytes n ++ rest) = some (n, rest) := by
  unfold readVarInt VarInt.bytes
  simp only [Nat.shiftRight_eq_div_pow]
  split_ifs with hone htwo hthree
  · rw [singleton_append, readVarIntFrom_last rest (by decide) hone (by decide)]
    simp
  · rw [cons_append, singleton_append,
      readVarIntFrom_continued n _ (by decide) (by decide),
      readVarIntFrom_last rest (by omega) (by omega) (by decide)]
    congr 2
    omega
  · rw [cons_append, cons_append, singleton_append,
      readVarIntFrom_continued n _ (by decide) (by decide),
      readVarIntFrom_continued _ _ (by omega) (by decide),
      readVarIntFrom_last rest (by omega) (by omega) (by decide)]
    congr 2
    omega
  · omega
  · omega

theorem readVarInts_bytes {values : List ℕ} (h : ∀ n ∈ values, n < 2 ^ 21) (rest : List UInt8) :
    readVarInts values.length (values.flatMap VarInt.bytes ++ rest) = some (values, rest) := by
  induction values with
  | nil => rfl
  | cons first values ih =>
    rw [length_cons, readVarInts, flatMap_cons, append_assoc,
      readVarInt_bytes (h first mem_cons_self)]
    simp only [bind_eq_bind, bind_some]
    rw [ih fun n hn => h n (mem_cons_of_mem _ hn)]
    rfl

/-! ### Longs -/

theorem readLongs_bytes {longs : List ℕ} (h : ∀ long ∈ longs, long < 2 ^ 64) (rest : List UInt8) :
    readLongs longs.length (longs.flatMap PaletteEncode.toBeBytes ++ rest) =
      some (longs, rest) := by
  induction longs with
  | nil => rfl
  | cons first longs ih =>
    have hlength : (PaletteEncode.toBeBytes first).length = 8 := by
      rw [PaletteEncode.toBeBytes, length_reverse, length_toLeBytes]
    have hfirst : fromLeBytes (PaletteEncode.toBeBytes first).reverse = first := by
      rw [PaletteEncode.toBeBytes, reverse_reverse, fromLeBytes_toLeBytes]
      exact Nat.mod_eq_of_lt (h first mem_cons_self)
    rw [length_cons, readLongs, flatMap_cons, append_assoc,
      if_neg (by rw [length_append]; omega), drop_left' hlength,
      take_left' hlength, hfirst, ih fun long hlong => h long (mem_cons_of_mem _ hlong)]
    rfl

end PaletteClient

/-! ### Entries -/

namespace PaletteEncode

open PaletteClient WordPacking

variable {V : Type} {bits : ℕ} {lookup : V → Option ℕ} {values : List V}

/-- The entries of the values fit into the width. -/
def EntriesFit (bits : ℕ) (lookup : V → Option ℕ) (values : List V) : Prop :=
  ∀ value ∈ values, ∃ entry, lookup value = some entry ∧ entry < 2 ^ bits

theorem EntriesFit.lt (h : EntriesFit bits lookup values) :
    ∀ entry ∈ values.map fun value => (lookup value).getD 0, entry < 2 ^ bits := by
  intro entry hentry
  obtain ⟨value, hvalue, rfl⟩ := mem_map.mp hentry
  obtain ⟨found, hfound, hlt⟩ := h value hvalue
  rw [hfound]
  exact hlt

theorem longs_eq (h : EntriesFit bits lookup values) :
    longs bits lookup values = (List.range (divCeil values.length (64 / bits))).map fun long =>
      packWord bits
        (wordPart (64 / bits) (values.map fun value => (lookup value).getD 0) long) := by
  refine map_congr_left fun long _ => ?_
  have hlength :
      (wordPart (64 / bits) (values.map fun value => (lookup value).getD 0) long).length ≤
        64 / bits :=
    length_take_le _ _
  rw [orFrom_eq (fun entry hentry => h.lt entry (mem_of_mem_wordPart hentry)) (by simp)]
  · simp
  · rw [Nat.zero_add]
    exact (Nat.mul_le_mul_right bits hlength).trans (Nat.div_mul_le_self 64 bits)

theorem longs_lt (h : EntriesFit bits lookup values) :
    ∀ long ∈ longs bits lookup values, long < 2 ^ 64 := by
  rw [longs_eq h]
  intro long hlong
  obtain ⟨index, -, rfl⟩ := mem_map.mp hlong
  refine (packWord_lt fun entry hentry => h.lt entry (mem_of_mem_wordPart hentry)).trans_le ?_
  apply Nat.pow_le_pow_right (by decide)
  exact (Nat.mul_le_mul_right bits (length_take_le _ _)).trans (Nat.div_mul_le_self 64 bits)

theorem length_longs : (longs bits lookup values).length = divCeil values.length (64 / bits) := by
  rw [longs, length_map, length_range]

theorem perLong_pos (hbits : 1 ≤ bits ∧ bits ≤ 16) : 0 < 64 / bits :=
  Nat.div_pos (by omega) (by omega)

theorem readEntry_longs (hbits : 1 ≤ bits ∧ bits ≤ 16) (h : EntriesFit bits lookup values)
    (palette : Option (List ℕ)) {index : ℕ} {value : V} (hvalue : values[index]? = some value) :
    readEntry bits palette (longs bits lookup values) index =
      resolve palette ((lookup value).getD 0) := by
  have hpos := perLong_pos hbits
  have hindex : index < values.length := (List.getElem?_eq_some_iff.mp hvalue).1
  have hentry : (values.map fun value => (lookup value).getD 0)[index]? =
      some ((lookup value).getD 0) := by
    rw [List.getElem?_map, hvalue, map_some]
  rw [readEntry, longs_eq h, List.getElem?_map, List.getElem?_range (div_lt_divCeil hpos hindex)]
  simp only [map_some, bind_eq_bind, bind_some]
  rw [wordEntry_wordPart h.lt hpos hentry]

variable {id : V → ℕ} {palette : Option (List ℕ)}

theorem readEntries_longs (hbits : 1 ≤ bits ∧ bits ≤ 16) (h : EntriesFit bits lookup values)
    (hresolve : ∀ value ∈ values, resolve palette ((lookup value).getD 0) = some (id value)) :
    (List.range values.length).mapM (readEntry bits palette (longs bits lookup values)) =
      some (values.map id) := by
  have hread : ∀ index ∈ List.range values.length,
      readEntry bits palette (longs bits lookup values) index =
        some ((values.map id).getD index 0) := by
    intro index hindex
    have hvalue := List.getElem?_eq_getElem (mem_range.mp hindex)
    rw [readEntry_longs hbits h palette hvalue, hresolve _ (mem_of_getElem? hvalue),
      getD_eq_getElem?_getD, List.getElem?_map, hvalue]
    rfl
  rw [Vec.mapM_eq_map hread]
  congr 1
  apply ext_getElem?
  intro index
  rw [List.getElem?_map]
  by_cases hindex : index < values.length
  · rw [List.getElem?_range hindex, map_some, getD_eq_getElem?_getD, List.getElem?_map,
      List.getElem?_eq_getElem hindex]
    rfl
  · rw [List.getElem?_eq_none (by rw [length_range]; omega),
      List.getElem?_eq_none (by rw [length_map]; omega)]
    rfl

theorem readContainer_longs (hbits : 1 ≤ bits ∧ bits ≤ 16) (h : EntriesFit bits lookup values)
    {maxPalettedBits : ℕ} {head : List UInt8}
    (hpalette : ∀ rest, readPalette bits maxPalettedBits (head ++ rest) = some (palette, rest))
    (hresolve : ∀ value ∈ values, resolve palette ((lookup value).getD 0) = some (id value)) :
    readContainer values.length maxPalettedBits
        (UInt8.ofNat bits :: (head ++ (longs bits lookup values).flatMap toBeBytes)) =
      some (values.map id, []) := by
  have hbyte : (UInt8.ofNat bits).toNat = bits := by
    rw [UInt8.toNat_ofNat']
    omega
  have hlongs := readLongs_bytes (longs_lt h) []
  rw [length_longs, append_nil] at hlongs
  rw [readContainer, hbyte, if_neg (by omega), hpalette]
  simp only [bind_eq_bind, bind_some]
  rw [hlongs]
  simp only [bind_some]
  rw [readEntries_longs hbits h hresolve]
  rfl

end PaletteEncode

end Steel

import Steel.Proof.PaletteWire

/-!
# Writing a container

The entries are packed before anything is written, so an error of the encoder leaves the writer as
it was. While a palette is entered, the table finds the index of each of its values; afterwards the
table is as empty as it was before.
-/

namespace Steel

open List Function

open CountList (Lists)
open PaletteClient

/-! ### The index table -/

namespace PaletteEncode

variable {V : Type} [ToGlobalId V]

theorem toGlobalId_lt_indexTableLen (value : V) : ¬indexTableLen ≤ toGlobalId value :=
  Nat.not_le.mpr (ToGlobalId.toGlobalId_lt value)

def paletteIds (palette : Palette V) : List ℕ := palette.map fun entry => toGlobalId entry.1

theorem mem_paletteIds_cons {entry : V × ℕ} {rest : Palette V} {id : ℕ} :
    id ∈ paletteIds (entry :: rest) ↔ id = toGlobalId entry.1 ∨ id ∈ paletteIds rest :=
  mem_cons

variable (slots : IndexTable)

theorem fill_other (index : ℕ) {palette : Palette V} {id : ℕ} (hid : id ∉ paletteIds palette) :
    (fill slots index palette).2 id = slots id := by
  induction palette generalizing slots index with
  | nil => rfl
  | cons entry rest ih =>
    rw [mem_paletteIds_cons, not_or] at hid
    obtain ⟨hne, hrest⟩ := hid
    rw [fill]
    split_ifs
    · rfl
    · rfl
    · rw [ih _ _ hrest, update_of_ne hne]

theorem fill_ok {index : ℕ} {palette : Palette V} (hdistinct : (paletteIds palette).Nodup)
    (hlength : index + palette.length ≤ emptySlot) : (fill slots index palette).1 = .ok () ∧
      ∀ i entry, palette[i]? = some entry →
        (fill slots index palette).2 (toGlobalId entry.1) = index + i := by
  induction palette generalizing slots index with
  | nil => exact ⟨rfl, fun i entry hentry => by simp at hentry⟩
  | cons first rest ih =>
    obtain ⟨hfirst, hrest⟩ := nodup_cons.mp hdistinct
    rw [length_cons] at hlength
    obtain ⟨hok, hindices⟩ := ih (update slots (toGlobalId first.1) index) hrest
      (show index + 1 + rest.length ≤ emptySlot by omega)
    rw [fill, if_neg (by omega), if_neg (toGlobalId_lt_indexTableLen first.1)]
    refine ⟨hok, fun i entry hentry => ?_⟩
    cases i with
    | zero =>
      obtain rfl : first = entry := Option.some.inj hentry
      rw [fill_other _ _ hfirst, update_self, Nat.add_zero]
    | succ i =>
      rw [hindices i entry (by simpa using hentry)]
      omega

theorem indexOf_fill {palette : Palette V} (hdistinct : (paletteIds palette).Nodup)
    (hlength : palette.length ≤ emptySlot) {i : ℕ} {entry : V × ℕ}
    (hentry : palette[i]? = some entry) : indexOf (fill slots 0 palette).2 entry.1 = some i := by
  have hi : i < palette.length := (List.getElem?_eq_some_iff.mp hentry).1
  have hslot := (fill_ok slots hdistinct (by rwa [Nat.zero_add])).2 i entry hentry
  rw [Nat.zero_add] at hslot
  rw [indexOf, if_neg (toGlobalId_lt_indexTableLen entry.1), hslot, if_neg (by omega)]

/-- A slot keeps what it held or takes the index of an entry with its id. -/
theorem fill_apply (index : ℕ) (palette : Palette V) (id : ℕ) :
    (fill slots index palette).2 id = slots id ∨
      ∃ i entry, palette[i]? = some entry ∧ toGlobalId entry.1 = id ∧
        (fill slots index palette).2 id = index + i := by
  induction palette generalizing slots index with
  | nil => exact .inl rfl
  | cons first rest ih =>
    rw [fill]
    split_ifs
    · exact .inl rfl
    · exact .inl rfl
    · rcases ih (update slots (toGlobalId first.1) index) (index + 1) with
        hkept | ⟨i, entry, hentry, hid, hslot⟩
      · by_cases hid : id = toGlobalId first.1
        · refine .inr ⟨0, first, rfl, hid.symm, ?_⟩
          rw [hkept, hid, update_self, Nat.add_zero]
        · exact .inl (by rw [hkept, update_of_ne hid])
      · refine .inr ⟨i + 1, entry, hentry, hid, ?_⟩
        rw [hslot]
        omega

theorem reset_apply (palette : Palette V) (id : ℕ) :
    reset slots palette id = slots id ∧ id ∉ paletteIds palette ∨
      reset slots palette id = emptySlot := by
  induction palette generalizing slots with
  | nil => exact .inl ⟨rfl, not_mem_nil⟩
  | cons first rest ih =>
    rw [reset, foldl_cons, if_neg (toGlobalId_lt_indexTableLen first.1)]
    rcases ih (update slots (toGlobalId first.1) emptySlot) with ⟨hkept, hrest⟩ | hempty
    · by_cases hid : id = toGlobalId first.1
      · exact .inr (hkept.trans (by rw [hid, update_self]))
      · refine .inl ⟨hkept.trans (update_of_ne hid _ _), ?_⟩
        rw [mem_paletteIds_cons, not_or]
        exact ⟨hid, hrest⟩
    · exact .inr hempty

variable (values : List V)

theorem packPaletteIndices_snd (palette : Palette V) (bits : ℕ) (slots : IndexTable) :
    (packPaletteIndices values palette bits slots).2 = reset (fill slots 0 palette).2 palette := by
  rw [packPaletteIndices]
  rcases fill slots 0 palette with ⟨error | _, slots'⟩
  · rfl
  · rfl

/-- However the encode ends, an empty table is empty after it. -/
theorem packPaletteIndices_empty {slots : IndexTable} (h : ∀ id, slots id = emptySlot)
    (values : List V) (palette : Palette V) (bits id : ℕ) :
    (packPaletteIndices values palette bits slots).2 id = emptySlot := by
  rw [packPaletteIndices_snd]
  rcases reset_apply (fill slots 0 palette).2 palette id with ⟨hkept, hid⟩ | hempty
  · rw [hkept, fill_other slots 0 hid, h]
  · exact hempty

theorem indexOf_fill_empty {slots : IndexTable} (h : ∀ id, slots id = emptySlot)
    {palette : Palette V} {value : V} {index : ℕ}
    (hindex : indexOf (fill slots 0 palette).2 value = some index) :
    ∃ count, palette[index]? = some (value, count) := by
  rw [indexOf, if_neg (toGlobalId_lt_indexTableLen value)] at hindex
  split_ifs at hindex with hslot
  obtain rfl := Option.some.inj hindex
  rcases fill_apply slots 0 palette (toGlobalId value) with
    hkept | ⟨i, ⟨other, count⟩, hentry, hid, hi⟩
  · exact absurd (hkept.trans (h _)) hslot
  · obtain rfl : other = value := ToGlobalId.toGlobalId_injective hid
    refine ⟨count, ?_⟩
    rw [hi, Nat.zero_add]
    exact hentry

/-! ### Packing -/

omit [ToGlobalId V] in
theorem pack_cases (bits : ℕ) (lookup : V → Option ℕ) :
    (∃ message, pack values bits lookup = .error (.invalidData message)) ∨
      ((1 ≤ bits ∧ bits ≤ 16) ∧ (∀ value ∈ values, (lookup value).isSome) ∧
        pack values bits lookup = .ok ((longs bits lookup values).flatMap toBeBytes)) := by
  unfold pack packLongs
  split_ifs with hbits hlarge hmissing
  · exact .inl ⟨_, rfl⟩
  · exact .inl ⟨_, rfl⟩
  · refine .inr ⟨hbits, fun value hvalue => ?_, rfl⟩
    by_contra hnone
    exact hmissing (any_eq_true.mpr ⟨value, hvalue, by simpa using hnone⟩)
  · exact .inl ⟨_, rfl⟩

variable {bits : ℕ}

omit [ToGlobalId V] in
theorem pack_eq_ok {values : List V} {lookup : V → Option ℕ}
    (hbits : 1 ≤ bits ∧ bits ≤ 16) (hlength : values.length ≤ 4096)
    (hlookup : ∀ value ∈ values, (lookup value).isSome) :
    pack values bits lookup = .ok ((longs bits lookup values).flatMap toBeBytes) := by
  have hfour : 4 ≤ 64 / bits := (Nat.le_div_iff_mul_le (by omega)).mpr (by omega)
  have hsize : divCeil values.length (64 / bits) ≤ 1024 := by
    rw [divCeil, Nat.div_le_iff_le_mul_add_pred (by omega)]
    have hle : 4 * 1024 ≤ 64 / bits * 1024 := Nat.mul_le_mul_right 1024 hfour
    omega
  have hmissing : ¬(values.any fun value => (lookup value).isNone) = true := by
    intro hany
    obtain ⟨value, hvalue, hnone⟩ := any_eq_true.mp hany
    have hsome := hlookup value hvalue
    rw [Option.isNone_iff_eq_none.mp hnone] at hsome
    cases hsome
  rw [pack, if_pos hbits, packLongs, if_neg (by rw [maxPackedBytes, divCeil]; omega),
    if_neg hmissing]

theorem foldl_or_shiftRight (start bits : ℕ) :
    (values.foldl (fun allIds value => allIds ||| toGlobalId value) start) >>> bits = 0 ↔
      start >>> bits = 0 ∧ ∀ value ∈ values, toGlobalId value >>> bits = 0 := by
  induction values generalizing start with
  | nil => simp
  | cons value values ih =>
    rw [foldl_cons, ih, Nat.shiftRight_or_distrib, Nat.or_eq_zero_iff, forall_mem_cons,
      and_assoc]

theorem shiftRight_eq_zero_iff {n : ℕ} : n >>> bits = 0 ↔ n < 2 ^ bits := by
  rw [Nat.shiftRight_eq_div_pow, Nat.div_eq_zero_iff]
  have hpos := Nat.two_pow_pos bits
  omega

theorem packGlobalIds_cases (bits : ℕ) :
    (∃ message, packGlobalIds values bits = .error (.invalidData message)) ∨
      ((1 ≤ bits ∧ bits ≤ 16) ∧ EntriesFit bits (fun value => some (toGlobalId value)) values ∧
        packGlobalIds values bits =
          .ok ((longs bits (fun value => some (toGlobalId value)) values).flatMap toBeBytes)) := by
  unfold packGlobalIds
  dsimp only
  split_ifs with hids
  · exact .inl ⟨_, rfl⟩
  · rcases pack_cases values bits fun value => some (toGlobalId value) with
      herror | ⟨hbits, -, hok⟩
    · exact .inl herror
    · have hmod : bits % 32 = bits := Nat.mod_eq_of_lt (by omega)
      rw [not_not, hmod, foldl_or_shiftRight] at hids
      exact .inr ⟨hbits, fun value hvalue =>
        ⟨_, rfl, shiftRight_eq_zero_iff.mp (hids.2 value hvalue)⟩, hok⟩

theorem packGlobalIds_eq_ok {values : List V} (hbits : 1 ≤ bits ∧ bits ≤ 16)
    (hlength : values.length ≤ 4096) (hids : ∀ value ∈ values, toGlobalId value < 2 ^ bits) :
    packGlobalIds values bits =
      .ok ((longs bits (fun value => some (toGlobalId value)) values).flatMap toBeBytes) := by
  have hmod : bits % 32 = bits := Nat.mod_eq_of_lt (by omega)
  have hfit : (values.foldl (fun allIds value => allIds ||| toGlobalId value) 0) >>> (bits % 32) =
      0 := by
    rw [hmod, foldl_or_shiftRight]
    exact ⟨Nat.zero_shiftRight bits, fun value hvalue =>
      shiftRight_eq_zero_iff.mpr (hids value hvalue)⟩
  rw [packGlobalIds, if_neg (not_not.mpr hfit), pack_eq_ok hbits hlength fun _ _ => rfl]

end PaletteEncode

/-! ### The writer -/

namespace Writer

theorem writeAll_cases (writer : Writer) (bytes : List UInt8) :
    (∃ after : Writer, writer.writeAll bytes = (.ok (), after) ∧
        after.written = writer.written ++ bytes ∧ (writer.room = none → after.room = none)) ∨
      ∃ after : Writer, writer.writeAll bytes = (.error .failed, after) ∧ writer.room ≠ none := by
  unfold writeAll
  cases hroom : writer.room with
  | none => exact .inl ⟨_, rfl, rfl, fun _ => rfl⟩
  | some room =>
    dsimp only
    split_ifs
    · exact .inl ⟨_, rfl, rfl, fun h => absurd h (by simp)⟩
    · exact .inr ⟨_, rfl, Option.some_ne_none room⟩

theorem writeEach_cases (writer : Writer) (parts : List (List UInt8)) :
    (∃ after : Writer, writer.writeEach parts = (.ok (), after) ∧
        after.written = writer.written ++ parts.flatten) ∨
      ∃ after : Writer, writer.writeEach parts = (.error .failed, after) ∧ writer.room ≠ none := by
  induction parts generalizing writer with
  | nil => exact .inl ⟨_, rfl, by simp⟩
  | cons bytes rest ih =>
    rw [writeEach]
    rcases writer.writeAll_cases bytes with ⟨between, hwrite, hwritten, hroom⟩ |
      ⟨after, hwrite, hroom⟩
    · rw [hwrite]
      rcases ih between with ⟨after, hrest, hafter⟩ | ⟨after, hrest, hlimited⟩
      · refine .inl ⟨after, hrest, ?_⟩
        rw [hafter, hwritten, flatten_cons, append_assoc]
      · exact .inr ⟨after, hrest, mt hroom hlimited⟩
    · rw [hwrite]
      exact .inr ⟨after, rfl, hroom⟩

end Writer

/-! ### Containers -/

theorem le_two_pow_ceilLog2 (n : ℕ) : n ≤ 2 ^ ceilLog2 n := by
  unfold ceilLog2
  split_ifs with h
  · exact h
  · have hlt := Nat.lt_size_self (n - 1)
    omega

theorem ceilLog2_le {n bits : ℕ} (h : n ≤ 2 ^ bits) : ceilLog2 n ≤ bits := by
  unfold ceilLog2
  split_ifs with hone
  · exact Nat.zero_le bits
  · rw [Nat.size_le]
    omega

def RegistrySizes.ofDim (sizes : RegistrySizes) (dim : ℕ) : ℕ :=
  if dim = 16 then sizes.blockStates else sizes.biomes

namespace PalettedContainer

open PaletteEncode

theorem maxPalettedBits_le (dim : ℕ) : 3 ≤ maxPalettedBits dim ∧ maxPalettedBits dim ≤ 8 := by
  unfold maxPalettedBits
  split_ifs <;> omega

variable {sizes : RegistrySizes} {bits : ℕ} {mode : PaletteMode}

theorem calculateStrategy_cases {dim count : ℕ}
    (h : calculateStrategy sizes dim count = some (bits, mode)) :
    (mode ≠ .global ∧ count ≤ 2 ^ bits ∧ 1 ≤ bits ∧ bits ≤ maxPalettedBits dim) ∨
      (mode = .global ∧ 2 ^ maxPalettedBits dim < count ∧ bits = ceilLog2 (sizes.ofDim dim)) := by
  unfold calculateStrategy at h
  unfold maxPalettedBits RegistrySizes.ofDim
  split_ifs at h ⊢ <;> obtain ⟨rfl, rfl⟩ := Prod.mk.inj (Option.some.inj h) <;> simp <;> omega

theorem calculateStrategy_isSome (sizes : RegistrySizes) (dim : ℕ) {count : ℕ} (h : 2 ≤ count) :
    ∃ bits mode, calculateStrategy sizes dim count = some (bits, mode) := by
  unfold calculateStrategy
  split_ifs
  all_goals first
    | exact ⟨_, _, rfl⟩
    | omega

variable {V : Type} [DecidableEq V] [ToGlobalId V] {dim : ℕ} {contents : Cube V dim}
  {palette : Palette V}

theorem nodup_paletteIds (h : Lists palette fun v => contents.values.count v) :
    (paletteIds palette).Nodup := by
  have hmap : paletteIds palette = (palette.map Prod.fst).map toGlobalId := by
    rw [map_map]
    rfl
  rw [hmap]
  exact h.distinct.map ToGlobalId.toGlobalId_injective

theorem length_le_of_ids (h : Lists palette fun v => contents.values.count v)
    (hids : ∀ value ∈ contents.values, toGlobalId value < 2 ^ bits) :
    palette.length ≤ 2 ^ bits := by
  have hsubset : paletteIds palette ⊆ List.range (2 ^ bits) := by
    intro id hid
    obtain ⟨entry, hentry, rfl⟩ := mem_map.mp hid
    exact mem_range.mpr (hids _ (mem_values_of_mem h hentry))
  have hle := ((nodup_paletteIds h).subperm hsubset).length_le
  rwa [paletteIds, length_map, length_range] at hle

theorem packPaletteIndices_eq (h : Lists palette fun v => contents.values.count v)
    (hlength : palette.length ≤ emptySlot) (values : List V) (bits : ℕ) (slots : IndexTable) :
    (packPaletteIndices values palette bits slots).1 =
      pack values bits (indexOf (fill slots 0 palette).2) := by
  have hok := (fill_ok slots (nodup_paletteIds h) (by rwa [Nat.zero_add])).1
  unfold packPaletteIndices
  split
  · rename_i hfill
    rw [hfill] at hok
    cases hok
  · rename_i hfill
    rw [hfill]

theorem two_pow_le (h : bits ≤ maxPalettedBits dim) : 2 ^ bits ≤ 256 :=
  Nat.pow_le_pow_right (by decide) (h.trans (maxPalettedBits_le dim).2)

theorem indexOf_fits (h : Lists palette fun v => contents.values.count v)
    (hlength : palette.length ≤ emptySlot) (hbits : palette.length ≤ 2 ^ bits)
    (slots : IndexTable) :
    EntriesFit bits (indexOf (fill slots 0 palette).2) contents.values ∧
      ∀ value ∈ contents.values,
        resolve (some (paletteIds palette)) ((indexOf (fill slots 0 palette).2 value).getD 0) =
          some (toGlobalId value) := by
  have hindex : ∀ value ∈ contents.values, ∃ i,
      indexOf (fill slots 0 palette).2 value = some i ∧ i < palette.length ∧
        (paletteIds palette)[i]? = some (toGlobalId value) := by
    intro value hvalue
    obtain ⟨i, n, hi⟩ := exists_index h hvalue
    refine ⟨i, indexOf_fill slots (nodup_paletteIds h) hlength hi,
      (List.getElem?_eq_some_iff.mp hi).1, ?_⟩
    rw [paletteIds, List.getElem?_map, hi, Option.map_some]
  constructor
  · intro value hvalue
    obtain ⟨i, hi, hlt, -⟩ := hindex value hvalue
    exact ⟨i, hi, hlt.trans_le hbits⟩
  · intro value hvalue
    obtain ⟨i, hi, -, hid⟩ := hindex value hvalue
    rw [hi]
    exact hid

omit [DecidableEq V] in
theorem readPalette_bytes (hbits : bits ≤ maxPalettedBits dim)
    (hlength : palette.length ≤ 256) (hmode : mode ≠ .global)
    (rest : List UInt8) :
    readPalette bits (maxPalettedBits dim) ((paletteBytes palette mode).flatten ++ rest) =
      some (some (paletteIds palette), rest) := by
  have hbytes : (paletteBytes palette mode).flatten =
      VarInt.bytes palette.length ++ (paletteIds palette).flatMap VarInt.bytes := by
    have hparts : paletteBytes palette mode =
        VarInt.bytes palette.length :: palette.map fun entry =>
          VarInt.bytes (toGlobalId entry.1) := by
      cases mode with
      | global => exact absurd rfl hmode
      | linear | hash => rfl
    rw [hparts, flatten_cons, paletteIds, flatMap_map, flatMap_def]
  have hids : ∀ id ∈ paletteIds palette, id < 2 ^ 21 := by
    intro id hid
    obtain ⟨entry, -, rfl⟩ := mem_map.mp hid
    exact (ToGlobalId.toGlobalId_lt entry.1).trans (by decide)
  have hcount : (paletteIds palette).length = palette.length := length_map _
  rw [readPalette, if_pos hbits, hbytes, append_assoc, readVarInt_bytes (by omega)]
  simp only [Option.bind_eq_bind, Option.bind_some]
  rw [← hcount, readVarInts_bytes hids]
  rfl

/-- What is packed without an error is read back. -/
theorem packEntries_cases {data : HeterogeneousPalette V dim}
    (hlists : Lists data.palette fun v => data.cube.values.count v)
    (hstrategy : calculateStrategy sizes dim data.palette.length = some (bits, mode))
    (slots : IndexTable) :
    (∃ message, (packEntries data bits mode slots).1 = .error (.invalidData message)) ∨
      ∃ packed, (packEntries data bits mode slots).1 = .ok packed ∧
        readContainer data.cube.values.length (maxPalettedBits dim)
            ([UInt8.ofNat bits] :: paletteBytes data.palette mode ++ [packed]).flatten =
          some (data.cube.values.map toGlobalId, []) := by
  have hflatten : ∀ packed,
      ([UInt8.ofNat bits] :: paletteBytes data.palette mode ++ [packed]).flatten =
        UInt8.ofNat bits :: ((paletteBytes data.palette mode).flatten ++ packed) := by
    intro packed
    simp
  rcases calculateStrategy_cases hstrategy with ⟨hmode, hcount, hone, hmax⟩ | ⟨rfl, hcount, -⟩
  · -- indices into the palette
    have hlength : data.palette.length ≤ 256 := hcount.trans (two_pow_le hmax)
    have hsmall : data.palette.length ≤ emptySlot := hlength.trans (by decide)
    have hpack : (packEntries data bits mode slots).1 =
        pack data.cube.values bits (indexOf (fill slots 0 data.palette).2) := by
      rw [← packPaletteIndices_eq hlists hsmall]
      cases mode with
      | global => exact absurd rfl hmode
      | linear | hash => rfl
    rw [hpack]
    rcases pack_cases data.cube.values bits (indexOf (fill slots 0 data.palette).2) with
      herror | ⟨hbits, -, hok⟩
    · exact .inl herror
    · obtain ⟨hfits, hresolve⟩ := indexOf_fits hlists hsmall hcount slots
      refine .inr ⟨_, hok, ?_⟩
      rw [hflatten]
      exact readContainer_longs hbits hfits (readPalette_bytes hmax hlength hmode) hresolve
  · -- global ids
    rcases packGlobalIds_cases data.cube.values bits with herror | ⟨hbits, hfits, hok⟩
    · exact .inl herror
    · have hids : ∀ value ∈ data.cube.values, toGlobalId value < 2 ^ bits := by
        intro value hvalue
        obtain ⟨entry, hentry, hlt⟩ := hfits value hvalue
        rwa [Option.some.inj hentry]
      have hwide : maxPalettedBits dim < bits :=
        (Nat.pow_lt_pow_iff_right (by decide)).mp
          (hcount.trans_le (length_le_of_ids hlists hids))
      have hpalette : ∀ rest, readPalette bits (maxPalettedBits dim)
          ((paletteBytes data.palette .global).flatten ++ rest) = some (none, rest) := by
        intro rest
        rw [readPalette, if_neg (by omega)]
        rfl
      refine .inr ⟨_, hok, ?_⟩
      rw [hflatten]
      exact readContainer_longs hbits hfits hpalette fun value _ => rfl

theorem packEntries_ok {data : HeterogeneousPalette V dim}
    (hlists : Lists data.palette fun v => data.cube.values.count v)
    (hstrategy : calculateStrategy sizes dim data.palette.length = some (bits, mode))
    (hdim : dim ≤ 16) (hsize : sizes.ofDim dim ≤ 2 ^ 16)
    (hids : ∀ value ∈ data.cube.values, toGlobalId value < sizes.ofDim dim) (slots : IndexTable) :
    ∃ packed, (packEntries data bits mode slots).1 = .ok packed := by
  have hlength : data.cube.values.length ≤ 4096 := by
    rw [Cube.values, length_map, CubePos.length_all, ← pow_three']
    exact Nat.pow_le_pow_left hdim 3
  rcases calculateStrategy_cases hstrategy with ⟨hmode, hcount, hone, hmax⟩ | ⟨rfl, hcount, rfl⟩
  · have hsmall : data.palette.length ≤ emptySlot :=
      (hcount.trans (two_pow_le hmax)).trans (by decide)
    have hfits := (indexOf_fits hlists hsmall hcount slots).1
    have hbits : 1 ≤ bits ∧ bits ≤ 16 :=
      ⟨hone, (hmax.trans (maxPalettedBits_le dim).2).trans (by decide)⟩
    have hpack := pack_eq_ok hbits hlength fun value hvalue => by
      obtain ⟨entry, hentry, -⟩ := hfits value hvalue
      exact Option.isSome_iff_exists.mpr ⟨entry, hentry⟩
    rw [← packPaletteIndices_eq hlists hsmall] at hpack
    cases mode with
    | global => exact absurd rfl hmode
    | linear | hash => exact ⟨_, hpack⟩
  · have hfits : ∀ value ∈ data.cube.values, toGlobalId value < 2 ^ ceilLog2 (sizes.ofDim dim) :=
      fun value hvalue => (hids value hvalue).trans_le (le_two_pow_ceilLog2 _)
    have hwide : maxPalettedBits dim < ceilLog2 (sizes.ofDim dim) :=
      (Nat.pow_lt_pow_iff_right (by decide)).mp (hcount.trans_le (length_le_of_ids hlists hfits))
    exact ⟨_, packGlobalIds_eq_ok ⟨by omega, ceilLog2_le hsize⟩ hlength hfits⟩

omit [DecidableEq V] in
theorem readContainer_homogeneous {value : V} (h : ∀ pos, contents pos = value)
    (maxPalettedBits : ℕ) :
    readContainer contents.values.length maxPalettedBits
        [[0], VarInt.bytes (toGlobalId value)].flatten =
      some (contents.values.map toGlobalId, []) := by
  have hvalues : contents.values.map toGlobalId =
      List.replicate contents.values.length (toGlobalId value) := by
    rw [eq_replicate_iff]
    refine ⟨length_map _, ?_⟩
    simp only [Cube.values, mem_map]
    rintro id ⟨cell, ⟨pos, -, rfl⟩, rfl⟩
    rw [h pos]
  have hread := readVarInt_bytes
    ((ToGlobalId.toGlobalId_lt value).trans (show 65536 < 2 ^ 21 by decide)) []
  rw [append_nil] at hread
  rw [hvalues]
  simp only [flatten_cons, flatten_nil, append_nil, singleton_append]
  rw [readContainer, UInt8.toNat_zero, if_pos rfl, hread]
  rfl

/-- What writing a container can come to: an error of the encoder before anything is written, or the
outcome of writing bytes that are read back as the container. -/
theorem write_cases {container : PalettedContainer V dim} (h : container.Represents contents)
    (hfinal : ∀ cube, container ≠ .building cube) (sizes : RegistrySizes) (slots : IndexTable)
    (writer : Writer) :
    (∃ message after, container.write sizes slots writer =
        some ((.error (.invalidData message), writer), after)) ∨
      ∃ parts after,
        container.write sizes slots writer = some (writer.writeEach parts, after) ∧
        readContainer contents.values.length (maxPalettedBits dim) parts.flatten =
          some (contents.values.map toGlobalId, []) := by
  cases container with
  | building cube => exact absurd rfl (hfinal cube)
  | homogeneous value => exact .inr ⟨_, slots, rfl, readContainer_homogeneous h _⟩
  | heterogeneous data =>
    obtain ⟨rfl, hlists, htwo⟩ := h
    obtain ⟨bits, mode, hstrategy⟩ := calculateStrategy_isSome sizes dim htwo
    rw [write, hstrategy]
    simp only [Option.bind_eq_bind, Option.bind_some]
    rcases hresult : packEntries data bits mode slots with ⟨result, after⟩
    have hcases := packEntries_cases hlists hstrategy slots
    rw [hresult] at hcases
    rcases hcases with ⟨message, rfl⟩ | ⟨packed, rfl, hread⟩
    · exact .inl ⟨message, after, rfl⟩
    · exact .inr ⟨_, after, rfl, hread⟩

theorem write_ok {container : PalettedContainer V dim} (h : container.Represents contents)
    (hfinal : ∀ cube, container ≠ .building cube) (hdim : dim ≤ 16)
    (hsize : sizes.ofDim dim ≤ 2 ^ 16) (hids : ∀ pos, toGlobalId (contents pos) < sizes.ofDim dim)
    (slots : IndexTable) {writer : Writer} (hroom : writer.room = none) :
    ∃ after slots', container.write sizes slots writer = some ((.ok (), after), slots') := by
  have hwrites : ∀ parts, ∃ after, writer.writeEach parts = (.ok (), after) := by
    intro parts
    rcases writer.writeEach_cases parts with ⟨after, hok, -⟩ | ⟨after, -, hlimited⟩
    · exact ⟨after, hok⟩
    · exact absurd hroom hlimited
  cases container with
  | building cube => exact absurd rfl (hfinal cube)
  | homogeneous value =>
    obtain ⟨after, hok⟩ := hwrites [[0], VarInt.bytes (toGlobalId value)]
    rw [write, hok]
    exact ⟨after, slots, rfl⟩
  | heterogeneous data =>
    obtain ⟨rfl, hlists, htwo⟩ := h
    obtain ⟨bits, mode, hstrategy⟩ := calculateStrategy_isSome sizes dim htwo
    have hcells : ∀ value ∈ data.cube.values, toGlobalId value < sizes.ofDim dim := by
      intro value hvalue
      obtain ⟨pos, -, rfl⟩ := mem_map.mp hvalue
      exact hids pos
    obtain ⟨packed, hpacked⟩ := packEntries_ok hlists hstrategy hdim hsize hcells slots
    rcases hresult : packEntries data bits mode slots with ⟨result, after⟩
    rw [hresult] at hpacked
    obtain rfl : result = .ok packed := hpacked
    obtain ⟨written, hok⟩ :=
      hwrites ([UInt8.ofNat bits] :: paletteBytes data.palette mode ++ [packed])
    rw [write, hstrategy]
    simp only [Option.bind_eq_bind, Option.bind_some]
    rw [hresult]
    dsimp only
    rw [hok]
    exact ⟨written, after, rfl⟩

/-- A container that is not being built is written, whatever the table holds. The bytes of a
successful write are read as the values of its cells with nothing left over, and an error of the
encoder comes before the first byte; so does every error with a writer that does not fail itself.
With such a writer, values of a registry of at most `2 ^ 16` are always written. -/
theorem reached_write [NeZero dim] (hvolume : dim ^ 3 < 2 ^ 16)
    {container : PalettedContainer V dim} (h : Reached container contents) (sizes : RegistrySizes)
    (slots : IndexTable) (writer : Writer) :
    (∃ cube, container = .building cube) ∨
    ∃ (result : Except IoError Unit) (after : Writer) (slots' : IndexTable),
      container.write sizes slots writer = some ((result, after), slots') ∧
      (result = .ok () → ∃ bytes, after.written = writer.written ++ bytes ∧
        readContainer (dim ^ 3) (maxPalettedBits dim) bytes =
          some (contents.values.map toGlobalId, [])) ∧
      (∀ message, result = .error (.invalidData message) → after = writer) ∧
      (writer.room = none → result ≠ .ok () → after = writer) ∧
      (writer.room = none → dim ≤ 16 → sizes.ofDim dim ≤ 2 ^ 16 →
        (∀ pos, toGlobalId (contents pos) < sizes.ofDim dim) → result = .ok ()) := by
  by_cases hbuilding : ∃ cube, container = .building cube
  · exact .inl hbuilding
  right
  have hfinal : ∀ cube, container ≠ .building cube := fun cube hcube => hbuilding ⟨cube, hcube⟩
  have hrepresents := h.represents hvolume
  have hlength : contents.values.length = dim ^ 3 := by
    rw [Cube.values, length_map, CubePos.length_all, pow_three']
  have hok : ∀ {result : Except IoError Unit} {after : Writer} {slots' : IndexTable},
      container.write sizes slots writer = some ((result, after), slots') →
      writer.room = none → dim ≤ 16 → sizes.ofDim dim ≤ 2 ^ 16 →
      (∀ pos, toGlobalId (contents pos) < sizes.ofDim dim) → result = .ok () := by
    intro result after slots' hwrite hroom hdim hsize hids
    obtain ⟨written, table, hwritten⟩ := write_ok hrepresents hfinal hdim hsize hids slots hroom
    rw [hwrite] at hwritten
    exact congrArg (fun outcome => outcome.1.1) (Option.some.inj hwritten)
  rcases write_cases hrepresents hfinal sizes slots writer with
    ⟨message, slots', hwrite⟩ | ⟨parts, slots', hwrite, hread⟩
  · exact ⟨_, writer, slots', hwrite, fun hresult => absurd hresult (by simp), fun _ _ => rfl,
      fun _ _ => rfl, hok hwrite⟩
  · rw [hlength] at hread
    rcases writer.writeEach_cases parts with ⟨after, hparts, hwritten⟩ | ⟨after, hparts, hlimited⟩
    · rw [hparts] at hwrite
      exact ⟨_, after, slots', hwrite, fun _ => ⟨_, hwritten, hread⟩,
        fun _ hresult => absurd hresult (by simp), fun _ hresult => absurd rfl hresult, hok hwrite⟩
    · rw [hparts] at hwrite
      exact ⟨_, after, slots', hwrite, fun hresult => absurd hresult (by simp),
        fun _ hresult => absurd hresult (by simp), fun hroom => absurd hroom hlimited, hok hwrite⟩

/-- One cell of a cube of zeros is set, and the cube is written. -/
theorem reached_write_oneCell : ∃ (after : Writer) (slots' : IndexTable),
    write { blockStates := 8, biomes := 8 }
        ((.homogeneous 0 : PalettedContainer UInt16 4).set (0, 0, 0) 7).2 (fun _ => emptySlot)
        { written := [], room := none } = some ((.ok (), after), slots') ∧
      readContainer 64 3 after.written =
        some ((Cube.values (update (fun _ : CubePos 4 => (0 : UInt16)) (0, 0, 0) 7)).map
          toGlobalId, []) := by
  have hnew : Reached (.homogeneous 0 : PalettedContainer UInt16 4) fun _ => 0 := .new 0
  have hids : ∀ pos,
      toGlobalId (update (fun _ : CubePos 4 => (0 : UInt16)) (0, 0, 0) 7 pos) < 8 := by
    intro pos
    rw [update_apply]
    split_ifs <;> decide
  rcases reached_write (by decide) (hnew.set (0, 0, 0) 7) { blockStates := 8, biomes := 8 }
    (fun _ => emptySlot) { written := [], room := none } with
    ⟨cube, hcube⟩ | ⟨result, after, slots', hwrite, hread, -, -, hok⟩
  · rw [PalettedContainer.set, if_neg (by decide)] at hcube
    unfold fromCube ofPalette at hcube
    split at hcube <;> cases hcube
  · have hresult := hok rfl (by decide) (by decide) hids
    obtain ⟨bytes, hwritten, hbytes⟩ := hread hresult
    rw [nil_append] at hwritten
    rw [hresult] at hwrite
    exact ⟨after, slots', hwrite, by rw [hwritten]; exact hbytes⟩

/-- A writer with room for one byte takes the width of a container and then fails. -/
theorem write_incomplete : ∃ (after : Writer) (slots' : IndexTable),
    Reached (.homogeneous 0 : PalettedContainer UInt16 4) (fun _ => 0) ∧
      write { blockStates := 8, biomes := 8 } (.homogeneous 0 : PalettedContainer UInt16 4)
        (fun _ => emptySlot) { written := [], room := some 1 } =
          some ((.error .failed, after), slots') ∧
      after.written = [0] :=
  ⟨{ written := [0], room := some 0 }, fun _ => emptySlot, .new 0, rfl, rfl⟩

/-! ### One table for all encodes of a thread -/

/-- The tables between the encodes of a thread, of containers of any kind and in any state. An
encode that panics does so before it uses the table. -/
inductive Encoded : IndexTable → Prop
  | new : Encoded fun _ => emptySlot
  | packPaletteIndices {V : Type} [ToGlobalId V] {slots : IndexTable} (values : List V)
      (palette : Palette V) (bits : ℕ) (h : Encoded slots) :
      Encoded (PaletteEncode.packPaletteIndices values palette bits slots).2
  | write {V : Type} [ToGlobalId V] {dim : ℕ} {slots slots' : IndexTable} {sizes : RegistrySizes}
      {container : PalettedContainer V dim} {writer : Writer}
      {outcome : Except IoError Unit × Writer} (h : Encoded slots)
      (hwrite : container.write sizes slots writer = some (outcome, slots')) : Encoded slots'

omit [DecidableEq V] in
theorem write_table {container : PalettedContainer V dim} {sizes : RegistrySizes}
    {slots slots' : IndexTable} {writer : Writer} {outcome : Except IoError Unit × Writer}
    (h : container.write sizes slots writer = some (outcome, slots')) :
    slots' = slots ∨ ∃ (values : List V) (palette : Palette V) (bits : ℕ),
      slots' = (packPaletteIndices values palette bits slots).2 := by
  cases container with
  | homogeneous value =>
    obtain ⟨_, rfl⟩ := Prod.mk.inj (Option.some.inj h)
    exact .inl rfl
  | building cube => cases h
  | heterogeneous data =>
    obtain ⟨⟨bits, mode⟩, _, hpacked⟩ := Option.bind_eq_some_iff.mp h
    have htable : slots' = (packEntries data bits mode slots).2 := by
      dsimp only at hpacked
      split at hpacked
      · rename_i hentries
        rw [hentries, ← (Prod.mk.inj (Option.some.inj hpacked)).2]
      · rename_i hentries
        rw [hentries, ← (Prod.mk.inj (Option.some.inj hpacked)).2]
    rw [htable]
    cases mode with
    | global => exact .inl rfl
    | linear | hash => exact .inr ⟨data.cube.values, data.palette, bits, rfl⟩

/-- The table is empty between encodes, so that an index found in it while a container is encoded is
one of the value in the palette of this container. -/
theorem Encoded.table_empty {slots : IndexTable} (h : Encoded slots) :
    (∀ id, slots id = emptySlot) ∧
      ∀ (V : Type) [ToGlobalId V] (palette : Palette V) (value : V) (index : ℕ),
        indexOf (fill slots 0 palette).2 value = some index →
          ∃ count, palette[index]? = some (value, count) := by
  have hempty : ∀ id, slots id = emptySlot := by
    induction h with
    | new => exact fun _ => rfl
    | packPaletteIndices values palette bits _ ih =>
      exact packPaletteIndices_empty ih values palette bits
    | write _ hwrite ih =>
      rcases write_table hwrite with rfl | ⟨values, palette, bits, rfl⟩
      · exact ih
      · exact packPaletteIndices_empty ih values palette bits
  exact ⟨hempty, fun V _ palette value index => indexOf_fill_empty hempty⟩

/-- The cell of this container holds a value that its palette lacks. -/
def strayContainer : PalettedContainer UInt16 1 :=
  .heterogeneous { cube := fun _ => 7, palette := [(1, 1), (2, 0)] }

theorem table_empty_stray : ∃ slots' : IndexTable,
    strayContainer.write { blockStates := 8, biomes := 8 } (fun _ => emptySlot)
        { written := [], room := none } =
      some ((.error (.invalidData "container holds a value its palette cannot encode"),
        { written := [], room := none }), slots') ∧
      ∀ id, slots' id = emptySlot := by
  have hwrite : strayContainer.write { blockStates := 8, biomes := 8 } (fun _ => emptySlot)
      { written := [], room := none } =
      some ((.error (.invalidData "container holds a value its palette cannot encode"),
        { written := [], room := none }),
        (packPaletteIndices [7] [((1 : UInt16), 1), (2, 0)] 1 fun _ => emptySlot).2) := rfl
  exact ⟨_, hwrite, (Encoded.write .new hwrite).table_empty.1⟩

end PalettedContainer

end Steel

import Mathlib.Data.Fintype.Prod
import Steel.Chunk.PalettedContainer
import Steel.Lib.CountList

/-!
# Palettes count the cells of their cube

Every operation on a container is an operation on the cube it stands for. The palette lists the
values of the cube with the number of their cells, whichever way it was built: by scanning the cube
for runs, or by adding the new value and removing the old one.
-/

namespace Steel

open List Function

open CountList (Lists)

namespace CubePos

theorem mem_all {dim : ℕ} (pos : CubePos dim) : pos ∈ all dim := by
  rcases pos with ⟨y, z, x⟩
  exact pair_mem_product.mpr ⟨mem_finRange y,
    pair_mem_product.mpr ⟨mem_finRange z, mem_finRange x⟩⟩

theorem nodup_all (dim : ℕ) : (all dim).Nodup :=
  (nodup_finRange dim).product ((nodup_finRange dim).product (nodup_finRange dim))

theorem length_all (dim : ℕ) : (all dim).length = dim * dim * dim := by
  simp [all, length_product, Nat.mul_assoc]

end CubePos

variable {V : Type} [DecidableEq V] {dim : ℕ}

theorem Cube.count_values (cube : Cube V dim) (value : V) :
    cube.values.count value = (Finset.univ.filter fun pos => cube pos = value).card := by
  have hperm : (CubePos.all dim).toFinset = Finset.univ := by
    ext pos
    simp [CubePos.mem_all]
  rw [Cube.values, count_eq_countP, countP_map, countP_eq_length_filter,
    ← toFinset_card_of_nodup ((CubePos.nodup_all dim).filter _), toFinset_filter, hperm]
  congr 1
  ext pos
  simp

theorem Cube.count_values_update (cube : Cube V dim) (pos : CubePos dim) (value other : V) :
    (Cube.values (update cube pos value)).count other +
        (if cube pos = other then 1 else 0) =
      cube.values.count other + if value = other then 1 else 0 :=
  CountList.count_map_update (CubePos.nodup_all dim) (CubePos.mem_all pos) cube value other

namespace Palette

variable {palette : Palette V} {counts : V → ℕ}

theorem lists_addCells (h : Lists palette counts) (value : V) {count : ℕ} (hpos : 0 < count)
    (hbound : counts value + count < 65536) :
    Lists (palette.addCells value count) (update counts value (counts value + count)) := by
  unfold addCells
  cases hfind : palette.findIdx? fun entry => entry.1 = value with
  | some index =>
    obtain ⟨⟨found, n⟩, hentry, hkey⟩ := KeyedList.getElem?_of_findIdx? hfind
    obtain rfl : found = value := hkey
    obtain ⟨-, hcount⟩ := h.count_of_getElem? hentry
    refine h.modify hentry ?_ (by omega)
    rw [addU16, ← hcount, Nat.mod_eq_of_lt hbound]
  | none =>
    have hzero : counts value = 0 := by
      have hnone := KeyedList.find_of_findIdx?_eq_none hfind
      rw [h.find] at hnone
      by_contra hne
      rw [if_neg hne] at hnone
      cases hnone
    rw [hzero, Nat.zero_add]
    exact h.push hzero hpos

theorem lists_removeCell (h : Lists palette counts) (value : V) (hpos : 0 < counts value)
    (hbound : counts value < 65536) :
    Lists (palette.removeCell value) (update counts value (counts value - 1)) := by
  unfold removeCell
  cases hfind : palette.findIdx? fun entry => entry.1 = value with
  | none =>
    have hnone := KeyedList.find_of_findIdx?_eq_none hfind
    rw [h.find, if_neg hpos.ne'] at hnone
    cases hnone
  | some index =>
    obtain ⟨⟨found, n⟩, hentry, hkey⟩ := KeyedList.getElem?_of_findIdx? hfind
    obtain rfl : found = value := hkey
    obtain ⟨-, hcount⟩ := h.count_of_getElem? hentry
    have hpred : predU16 n = n - 1 := by
      rw [predU16]
      omega
    have hentry' : (palette.modify index fun entry => (entry.1, predU16 entry.2))[index]? =
        some (found, n - 1) := by
      rw [List.getElem?_modify_eq, hentry]
      simp [hpred]
    dsimp only
    rw [hentry', hcount]
    cases hlast : n - 1 with
    | zero => exact h.modify_swapRemove hentry (m := 0) (by simp [hpred, hlast])
    | succ m => exact h.modify hentry (by simp [hpred, hlast]) (Nat.succ_pos m)

/-- A run of equal values counts as often as its values do. -/
theorem lists_countRuns (h : Lists palette counts) (value : V) {runLen : ℕ} (hpos : 0 < runLen)
    {rest : List V}
    (hbound : ∀ v, counts v + (if v = value then runLen else 0) + rest.count v < 65536) :
    Lists (palette.countRuns value runLen rest)
      fun v => counts v + (if v = value then runLen else 0) + rest.count v := by
  induction rest generalizing palette counts value runLen with
  | nil =>
    have hvalue := hbound value
    rw [if_pos rfl, count_nil, Nat.add_zero] at hvalue
    have hrun : runLen % 65536 = runLen := Nat.mod_eq_of_lt (by omega)
    rw [countRuns, hrun]
    refine (lists_addCells h value hpos hvalue).congr fun v => ?_
    rw [count_nil, update_apply]
    by_cases heq : v = value
    · rw [if_pos heq, if_pos heq, heq, Nat.add_zero]
    · rw [if_neg heq, if_neg heq]
      rfl
  | cons next rest ih =>
    rw [countRuns]
    by_cases hnext : next = value
    · -- the run goes on
      have hcounts : ∀ v, counts v + (if v = value then runLen + 1 else 0) + rest.count v =
          counts v + (if v = value then runLen else 0) + (next :: rest).count v := by
        intro v
        rw [count_cons, hnext]
        by_cases heq : v = value
        · simp only [heq, if_true, beq_self_eq_true]
          omega
        · simp [heq, Ne.symm heq]
      rw [if_pos hnext]
      refine (ih h value (Nat.succ_pos runLen) fun v => ?_).congr fun v => (hcounts v).symm
      rw [hcounts]
      exact hbound v
    · -- the run ends and the next one starts
      have hvalue := hbound value
      rw [if_pos rfl] at hvalue
      have hrun : runLen % 65536 = runLen := Nat.mod_eq_of_lt (by omega)
      have hadded := lists_addCells h value hpos (by omega)
      have hcounts : ∀ v, update counts value (counts value + runLen) v +
          (if v = next then 1 else 0) + rest.count v =
            counts v + (if v = value then runLen else 0) + (next :: rest).count v := by
        intro v
        rw [count_cons, update_apply]
        by_cases heq : v = value
        · have hother : ¬v = next := fun h => hnext (h.symm.trans heq)
          simp [heq, hnext, Ne.symm hnext]
        · by_cases hsame : v = next
          · simp only [hsame, hnext, if_true, if_false, beq_self_eq_true]
            omega
          · simp [heq, hsame, Ne.symm hsame]
      rw [if_neg hnext, hrun]
      refine (ih hadded next Nat.one_pos fun v => ?_).congr fun v => (hcounts v).symm
      rw [hcounts]
      exact hbound v

theorem lists_ofValues {values : List V} (hlength : values.length < 65536) :
    Lists (ofValues values) fun v => values.count v := by
  cases values with
  | nil => exact CountList.lists_nil
  | cons first rest =>
    have hcounts : ∀ v, (0 + if v = first then 1 else 0) + rest.count v =
        (first :: rest).count v := by
      intro v
      rw [count_cons]
      by_cases heq : v = first
      · simp only [heq, if_true, beq_self_eq_true]
        omega
      · simp [heq, Ne.symm heq]
    refine (lists_countRuns CountList.lists_nil first Nat.one_pos fun v => ?_).congr
      fun v => (hcounts v).symm
    rw [hcounts]
    exact count_le_length.trans_lt hlength

end Palette

namespace PalettedContainer

/-- A container stands for a cube. A palette has at least two entries. -/
def Represents (container : PalettedContainer V dim) (contents : Cube V dim) : Prop :=
  match container with
  | .homogeneous value => ∀ pos, contents pos = value
  | .heterogeneous data =>
    data.cube = contents ∧ Lists data.palette (fun v => contents.values.count v) ∧
      2 ≤ data.palette.length
  | .building cube => cube = contents

omit [DecidableEq V] in
theorem mem_values (contents : Cube V dim) (pos : CubePos dim) : contents pos ∈ contents.values :=
  mem_map.mpr ⟨pos, CubePos.mem_all pos, rfl⟩

variable {palette : Palette V}

theorem exists_index {contents : Cube V dim} (h : Lists palette fun v => contents.values.count v)
    {value : V} (hvalue : value ∈ contents.values) : ∃ i n : ℕ, palette[i]? = some (value, n) := by
  have hmem : (value, contents.values.count value) ∈ palette :=
    h.mem_iff.mpr ⟨count_pos_iff.mpr hvalue, rfl⟩
  obtain ⟨i, hi⟩ := mem_iff_getElem?.mp hmem
  exact ⟨i, _, hi⟩

theorem mem_values_of_mem {contents : Cube V dim}
    (h : Lists palette fun v => contents.values.count v) {entry : V × ℕ}
    (hentry : entry ∈ palette) : entry.1 ∈ contents.values := by
  obtain ⟨hpos, hcount⟩ := h.mem_iff.mp hentry
  rw [← hcount] at hpos
  exact count_pos_iff.mp hpos

theorem represents_ofPalette [NeZero dim] {contents : Cube V dim}
    (h : Lists palette fun v => contents.values.count v) :
    (ofPalette contents palette).Represents contents := by
  have hlisted : ∀ pos, ∃ n, (contents pos, n) ∈ palette := fun pos =>
    ⟨_, h.mem_iff.mpr ⟨count_pos_iff.mpr (mem_values contents pos), rfl⟩⟩
  rcases palette with - | ⟨⟨value, n⟩, - | ⟨second, rest⟩⟩
  · obtain ⟨n, hmem⟩ := hlisted (0, 0, 0)
    cases hmem
  · intro pos
    obtain ⟨m, hmem⟩ := hlisted pos
    exact (Prod.mk.inj (mem_singleton.mp hmem)).1
  · refine ⟨rfl, h, ?_⟩
    simp only [length_cons]
    omega

theorem represents_fromCube [NeZero dim] (hvolume : dim ^ 3 < 65536) (cube : Cube V dim) :
    (fromCube cube).Represents cube := by
  apply represents_ofPalette
  apply Palette.lists_ofValues
  rw [Cube.values, length_map, CubePos.length_all, ← pow_three']
  exact hvolume

section Operations

variable [NeZero dim] {container : PalettedContainer V dim} {contents : Cube V dim}

omit [NeZero dim] in
theorem Represents.get_eq (h : container.Represents contents) (pos : CubePos dim) :
    container.get pos = contents pos := by
  cases container with
  | homogeneous value => exact (h pos).symm
  | heterogeneous data => exact congrFun h.1 pos
  | building cube => exact congrFun h pos

omit [NeZero dim] in
theorem volume_le (hvolume : dim ^ 3 < 65536) : dim ^ 3 ≤ 64000 := by
  have hdim : dim ≤ 40 := by
    by_contra hlarge
    have hpow : 41 ^ 3 ≤ dim ^ 3 := Nat.pow_le_pow_left (by omega) 3
    omega
  exact Nat.pow_le_pow_left hdim 3

omit [NeZero dim] in
theorem lists_set {data : HeterogeneousPalette V dim} (hvolume : dim ^ 3 < 65536)
    (h : Lists data.palette fun v => data.cube.values.count v) (pos : CubePos dim) (value : V) :
    Lists (data.set pos value).2.palette
      fun v => (Cube.values (update data.cube pos value)).count v := by
  have hle : ∀ v, data.cube.values.count v ≤ 64000 := by
    intro v
    refine count_le_length.trans ?_
    rw [Cube.values, length_map, CubePos.length_all, ← pow_three']
    exact volume_le hvolume
  have hold : 0 < data.cube.values.count (data.cube pos) :=
    count_pos_iff.mpr (mem_values data.cube pos)
  have hvalue := hle value
  have hadded := Palette.lists_addCells h value Nat.one_pos (by omega)
  have hcount : ∀ v, update (fun v => data.cube.values.count v) value
      (data.cube.values.count value + 1) v =
        data.cube.values.count v + if value = v then 1 else 0 := by
    intro v
    rw [update_apply]
    by_cases heq : v = value
    · rw [if_pos heq, if_pos heq.symm, heq]
    · rw [if_neg heq, if_neg (Ne.symm heq)]
      rfl
  have hremoved := Palette.lists_removeCell hadded (data.cube pos)
    (by rw [hcount]; omega)
    (by rw [hcount]; have := hle (data.cube pos); split_ifs <;> omega)
  refine hremoved.congr fun v => ?_
  have hupdate := Cube.count_values_update data.cube pos value v
  rw [update_apply, hcount, hcount]
  by_cases heq : v = data.cube pos
  · subst heq
    rw [if_pos rfl] at hupdate ⊢
    omega
  · rw [if_neg (Ne.symm heq)] at hupdate
    rw [if_neg heq]
    omega

theorem Represents.set (hvolume : dim ^ 3 < 65536) (h : container.Represents contents)
    (pos : CubePos dim) (value : V) :
    (container.set pos value).1 = contents pos ∧
      (container.set pos value).2.Represents (update contents pos value) := by
  cases container with
  | homogeneous original =>
    have hcontents : contents = fun _ => original := funext h
    rw [PalettedContainer.set]
    split_ifs with heq
    · refine ⟨(h pos).symm, ?_⟩
      rw [hcontents, heq, update_eq_self]
      exact fun _ => rfl
    · refine ⟨(h pos).symm, ?_⟩
      rw [hcontents]
      exact represents_fromCube hvolume _
  | heterogeneous data =>
    obtain ⟨hcube, hlists, -⟩ := h
    subst hcube
    exact ⟨rfl, represents_ofPalette (lists_set hvolume hlists pos value)⟩
  | building cube =>
    obtain rfl : cube = contents := h
    exact ⟨rfl, rfl⟩

omit [NeZero dim] in
theorem Represents.enterBuildingMode (h : container.Represents contents) :
    container.enterBuildingMode.Represents contents := by
  cases container with
  | homogeneous value => exact (funext h).symm
  | heterogeneous data => exact h.1
  | building cube => exact h

theorem Represents.finalizeBuilding (hvolume : dim ^ 3 < 65536)
    (h : container.Represents contents) : container.finalizeBuilding.Represents contents := by
  cases container with
  | homogeneous value | heterogeneous data => exact h
  | building cube =>
    obtain rfl : cube = contents := h
    exact represents_fromCube hvolume cube

end Operations

/-- The containers that sequences of operations lead to, with the value last set at each cell. -/
inductive Reached : PalettedContainer V dim → Cube V dim → Prop
  | new (value : V) : Reached (.homogeneous value) fun _ => value
  | fromCube (cube : Cube V dim) : Reached (fromCube cube) cube
  | set {container : PalettedContainer V dim} {contents : Cube V dim}
      (h : Reached container contents) (pos : CubePos dim) (value : V) :
      Reached (container.set pos value).2 (update contents pos value)
  | enterBuildingMode {container : PalettedContainer V dim} {contents : Cube V dim}
      (h : Reached container contents) : Reached container.enterBuildingMode contents
  | finalizeBuilding {container : PalettedContainer V dim} {contents : Cube V dim}
      (h : Reached container contents) : Reached container.finalizeBuilding contents

variable [NeZero dim] {container : PalettedContainer V dim} {contents : Cube V dim}

theorem Reached.represents (hvolume : dim ^ 3 < 65536) (h : Reached container contents) :
    container.Represents contents := by
  induction h with
  | new value => exact fun _ => rfl
  | fromCube cube => exact represents_fromCube hvolume cube
  | set _ pos value ih => exact (ih.set hvolume pos value).2
  | enterBuildingMode _ ih => exact ih.enterBuildingMode
  | finalizeBuilding _ ih => exact ih.finalizeBuilding hvolume

/-- After any operations a container reads as it was last set, a set returns what it replaces, a
palette lists exactly the values of the cells with the number of cells that hold them, at least two
of them, and a cube of one value has no palette. -/
theorem reached_contents (hvolume : dim ^ 3 < 2 ^ 16) (h : Reached container contents) :
    (∀ pos, container.get pos = contents pos) ∧
    (∀ pos value, (container.set pos value).1 = contents pos) ∧
    (∀ data, container = .heterogeneous data →
      (data.palette.map Prod.fst).Nodup ∧
      (∀ value count, (value, count) ∈ data.palette ↔
        0 < count ∧ (Finset.univ.filter fun pos => contents pos = value).card = count) ∧
      2 ≤ data.palette.length) ∧
    ∀ value, (∀ pos, contents pos = value) →
      container = .homogeneous value ∨ ∃ cube, container = .building cube := by
  have hrepresents := h.represents hvolume
  refine ⟨hrepresents.get_eq, fun pos value => (hrepresents.set hvolume pos value).1, ?_, ?_⟩
  · rintro data rfl
    obtain ⟨-, hlists, htwo⟩ := hrepresents
    refine ⟨hlists.distinct, ?_, htwo⟩
    intro value count
    rw [hlists.mem_iff, Cube.count_values]
  · intro value hvalue
    cases container with
    | homogeneous original =>
      left
      rw [← hvalue (0, 0, 0), hrepresents (0, 0, 0)]
    | building cube => exact .inr ⟨cube, rfl⟩
    | heterogeneous data =>
      -- two entries would be two values
      obtain ⟨-, hlists, htwo⟩ := hrepresents
      have hall : ∀ entry ∈ data.palette, entry.1 = value := by
        rintro ⟨listed, n⟩ hmem
        obtain ⟨hpos, hcount⟩ := hlists.mem_iff.mp hmem
        have hcell : listed ∈ contents.values := count_pos_iff.mp (hcount ▸ hpos)
        obtain ⟨pos, -, hpos⟩ := mem_map.mp hcell
        rw [← hpos, hvalue pos]
      have hdistinct := hlists.distinct
      rcases hpalette : data.palette with - | ⟨first, - | ⟨second, rest⟩⟩
      · rw [hpalette] at htwo
        cases htwo
      · rw [hpalette] at htwo
        exact absurd htwo (by simp)
      · rw [hpalette] at hdistinct hall
        have hsame : first.1 = second.1 := by
          rw [hall first mem_cons_self,
            hall second (mem_cons_of_mem _ mem_cons_self)]
        exact absurd (mem_cons.mpr (.inl hsame)) (nodup_cons.mp hdistinct).1

/-- One cell of a cube of zeros is set. -/
theorem reached_contents_oneCell : ∃ (container : PalettedContainer ℕ 4) (contents : Cube ℕ 4),
    4 ^ 3 < 2 ^ 16 ∧ Reached container contents ∧ container.get (0, 0, 0) = 7 ∧
      container.get (1, 2, 3) = 0 := by
  have hnew : Reached (.homogeneous 0 : PalettedContainer ℕ 4) fun _ => 0 := .new 0
  have hreached := hnew.set (0, 0, 0) 7
  have hget := (reached_contents (by decide) hreached).1
  refine ⟨_, _, by decide, hreached, ?_, ?_⟩
  · rw [hget]
    rfl
  · rw [hget]
    rfl

/-- Looking at the palette alone is exact: it finds a match only if some cell matches. -/
theorem reached_maybeHas (hvolume : dim ^ 3 < 2 ^ 16) (h : Reached container contents)
    (predicate : V → Bool) :
    container.maybeHas predicate = true ↔ ∃ pos, predicate (contents pos) = true := by
  have hrepresents := h.represents hvolume
  cases container with
  | homogeneous value => simp [maybeHas, show ∀ pos, contents pos = value from hrepresents]
  | heterogeneous data =>
    obtain ⟨-, hlists, -⟩ := hrepresents
    rw [maybeHas, any_eq_true]
    constructor
    · rintro ⟨entry, hentry, hmatch⟩
      obtain ⟨pos, -, hpos⟩ := mem_map.mp (mem_values_of_mem hlists hentry)
      exact ⟨pos, hpos ▸ hmatch⟩
    · rintro ⟨pos, hmatch⟩
      exact ⟨_, hlists.mem_iff.mpr ⟨count_pos_iff.mpr (mem_values contents pos), rfl⟩, hmatch⟩
  | building cube =>
    cases hrepresents
    simp [maybeHas, Cube.values, CubePos.mem_all]

theorem reached_maybeHas_oneCell :
    ((PalettedContainer.homogeneous 0 : PalettedContainer ℕ 4).set (0, 0, 0) 7).2.maybeHas (· = 7) =
      true := by
  have hnew : Reached (.homogeneous 0 : PalettedContainer ℕ 4) fun _ => 0 := .new 0
  exact (reached_maybeHas (by decide) (hnew.set (0, 0, 0) 7) _).mpr ⟨(0, 0, 0), rfl⟩

end PalettedContainer

end Steel

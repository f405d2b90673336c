import Mathlib.Data.List.Basic

/-!
# Random-access files

A file is the list of its bytes. Writing past the end fills the gap with zeros; reading a range
succeeds when all of it is there. What a read returns is decided byte by byte, so a write matters
only to the reads it overlaps.
-/

namespace Steel

abbrev ByteFile := List UInt8

namespace ByteFile

def writeAt (file : ByteFile) (offset : ℕ) (data : List UInt8) : ByteFile :=
  if data = [] then file
  else
    file.take offset ++ List.replicate (offset - file.length) 0 ++ data ++
      file.drop (offset + data.length)

def readExact (file : ByteFile) (offset size : ℕ) : Option (List UInt8) :=
  let data := (file.drop offset).take size
  if data.length = size then some data else none

variable {file : ByteFile} {offset : ℕ} {data : List UInt8} {i : ℕ}

theorem getElem?_writeAt_of_lt (hlt : i < offset) (hi : i < file.length) :
    (writeAt file offset data)[i]? = file[i]? := by
  unfold writeAt
  split_ifs with hdata
  · rfl
  · rw [List.append_assoc, List.append_assoc, List.getElem?_append_left (by simp; omega),
      List.getElem?_take_of_lt hlt]

theorem getElem?_writeAt_of_mem (hi : i < data.length) :
    (writeAt file offset data)[offset + i]? = data[i]? := by
  have hdata : data ≠ [] := List.ne_nil_of_length_pos (by omega)
  have hlength : (file.take offset ++ List.replicate (offset - file.length) (0 : UInt8)).length =
      offset := by
    simp
    omega
  unfold writeAt
  rw [if_neg hdata, List.append_assoc _ data, List.getElem?_append_right (by omega), hlength,
    Nat.add_sub_cancel_left, List.getElem?_append_left hi]

theorem getElem?_writeAt_of_ge (hge : offset + data.length ≤ i) :
    (writeAt file offset data)[i]? = file[i]? := by
  unfold writeAt
  split_ifs with hdata
  · rfl
  · have hlength : (file.take offset ++ List.replicate (offset - file.length) (0 : UInt8) ++
        data).length = offset + data.length := by
      simp
      omega
    rw [List.getElem?_append_right (by omega), hlength, List.getElem?_drop,
      Nat.add_sub_cancel' hge]

theorem getElem?_writeAt_of_outside (hi : i < file.length)
    (hout : i < offset ∨ offset + data.length ≤ i) :
    (writeAt file offset data)[i]? = file[i]? := by
  rcases hout with hlt | hge
  · exact getElem?_writeAt_of_lt hlt hi
  · exact getElem?_writeAt_of_ge hge

theorem length_writeAt (hdata : data ≠ []) :
    (writeAt file offset data).length = max file.length (offset + data.length) := by
  unfold writeAt
  rw [if_neg hdata]
  simp
  omega

theorem length_le_writeAt : file.length ≤ (writeAt file offset data).length := by
  by_cases hdata : data = []
  · have hsame : writeAt file offset data = file := if_pos hdata
    exact Nat.le_of_eq (congrArg List.length hsame.symm)
  · rw [length_writeAt hdata]
    exact Nat.le_max_left _ _

variable {size : ℕ}

theorem readExact_eq_some {read : List UInt8} :
    readExact file offset size = some read ↔
      read.length = size ∧ ∀ i, i < size → file[offset + i]? = read[i]? := by
  have hget : ∀ i, i < size → ((file.drop offset).take size)[i]? = file[offset + i]? := by
    intro i hi
    rw [List.getElem?_take_of_lt hi, List.getElem?_drop]
  unfold readExact
  dsimp only
  constructor
  · intro h
    split_ifs at h with hlength
    cases h
    exact ⟨hlength, fun i hi => (hget i hi).symm⟩
  · rintro ⟨hlength, hbytes⟩
    have heq : (file.drop offset).take size = read := by
      apply List.ext_getElem?
      intro i
      by_cases hi : i < size
      · rw [hget i hi, hbytes i hi]
      · rw [List.getElem?_eq_none (by simp; omega), List.getElem?_eq_none (by omega)]
    rw [heq, if_pos hlength]

theorem readExact_writeAt_self (hsize : size ≤ data.length) :
    readExact (writeAt file offset data) offset size = some (data.take size) := by
  rw [readExact_eq_some]
  refine ⟨by rw [List.length_take, Nat.min_eq_left hsize], ?_⟩
  intro i hi
  rw [getElem?_writeAt_of_mem (by omega), List.getElem?_take_of_lt hi]

theorem readExact_writeAt_of_disjoint {start : ℕ} {read : List UInt8}
    (hread : readExact file start size = some read)
    (hout : start + size ≤ offset ∨ offset + data.length ≤ start) :
    readExact (writeAt file offset data) start size = some read := by
  rw [readExact_eq_some] at hread ⊢
  refine ⟨hread.1, ?_⟩
  intro i hi
  rw [← hread.2 i hi]
  apply getElem?_writeAt_of_outside
  · have hsome : file[start + i]? = some (read.get ⟨i, by omega⟩) := by
      rw [hread.2 i hi, List.getElem?_eq_getElem (by omega)]
      rfl
    exact (List.getElem?_eq_some_iff.mp hsome).1
  · omega

end ByteFile

end Steel

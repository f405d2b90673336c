import Steel.Lib.Vec
import Steel.Proof.RegionSectors

/-!
# Runs of a region handle

A handle starts from a new file or from one that passed validation. Saves, clears and table writes
then keep every chunk's data in its own sectors and the opening of the file readable, so what was
saved last for a chunk is what its sectors hold.
-/

namespace Steel

open List Function

/-!
### The chunk table as bytes

An entry survives serialization if its offset fits 32 bits and its size 24. A table is made of
blocks of eight bytes, so each entry can be found in a file on its own.
-/

section Table

open Option

namespace ChunkEntry

theorem length_toBytes (entry : ChunkEntry) : entry.toBytes.length = 8 := by
  simp [toBytes]

theorem take_toBytes (entry : ChunkEntry) :
    entry.toBytes.take 4 = toLeBytes 4 entry.sectorOffset := by
  rw [toBytes, append_assoc, take_left' (length_toLeBytes 4 _)]

theorem drop_toBytes (entry : ChunkEntry) :
    (entry.toBytes.drop 4).take 3 = toLeBytes 3 entry.sizeBytes := by
  rw [toBytes, append_assoc, drop_left' (length_toLeBytes 4 _),
    toLeBytes_take (by omega), take_left' (length_toLeBytes 3 _)]

theorem getD_toBytes (entry : ChunkEntry) :
    entry.toBytes.getD 7 0 = UInt8.ofNat entry.status.getIndex := by
  rw [toBytes, getD_eq_getElem?_getD, List.getElem?_append_right (by simp)]
  simp

theorem fromLeBytes_append_zero (bytes : List UInt8) :
    fromLeBytes (bytes ++ [0]) = fromLeBytes bytes := by
  induction bytes with
  | nil => rfl
  | cons byte rest ih => rw [cons_append, fromLeBytes, ih, fromLeBytes]

theorem fromBytes_toBytes (entry : ChunkEntry) : fromBytes entry.toBytes =
    some { sectorOffset := entry.sectorOffset % 4294967296
           sizeBytes := entry.sizeBytes % 16777216
           status := if entry.sectorOffset % 4294967296 = 0 then .empty else entry.status } := by
  have hstatus : ChunkStatus.fromIndex (UInt8.ofNat entry.status.getIndex).toNat =
      some entry.status := by
    have hlt := ChunkStatus.getIndex_lt entry.status
    have htoNat : (UInt8.ofNat entry.status.getIndex).toNat = entry.status.getIndex := by
      simp only [UInt8.toNat_ofNat']
      omega
    rw [htoNat, ChunkStatus.fromIndex_getIndex]
  unfold fromBytes
  rw [take_toBytes, drop_toBytes, getD_toBytes, fromLeBytes_append_zero, fromLeBytes_toLeBytes,
    fromLeBytes_toLeBytes, hstatus]
  norm_num
  split_ifs <;> rfl

/-- The fields of an entry fit into its eight bytes, and a missing chunk has no status. -/
structure Fits (entry : ChunkEntry) : Prop where
  offset : entry.sectorOffset < 4294967296
  size : entry.sizeBytes < 16777216
  status : entry.exists' = false → entry.status = .empty

theorem fits_empty : empty.Fits := ⟨by decide, by decide, fun _ => rfl⟩

variable {entry : ChunkEntry}

theorem fits_of_fromBytes {bytes : List UInt8}
    (h : fromBytes bytes = some entry) : entry.Fits := by
  have hbound : ∀ {part : List UInt8} {width : ℕ}, part.length ≤ width →
      fromLeBytes part < 256 ^ width := fun hlength =>
    (fromLeBytes_lt _).trans_le (Nat.pow_le_pow_right (by decide) hlength)
  have hoffset : fromLeBytes (bytes.take 4) < 256 ^ 4 := hbound (by simp)
  have hsize : fromLeBytes ((bytes.drop 4).take 3) < 256 ^ 3 := hbound (by simp)
  unfold fromBytes at h
  rw [fromLeBytes_append_zero] at h
  dsimp only at h
  split_ifs at h with hzero
  · cases h
    exact ⟨hoffset, hsize, fun _ => rfl⟩
  · obtain ⟨status, -, hstatus⟩ := bind_eq_some_iff.mp h
    cases hstatus
    refine ⟨hoffset, hsize, ?_⟩
    intro hmissing
    simp [exists', hzero] at hmissing

theorem Fits.fromBytes_toBytes (h : entry.Fits) :
    fromBytes entry.toBytes = some entry := by
  rw [ChunkEntry.fromBytes_toBytes, Nat.mod_eq_of_lt h.offset, Nat.mod_eq_of_lt h.size]
  congr 1
  rcases entry with ⟨offset, size, status⟩
  simp only [mk.injEq, true_and]
  split_ifs with hzero
  · exact (h.status (by simp [exists', hzero])).symm
  · rfl

end ChunkEntry

namespace RegionHeader

theorem length_toBytes (header : RegionHeader) : header.toBytes.length = chunkTableSize := by
  unfold toBytes
  rw [Vec.length_flatMap_const _ fun index => ChunkEntry.length_toBytes (header.entries index),
    length_finRange, chunksPerRegion, chunkTableSize]

theorem entryBytes_toBytes (header : RegionHeader) (index : ChunkIndex) :
    entryBytes header.toBytes index = (header.entries index).toBytes := by
  unfold entryBytes toBytes
  apply Vec.take_drop_flatMap _ fun other => ChunkEntry.length_toBytes (header.entries other)
  rw [List.getElem?_eq_getElem (by simp)]
  simp

variable {header : RegionHeader}

theorem fromBytes_eq_ok {bytes : List UInt8} :
    fromBytes bytes = .ok header ↔
      ∀ index, ChunkEntry.fromBytes (entryBytes bytes index) = some (header.entries index) := by
  unfold fromBytes
  cases hfind : (List.finRange chunksPerRegion).find? fun index =>
      (ChunkEntry.fromBytes (entryBytes bytes index)).isNone with
  | some index =>
    have hnone := List.find?_some hfind
    simp only [isNone_iff_eq_none] at hnone
    simp only [reduceCtorEq, false_iff]
    intro h
    rw [h index] at hnone
    cases hnone
  | none =>
    have hsome : ∀ index, ∃ entry, ChunkEntry.fromBytes (entryBytes bytes index) =
        some entry := by
      intro index
      have hnot := List.find?_eq_none.mp hfind index (mem_finRange index)
      rw [← isSome_iff_exists, isSome_iff_ne_none]
      simpa using hnot
    simp only [Except.ok.injEq]
    constructor
    · rintro rfl index
      obtain ⟨entry, hentry⟩ := hsome index
      change _ = some ((ChunkEntry.fromBytes (entryBytes bytes index)).getD .empty)
      rw [hentry, getD_some]
    · intro h
      rcases header with ⟨entries⟩
      apply congrArg RegionHeader.mk
      funext index
      rw [h index, getD_some]

theorem fits_setEntry (h : ∀ index, (header.entries index).Fits)
    (index : ChunkIndex) {entry : ChunkEntry} (hentry : entry.Fits) :
    ∀ other, ((header.setEntry index entry).entries other).Fits := by
  intro other
  by_cases heq : other = index
  · rw [heq, setEntry_self]
    exact hentry
  · rw [setEntry_of_ne _ heq]
    exact h other

theorem fromBytes_toBytes_of_fits
    (h : ∀ index, (header.entries index).Fits) : fromBytes header.toBytes = .ok header := by
  rw [fromBytes_eq_ok]
  intro index
  rw [entryBytes_toBytes]
  exact (h index).fromBytes_toBytes

end RegionHeader

end Table

namespace RegionHandle

def heldPayload (handle : RegionHandle) (index : ChunkIndex) : Option (List UInt8) :=
  let entry := handle.header.entries index
  if entry.exists' then (handle.readChunkData entry.sectorOffset entry.sizeBytes).toOption else none

/-- Handles with the payload that was last saved for each chunk. Saved payloads are zstd frames,
which are never empty, and meet the given condition. -/
inductive Reached (allowed : List UInt8 → Prop) :
    RegionHandle → (ChunkIndex → Option (List UInt8)) → Prop
  | created : Reached allowed created fun _ => none
  | opened {file : ByteFile} {handle : RegionHandle} (hopen : openFile file = .ok (.opened handle))
      (hfile : divCeil file.length sectorSize < 4294967296) :
      Reached allowed handle handle.heldPayload
  | saved {handle : RegionHandle} {payloads : ChunkIndex → Option (List UInt8)} (index : ChunkIndex)
      (status : ChunkStatus) {compressed : List UInt8} (h : Reached allowed handle payloads)
      (hencode : encodeChunk compressed = .ok compressed) (hframe : compressed ≠ [])
      (hallowed : allowed compressed)
      (hbound : handle.placement index (divCeil compressed.length sectorSize) +
        divCeil compressed.length sectorSize < 4294967296) :
      Reached allowed (handle.storeChunk index status compressed none).2
        (update payloads index (some compressed))
  | cleared {handle handle' : RegionHandle} {payloads : ChunkIndex → Option (List UInt8)}
      {index : ChunkIndex} {expected : ChunkEntry} {fault : WriteFault}
      (h : Reached allowed handle payloads)
      (hclear : handle.clearEntry index expected fault = (.ok true, handle')) :
      Reached allowed handle' (update payloads index none)
  | notCleared {handle handle' : RegionHandle} {payloads : ChunkIndex → Option (List UInt8)}
      {index : ChunkIndex} {expected : ChunkEntry} {fault : WriteFault}
      {result : Except IoError Bool} (h : Reached allowed handle payloads)
      (hclear : handle.clearEntry index expected fault = (result, handle'))
      (hresult : result ≠ .ok true) : Reached allowed handle' payloads
  | headerWritten {handle : RegionHandle} {payloads : ChunkIndex → Option (List UInt8)}
      (fault : WriteFault) (h : Reached allowed handle payloads) :
      Reached allowed (handle.writeHeader fault).2 payloads
  | counted {handle : RegionHandle} {payloads : ChunkIndex → Option (List UInt8)}
      (loadedChunkCount : ℕ) (headerDirty : Bool) (h : Reached allowed handle payloads) :
      Reached allowed { handle with loadedChunkCount, headerDirty } payloads

/-- The file opens with this version's magic number and has room for the whole table. -/
structure WellOpened (file : ByteFile) : Prop where
  table : fileHeaderSize + chunkTableSize ≤ file.length
  opening : ∃ headerBytes, file.readExact 0 fileHeaderSize = some headerBytes ∧
    headerBytes.take 4 = regionMagic ∧ fromLeBytes ((headerBytes.drop 4).take 2) = formatVersion

/-- What holds between the operations on a handle. -/
structure Intact (handle : RegionHandle) (payloads : ChunkIndex → Option (List UInt8)) : Prop where
  placed : Placed handle.header handle.fileSectors
  opened : WellOpened handle.file
  fileSectors_eq : handle.fileSectors = divCeil handle.file.length sectorSize
  fileSectors_lt : handle.fileSectors < 4294967296
  held : ∀ index payload, payloads index = some payload →
    (handle.header.entries index).exists' = true ∧
      (handle.header.entries index).sizeBytes = payload.length ∧
      handle.file.readExact ((handle.header.entries index).sectorOffset * sectorSize)
        payload.length = some payload

/-! ### Opening -/

variable {file : ByteFile}

theorem openFile_eq_opened {handle : RegionHandle} :
    openFile file = .ok (.opened handle) ↔ ∃ headerBytes tableBytes header,
      file.readExact 0 fileHeaderSize = some headerBytes ∧
      headerBytes.take 4 = regionMagic ∧
      fromLeBytes ((headerBytes.drop 4).take 2) = formatVersion ∧
      file.readExact fileHeaderSize chunkTableSize = some tableBytes ∧
      RegionHeader.fromBytes tableBytes = .ok header ∧
      validateRegionEntries header (divCeil file.length sectorSize % 4294967296) = .ok () ∧
      handle = { file, header, loadedChunkCount := 0, headerDirty := false,
                 fileSectors := divCeil file.length sectorSize % 4294967296 } := by
  unfold openFile
  cases hopening : file.readExact 0 fileHeaderSize with
  | none => simp [bind, Except.bind]
  | some headerBytes =>
    by_cases hmagic : headerBytes.take 4 = regionMagic
    swap
    · simp [bind, Except.bind, hmagic]
    by_cases hversion : fromLeBytes ((headerBytes.drop 4).take 2) = formatVersion
    swap
    · simp [bind, Except.bind, hmagic, hversion, pure, Except.pure]
    cases htable : file.readExact fileHeaderSize chunkTableSize with
    | none => simp [bind, Except.bind, hmagic, hversion]
    | some tableBytes =>
      cases hheader : RegionHeader.fromBytes tableBytes with
      | error index =>
        simp [bind, Except.bind, hmagic, hversion, hheader, Except.mapError]
      | ok header =>
        cases hvalid : validateRegionEntries header
            (divCeil file.length sectorSize % 4294967296) with
        | error error =>
          simp [bind, Except.bind, hmagic, hversion, hheader, Except.mapError, hvalid]
        | ok result =>
          simp [bind, Except.bind, hmagic, hversion, pure, Except.pure, hheader,
            Except.mapError, hvalid, eq_comm]

theorem openFile_of_invalid {headerBytes tableBytes : List UInt8}
    {header : RegionHeader} {error : IoError}
    (hopening : file.readExact 0 fileHeaderSize = some headerBytes)
    (hmagic : headerBytes.take 4 = regionMagic)
    (hversion : fromLeBytes ((headerBytes.drop 4).take 2) = formatVersion)
    (htable : file.readExact fileHeaderSize chunkTableSize = some tableBytes)
    (hheader : RegionHeader.fromBytes tableBytes = .ok header)
    (hinvalid : validateRegionEntries header (divCeil file.length sectorSize % 4294967296) =
      .error error) : openFile file = .error error := by
  unfold openFile
  simp [bind, Except.bind, hopening, hmagic, hversion, htable, hheader, Except.mapError, hinvalid]

variable {offset : ℕ} {data : List UInt8} {result : Except IoError Bool}
  {allowed : List UInt8 → Prop}

theorem readExact_some_length {size : ℕ} {read : List UInt8} (hpos : 0 < size)
    (h : file.readExact offset size = some read) : offset + size ≤ file.length := by
  rw [ByteFile.readExact_eq_some] at h
  have hlast := h.2 (size - 1) (by omega)
  rw [List.getElem?_eq_getElem (by omega : size - 1 < read.length)] at hlast
  have := (List.getElem?_eq_some_iff.mp hlast).1
  omega

variable {handle : RegionHandle} {payloads : ChunkIndex → Option (List UInt8)}

theorem created_intact : created.Intact fun _ => none := by
  have hlength : emptyFile.length = 8200 := by
    rw [emptyFile, length_append, RegionHeader.length_toBytes]
    rfl
  have hmissing : ∀ index, (RegionHeader.new.entries index).exists' = false := fun _ => rfl
  refine ⟨⟨?_, ?_, ?_, ?_⟩, ⟨?_, ?_⟩, ?_, by decide, ?_⟩
  · intro index hindex
    cases hindex
  · intro index hindex
    cases hindex
  · intro index hindex
    cases hindex
  · intro index other _ hindex
    cases hindex
  · change _ ≤ emptyFile.length
    rw [hlength]
    decide
  · refine ⟨fileHeaderBytes, ?_, by decide, by decide⟩
    change ByteFile.readExact (fileHeaderBytes ++ _) 0 fileHeaderSize = _
    unfold ByteFile.readExact
    rw [drop_zero, take_left' (by rfl : fileHeaderBytes.length = fileHeaderSize)]
    rfl
  · change _ = divCeil emptyFile.length sectorSize
    rw [hlength]
    rfl
  · intro index payload hpayload
    cases hpayload

theorem opened_intact (hopen : openFile file = .ok (.opened handle))
    (hfile : divCeil file.length sectorSize < 4294967296) :
    handle.Intact handle.heldPayload := by
  obtain ⟨headerBytes, tableBytes, header, hopening, hmagic, hversion, htable, -, hvalid, rfl⟩ :=
    openFile_eq_opened.mp hopen
  rw [Nat.mod_eq_of_lt hfile] at hvalid ⊢
  refine ⟨(validateRegionEntries_eq_ok hfile).mp hvalid, ⟨?_, ?_⟩, rfl, hfile, ?_⟩
  · exact readExact_some_length (by decide) htable
  · exact ⟨headerBytes, hopening, hmagic, hversion⟩
  · intro index payload hpayload
    simp only [heldPayload, readChunkData] at hpayload ⊢
    split_ifs at hpayload with hexists
    cases hread : file.readExact ((header.entries index).sectorOffset * sectorSize)
        (header.entries index).sizeBytes with
    | none =>
      rw [hread] at hpayload
      cases hpayload
    | some read =>
      rw [hread] at hpayload
      obtain rfl : read = payload := Option.some.inj hpayload
      have hlength := (ByteFile.readExact_eq_some.mp hread).1
      exact ⟨hexists, hlength.symm, by rw [hlength, hread]⟩

/-! ### Writing -/

theorem WellOpened.writeAt (h : WellOpened file) (hoffset : fileHeaderSize ≤ offset) :
    WellOpened (file.writeAt offset data) := by
  obtain ⟨headerBytes, hopening, hvalid⟩ := h.opening
  refine ⟨h.table.trans ByteFile.length_le_writeAt, headerBytes, ?_, hvalid⟩
  apply ByteFile.readExact_writeAt_of_disjoint hopening
  left
  omega

theorem Intact.tableWritten (h : handle.Intact payloads) (hdata : data.length ≤ chunkTableSize) :
    ({ handle with file := handle.file.writeAt fileHeaderSize data }).Intact payloads := by
  have hlength : (handle.file.writeAt fileHeaderSize data).length = handle.file.length := by
    have htable := h.opened.table
    by_cases hempty : data = []
    · rw [ByteFile.writeAt, if_pos hempty]
    · rw [ByteFile.length_writeAt hempty]
      omega
  refine ⟨h.placed, h.opened.writeAt le_rfl, ?_, h.fileSectors_lt, ?_⟩
  · rw [h.fileSectors_eq]
    change _ = divCeil (handle.file.writeAt fileHeaderSize data).length sectorSize
    rw [hlength]
  · intro index payload hpayload
    obtain ⟨hexists, hsize, hread⟩ := h.held index payload hpayload
    refine ⟨hexists, hsize, ?_⟩
    apply ByteFile.readExact_writeAt_of_disjoint hread
    right
    have hstart := h.placed.start index hexists
    simp only [firstDataSector, fileHeaderSize, chunkTableSize, sectorSize] at hstart hdata ⊢
    omega

theorem Intact.writeHeader (h : handle.Intact payloads) (fault : WriteFault) :
    (handle.writeHeader fault).2.Intact payloads := by
  cases fault with
  | none => exact h.tableWritten (RegionHeader.length_toBytes _).le
  | some persisted =>
    apply h.tableWritten
    rw [length_take, RegionHeader.length_toBytes]
    exact Nat.min_le_right _ _

theorem Intact.counted (h : handle.Intact payloads) (loadedChunkCount : ℕ) (headerDirty : Bool) :
    ({ handle with loadedChunkCount, headerDirty }).Intact payloads :=
  ⟨h.placed, h.opened, h.fileSectors_eq, h.fileSectors_lt, h.held⟩

/-! ### Clearing -/

theorem Intact.entryCleared (h : handle.Intact payloads) (index : ChunkIndex) :
    ({ handle with header := handle.header.setEntry index .empty }).Intact
      (update payloads index none) := by
  refine ⟨h.placed.setEntry le_rfl index ?_, h.opened, h.fileSectors_eq, h.fileSectors_lt, ?_⟩
  · intro hexists
    cases hexists
  intro other payload hpayload
  by_cases heq : other = index
  · rw [heq, update_self] at hpayload
    cases hpayload
  · rw [update_of_ne heq] at hpayload
    simp only [RegionHeader.setEntry_of_ne _ heq]
    exact h.held other payload hpayload

variable {handle' : RegionHandle} {index : ChunkIndex} {expected : ChunkEntry} {fault : WriteFault}

theorem clearEntry_cases {handle : RegionHandle}
    (h : handle.clearEntry index expected fault = (result, handle')) :
    (result = .ok false ∧ handle' = handle) ∨
    (result = .ok true ∧ handle.header.entries index = expected ∧
      handle' = { handle with
        file := handle.file.writeAt fileHeaderSize (handle.header.setEntry index .empty).toBytes
        header := handle.header.setEntry index .empty
        headerDirty := false }) ∨
    (∃ persisted, result = .error .failed ∧ handle.header.entries index = expected ∧
      handle' = { handle with
        file := handle.file.writeAt fileHeaderSize
          ((handle.header.setEntry index .empty).toBytes.take persisted) }) := by
  unfold clearEntry at h
  split_ifs at h with hchanged
  · left
    cases h
    exact ⟨rfl, rfl⟩
  · have hexpected : handle.header.entries index = expected := not_not.mp hchanged
    cases fault with
    | none =>
      right
      left
      simp only [RegionHandle.writeHeader, Prod.mk.injEq] at h
      exact ⟨h.1.symm, hexpected, h.2.symm⟩
    | some persisted =>
      right
      right
      simp only [RegionHandle.writeHeader, RegionHeader.setEntry_setEntry, ← hexpected,
        RegionHeader.setEntry_entries, Prod.mk.injEq] at h
      exact ⟨persisted, h.1.symm, hexpected, h.2.symm⟩

theorem Intact.cleared (h : handle.Intact payloads)
    (hclear : handle.clearEntry index expected fault = (.ok true, handle')) :
    handle'.Intact (update payloads index none) := by
  rcases clearEntry_cases hclear with ⟨hresult, -⟩ | ⟨-, -, rfl⟩ | ⟨persisted, hresult, -⟩
  · cases hresult
  · have hlength := (RegionHeader.length_toBytes (handle.header.setEntry index .empty)).le
    have hwritten := (h.entryCleared index).tableWritten hlength
    simpa only using hwritten.counted handle.loadedChunkCount false
  · cases hresult

theorem Intact.notCleared (h : handle.Intact payloads)
    (hclear : handle.clearEntry index expected fault = (result, handle'))
    (hresult : result ≠ .ok true) : handle'.Intact payloads := by
  rcases clearEntry_cases hclear with ⟨-, rfl⟩ | ⟨htrue, -⟩ | ⟨persisted, -, -, rfl⟩
  · exact h
  · exact absurd htrue hresult
  · apply h.tableWritten
    rw [length_take, RegionHeader.length_toBytes]
    exact Nat.min_le_right _ _

/-! ### Saving -/

theorem storeChunk_none (handle : RegionHandle) (index : ChunkIndex) (status : ChunkStatus)
    (compressed : List UInt8) {place needed : ℕ}
    (hneeded : needed = divCeil compressed.length sectorSize)
    (hplace : place = handle.placement index needed) :
    handle.storeChunk index status compressed none =
      (.ok (), { handle with
        file := handle.file.writeAt (place * sectorSize) (padToSector compressed)
        header := handle.header.setEntry index ⟨place, compressed.length, status⟩
        fileSectors := max handle.fileSectors (addU32 place needed) }) := by
  subst hneeded hplace
  rfl

variable {compressed : List UInt8}

theorem length_le_of_encodeChunk
    (h : encodeChunk compressed = .ok compressed) : compressed.length ≤ maxChunkSize := by
  unfold encodeChunk at h
  dsimp only at h
  split_ifs at h with hlarge
  omega

theorem encodeChunk_of_le (h : compressed.length ≤ maxChunkSize) :
    encodeChunk compressed = .ok compressed := by
  unfold encodeChunk
  dsimp only
  rw [if_neg (by omega)]

theorem divCeil_max (m n : ℕ) : divCeil (max m n) sectorSize =
    max (divCeil m sectorSize) (divCeil n sectorSize) := by
  unfold divCeil sectorSize
  omega

/-- A save changes the payload of its own chunk and of no other. -/
theorem Intact.saved (h : handle.Intact payloads) (index : ChunkIndex) (status : ChunkStatus)
    (hencode : encodeChunk compressed = .ok compressed)
    (hframe : compressed ≠ [])
    (hbound : handle.placement index (divCeil compressed.length sectorSize) +
      divCeil compressed.length sectorSize < 4294967296) :
    (handle.storeChunk index status compressed none).2.Intact
      (update payloads index (some compressed)) := by
  obtain ⟨needed, hneeded⟩ : ∃ needed, needed = divCeil compressed.length sectorSize := ⟨_, rfl⟩
  obtain ⟨place, hplace⟩ : ∃ place, place = handle.placement index needed := ⟨_, rfl⟩
  rw [← hneeded, ← hplace] at hbound
  have hsize := length_le_of_encodeChunk hencode
  have hpos : 0 < compressed.length := length_pos_of_ne_nil hframe
  have hneededPos : 0 < needed := hneeded ▸ divCeil_pos hpos
  have hcount : (⟨place, compressed.length, status⟩ : ChunkEntry).sectorCount = needed := by
    rw [sectorCount_of_pos hpos, hneeded]
  obtain ⟨hstart, hfree⟩ := placement_free h.placed h.fileSectors_lt index hneededPos
    (hplace ▸ hbound)
  rw [← hplace] at hstart hfree
  have hpadded : (padToSector compressed).length = needed * sectorSize := by
    rw [length_padToSector, hneeded]
  have hfull : padToSector compressed ≠ [] := by
    apply ne_nil_of_length_pos
    rw [hpadded]
    exact Nat.mul_pos hneededPos (by decide)
  rw [storeChunk_none handle index status compressed hneeded hplace, addU32_of_lt hbound]
  refine ⟨h.placed.setEntry (le_max_left _ _) index ?_, h.opened.writeAt ?_, ?_, ?_, ?_⟩
  · intro _
    refine ⟨hstart, ⟨hpos, hsize⟩, ?_, ?_⟩
    · rw [hcount]
      exact le_max_right _ _
    · intro other hne hother
      rw [sectors, hcount]
      exact hfree other hne hother
  · simp only [firstDataSector, fileHeaderSize, sectorSize] at hstart ⊢
    omega
  · -- the file ends with the longer of what it had and what was written
    dsimp only
    rw [ByteFile.length_writeAt hfull, hpadded, divCeil_max, ← h.fileSectors_eq, ← Nat.add_mul]
    congr 1
    unfold divCeil sectorSize
    omega
  · exact max_lt h.fileSectors_lt hbound
  · intro other payload hpayload
    by_cases heq : other = index
    · rw [heq, update_self] at hpayload
      cases hpayload
      rw [heq]
      simp only [RegionHeader.setEntry_self]
      refine ⟨?_, trivial, ?_⟩
      · simp only [ChunkEntry.exists', firstDataSector] at hstart ⊢
        exact decide_eq_true (by omega)
      · rw [ByteFile.readExact_writeAt_self (by rw [length_padToSector]; exact le_divCeil_mul _),
          padToSector, take_left]
    · rw [update_of_ne heq] at hpayload
      obtain ⟨hexists, hlength, hread⟩ := h.held other payload hpayload
      simp only [RegionHeader.setEntry_of_ne _ heq]
      refine ⟨hexists, hlength, ?_⟩
      apply ByteFile.readExact_writeAt_of_disjoint hread
      have hpos' := (h.placed.size other hexists).1
      have hdisjoint := hfree other heq hexists
      have hcount' := sectorCount_of_pos hpos'
      have hcountPos := divCeil_pos hpos'
      rw [sectors, disjoint_Ico_iff (by omega) (by omega)] at hdisjoint
      have hlast := le_divCeil_mul (handle.header.entries other).sizeBytes
      rw [hpadded, ← hlength]
      simp only [sectorSize] at hlast hcount' ⊢
      omega

/-! ### Runs -/

theorem Reached.intact (h : Reached allowed handle payloads) : handle.Intact payloads := by
  induction h with
  | created => exact created_intact
  | opened hopen hfile => exact opened_intact hopen hfile
  | saved index status h hencode hframe hallowed hbound ih =>
    exact ih.saved index status hencode hframe hbound
  | cleared h hclear ih => exact ih.cleared hclear
  | notCleared h hclear hresult ih => exact ih.notCleared hclear hresult
  | headerWritten fault h ih => exact ih.writeHeader fault
  | counted loadedChunkCount headerDirty h ih => exact ih.counted loadedChunkCount headerDirty

/-- In every run, the existing entries own disjoint sector ranges between the header and the end of
the file, and the sectors of a chunk hold the payload that was last saved for it. -/
theorem reached_sectorsOwned {handle : RegionHandle}
    {payloads : ChunkIndex → Option (List UInt8)} (h : Reached (fun _ => True) handle payloads) :
    (∀ index, (handle.header.entries index).exists' = true →
      firstDataSector ≤ (handle.header.entries index).sectorOffset ∧
      (handle.header.entries index).sectorOffset + (handle.header.entries index).sectorCount ≤
        handle.fileSectors ∧
      ∀ other, other ≠ index → (handle.header.entries other).exists' = true →
        Disjoint (sectors (handle.header.entries index)) (sectors (handle.header.entries other))) ∧
    ∀ index payload, payloads index = some payload →
      (handle.header.entries index).exists' = true ∧
      handle.readChunkData (handle.header.entries index).sectorOffset
        (handle.header.entries index).sizeBytes = .ok payload := by
  have hintact := h.intact
  constructor
  · intro index hindex
    refine ⟨hintact.placed.start index hindex, hintact.placed.stop index hindex, ?_⟩
    intro other hne hother
    exact hintact.placed.disjoint index other hne.symm hindex hother
  · intro index payload hpayload
    obtain ⟨hexists, hsize, hread⟩ := hintact.held index payload hpayload
    refine ⟨hexists, ?_⟩
    rw [readChunkData, hsize, hread]
    rfl

theorem reached_firstChunk (hencode : encodeChunk compressed = .ok compressed)
    (hframe : compressed ≠ []) (hallowed : allowed compressed) :
    Reached allowed (created.storeChunk 0 .full compressed none).2
      (update (fun _ => none) 0 (some compressed)) := by
  apply Reached.saved 0 .full .created hencode hframe hallowed
  rw [placement_created 0 (divCeil_pos (length_pos_of_ne_nil hframe))]
  have hsize := length_le_of_encodeChunk hencode
  simp only [divCeil, sectorSize, firstDataSector, maxChunkSize] at hsize ⊢
  omega

/-- A second chunk leaves the sectors of the first one alone. -/
theorem reached_sectorsOwned_twoChunks :
    ∃ handle, handle = ((created.storeChunk 0 .full [40, 181, 47, 253] none).2.storeChunk 1 .full
        [40, 181] none).2 ∧
      Disjoint (sectors (handle.header.entries 0)) (sectors (handle.header.entries 1)) ∧
      handle.readChunkData (handle.header.entries 0).sectorOffset
        (handle.header.entries 0).sizeBytes = .ok [40, 181, 47, 253] := by
  have hfirst : Reached (fun _ => True) _ _ := reached_firstChunk
    (show encodeChunk [40, 181, 47, 253] = .ok [40, 181, 47, 253] from rfl) (by decide) trivial
  have hreached := hfirst.saved 1 .full (show encodeChunk [40, 181] = .ok [40, 181] from rfl)
    (by decide) trivial (by decide +kernel)
  obtain ⟨howned, hheld⟩ := reached_sectorsOwned hreached
  have hread := hheld 0 [40, 181, 47, 253] rfl
  exact ⟨_, rfl, (howned 0 hread.1).2.2 1 (by decide) (hheld 1 [40, 181] rfl).1, hread.2⟩

/-! ### Reopening -/

theorem Intact.savedEntry_fits (h : handle.Intact payloads) (index : ChunkIndex)
    (status : ChunkStatus) (hsize : compressed.length < maxChunkSize)
    (hframe : compressed ≠ [])
    (hbound : handle.placement index (divCeil compressed.length sectorSize) +
      divCeil compressed.length sectorSize < 4294967296) :
    ChunkEntry.Fits ⟨handle.placement index (divCeil compressed.length sectorSize),
      compressed.length, status⟩ := by
  have hstart := (placement_free h.placed h.fileSectors_lt index
    (divCeil_pos (length_pos_of_ne_nil hframe)) hbound).1
  refine ⟨(Nat.le_add_right _ _).trans_lt hbound, hsize, ?_⟩
  intro hmissing
  simp only [ChunkEntry.exists', firstDataSector, decide_eq_false_iff_not, not_not]
    at hmissing hstart
  omega

theorem Reached.fits (h : Reached (fun compressed => compressed.length ≠ maxChunkSize) handle
    payloads) : ∀ index, (handle.header.entries index).Fits := by
  induction h with
  | created =>
    intro index
    exact ChunkEntry.fits_empty
  | opened hopen hfile =>
    obtain ⟨_, tableBytes, header, -, -, -, -, hheader, -, rfl⟩ := openFile_eq_opened.mp hopen
    intro index
    exact ChunkEntry.fits_of_fromBytes (RegionHeader.fromBytes_eq_ok.mp hheader index)
  | saved index status h hencode hframe hallowed hbound ih =>
    rw [storeChunk_none _ index status _ rfl rfl]
    have hsize := (length_le_of_encodeChunk hencode).lt_of_ne hallowed
    exact RegionHeader.fits_setEntry ih index
      (h.intact.savedEntry_fits index status hsize hframe hbound)
  | cleared h hclear ih =>
    rcases clearEntry_cases hclear with ⟨hresult, -⟩ | ⟨-, -, rfl⟩ | ⟨persisted, hresult, -⟩
    · cases hresult
    · exact RegionHeader.fits_setEntry ih _ ChunkEntry.fits_empty
    · cases hresult
  | notCleared h hclear hresult ih =>
    rcases clearEntry_cases hclear with ⟨-, rfl⟩ | ⟨htrue, -⟩ | ⟨persisted, -, -, rfl⟩
    · exact ih
    · exact absurd htrue hresult
    · exact ih
  | headerWritten fault h ih =>
    cases fault with
    | none | some persisted => exact ih
  | counted loadedChunkCount headerDirty h ih => exact ih

theorem Intact.opening_written (h : handle.Intact payloads) : ∃ headerBytes,
    (handle.writeHeader none).2.file.readExact 0 fileHeaderSize = some headerBytes ∧
    headerBytes.take 4 = regionMagic ∧ fromLeBytes ((headerBytes.drop 4).take 2) = formatVersion ∧
    (handle.writeHeader none).2.file.readExact fileHeaderSize chunkTableSize =
      some handle.header.toBytes := by
  obtain ⟨headerBytes, hopening, hmagic, hversion⟩ := (h.writeHeader none).opened.opening
  refine ⟨headerBytes, hopening, hmagic, hversion, ?_⟩
  rw [writeHeader_none_file, ByteFile.readExact_writeAt_self (RegionHeader.length_toBytes _).ge,
    ← RegionHeader.length_toBytes handle.header, take_length]

/-- If no payload of exactly the greatest size was saved, the table is read back as it was,
validation accepts it for the written file, and the file opens with the same table. -/
theorem reached_reopens {handle : RegionHandle} {payloads : ChunkIndex → Option (List UInt8)}
    (h : Reached (fun compressed => compressed.length ≠ maxChunkSize) handle payloads) :
    RegionHeader.fromBytes handle.header.toBytes = .ok handle.header ∧
    validateRegionEntries handle.header
      (divCeil (handle.writeHeader none).2.file.length sectorSize % 4294967296) = .ok () ∧
    openFile (handle.writeHeader none).2.file = .ok (.opened
      { file := (handle.writeHeader none).2.file
        header := handle.header
        loadedChunkCount := 0
        headerDirty := false
        fileSectors := handle.fileSectors }) := by
  have hwritten := h.intact.writeHeader none
  have hsectors : divCeil (handle.writeHeader none).2.file.length sectorSize % 4294967296 =
      handle.fileSectors := by
    rw [← hwritten.fileSectors_eq, Nat.mod_eq_of_lt hwritten.fileSectors_lt,
      writeHeader_fileSectors]
  have hheader := RegionHeader.fromBytes_toBytes_of_fits h.fits
  have hvalid : validateRegionEntries handle.header handle.fileSectors = .ok () :=
    (validateRegionEntries_eq_ok h.intact.fileSectors_lt).mpr h.intact.placed
  obtain ⟨headerBytes, hopening, hmagic, hversion, htable⟩ := h.intact.opening_written
  refine ⟨hheader, by rw [hsectors]; exact hvalid, ?_⟩
  rw [openFile_eq_opened]
  refine ⟨headerBytes, _, handle.header, hopening, hmagic, hversion, htable, hheader,
    by rw [hsectors]; exact hvalid, ?_⟩
  rw [hsectors]

theorem reached_reopens_firstChunk :
    ∃ reopened, openFile ((created.storeChunk 0 .full [40, 181, 47, 253] none).2.writeHeader
        none).2.file = .ok (.opened reopened) ∧
      reopened.header = (created.storeChunk 0 .full [40, 181, 47, 253] none).2.header :=
  ⟨_, (reached_reopens (reached_firstChunk rfl (by decide) (by decide))).2.2, rfl⟩

theorem fromBytes_greatestSize (offset : ℕ) (hoffset : 0 < offset) (hbound : offset < 4294967296)
    (status : ChunkStatus) :
    RegionHeader.fromBytes (RegionHeader.new.setEntry 0 ⟨offset, maxChunkSize, status⟩).toBytes =
      .ok (RegionHeader.new.setEntry 0 ⟨offset, 0, status⟩) := by
  rw [RegionHeader.fromBytes_eq_ok]
  intro index
  rw [RegionHeader.entryBytes_toBytes]
  by_cases heq : index = 0
  · rw [heq, RegionHeader.setEntry_self, RegionHeader.setEntry_self, ChunkEntry.fromBytes_toBytes]
    dsimp only [maxChunkSize]
    rw [Nat.mod_eq_of_lt hbound, if_neg (by omega), Nat.mod_self]
  · rw [RegionHeader.setEntry_of_ne _ heq, RegionHeader.setEntry_of_ne _ heq]
    exact ChunkEntry.fits_empty.fromBytes_toBytes

theorem validateRegionEntries_zeroSize (offset fileSectors : ℕ) (hoffset : firstDataSector ≤ offset)
    (status : ChunkStatus) :
    validateRegionEntries (RegionHeader.new.setEntry 0 ⟨offset, 0, status⟩) fileSectors =
      .error (.invalidData "invalid chunk table entry size 0") := by
  have hexists : (⟨offset, 0, status⟩ : ChunkEntry).exists' = true := by
    simp only [ChunkEntry.exists', firstDataSector] at hoffset ⊢
    exact decide_eq_true (by omega)
  have hentry : validateChunkEntry ⟨offset, 0, status⟩ fileSectors =
      .error (.invalidData "invalid chunk table entry size 0") := by
    unfold validateChunkEntry
    dsimp only
    rw [if_neg (by omega), if_pos (Or.inl rfl)]
    rfl
  have hfirst : ∀ occupied, validateEntry (RegionHeader.new.setEntry 0 ⟨offset, 0, status⟩)
      fileSectors occupied 0 = .error (.invalidData "invalid chunk table entry size 0") := by
    intro occupied
    unfold validateEntry
    dsimp only
    rw [RegionHeader.setEntry_self, hexists, hentry]
    rfl
  unfold validateRegionEntries
  rw [finRange_succ, foldlM_cons, hfirst]
  rfl

theorem firstChunk_header (hframe : compressed ≠ []) :
    (created.storeChunk 0 .full compressed none).2.header =
      RegionHeader.new.setEntry 0 ⟨firstDataSector, compressed.length, .full⟩ := by
  have hplace := placement_created 0 (divCeil_pos (length_pos_of_ne_nil hframe))
  rw [storeChunk_none _ 0 .full compressed rfl hplace.symm]
  rfl

/-- A payload of the greatest size is stored with a size of zero in the table. -/
theorem notReopened_of_greatestSize
    (hlength : compressed.length = maxChunkSize) :
    Reached (fun _ => True) (created.storeChunk 0 .full compressed none).2
      (update (fun _ => none) 0 (some compressed)) ∧
    RegionHeader.fromBytes (created.storeChunk 0 .full compressed none).2.header.toBytes ≠
      .ok (created.storeChunk 0 .full compressed none).2.header ∧
    openFile ((created.storeChunk 0 .full compressed none).2.writeHeader none).2.file =
      .error (.invalidData "invalid chunk table entry size 0") := by
  have hframe : compressed ≠ [] := by
    apply ne_nil_of_length_pos
    rw [hlength]
    decide
  have hencode := encodeChunk_of_le hlength.le
  have hreached : Reached (fun _ => True) (created.storeChunk 0 .full compressed none).2 _ :=
    reached_firstChunk hencode hframe trivial
  have hread :
      RegionHeader.fromBytes (created.storeChunk 0 .full compressed none).2.header.toBytes =
      .ok (RegionHeader.new.setEntry 0 ⟨firstDataSector, 0, .full⟩) := by
    rw [firstChunk_header hframe, hlength]
    exact fromBytes_greatestSize _ (by decide) (by decide) .full
  obtain ⟨headerBytes, hopening, hmagic, hversion, htable⟩ := hreached.intact.opening_written
  refine ⟨hreached, ?_, ?_⟩
  · rw [hread, firstChunk_header hframe, hlength]
    intro heq
    have hsize := congrArg (fun header => (header.entries 0).sizeBytes) (Except.ok.inj heq)
    simp only [RegionHeader.setEntry_self, maxChunkSize] at hsize
    omega
  · exact openFile_of_invalid hopening hmagic hversion htable hread
      (validateRegionEntries_zeroSize _ _ le_rfl .full)

/-- A payload of exactly the greatest size has its size written as zero, so a region that holds it
does not open again. -/
theorem greatestPayload_notReopened :
    encodeChunk (List.replicate maxChunkSize 0) = .ok (List.replicate maxChunkSize 0) ∧
    Reached (fun _ => True)
      (created.storeChunk 0 .full (List.replicate maxChunkSize 0) none).2
      (update (fun _ => none) 0 (some (List.replicate maxChunkSize 0))) ∧
    RegionHeader.fromBytes
        (created.storeChunk 0 .full (List.replicate maxChunkSize 0) none).2.header.toBytes ≠
      .ok (created.storeChunk 0 .full (List.replicate maxChunkSize 0) none).2.header ∧
    openFile ((created.storeChunk 0 .full (List.replicate maxChunkSize 0) none).2.writeHeader
        none).2.file = .error (.invalidData "invalid chunk table entry size 0") :=
  ⟨encodeChunk_of_le length_replicate.le, notReopened_of_greatestSize length_replicate⟩

end RegionHandle

end Steel

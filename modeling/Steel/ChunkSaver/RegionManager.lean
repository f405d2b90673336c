import Mathlib.Order.Interval.Finset.Nat
import Steel.ChunkSaver.Format
import Steel.Lib.ByteFile
import Steel.Lib.HashMap

/-!
# The region manager

Open regions keep their table in memory; the table is written back when the region is closed, when
everything is flushed, or when a corrupt entry is cleared. Every file write may fail after any
number of its bytes have reached the file. A fault says where: `none` is a write that succeeds.

Serialization and compression are not modelled. A save starts from the compressed bytes, and a load
ends with the compressed bytes and the verdict of decoding them.
-/

namespace Steel

open Function

abbrev WriteFault := Option ℕ

/-- Where writing chunk data fails: in one of its writes, or in the final flush. -/
inductive DataFault where
  | write (persisted : ℕ)
  | flush (persisted : ℕ)
deriving DecidableEq, Repr

structure RegionHandle where
  file : ByteFile
  header : RegionHeader
  loadedChunkCount : ℕ
  headerDirty : Bool
  fileSectors : ℕ

namespace RegionHandle

def fileHeaderBytes : List UInt8 := regionMagic ++ toLeBytes 2 formatVersion ++ [0, 0]

def emptyFile : ByteFile := fileHeaderBytes ++ RegionHeader.new.toBytes

def created : RegionHandle :=
  { file := emptyFile
    header := .new
    loadedChunkCount := 0
    headerDirty := false
    fileSectors := firstDataSector }

def validateChunkEntry (entry : ChunkEntry) (fileSectors : ℕ) : Except IoError Unit :=
  let sectorOffset := entry.sectorOffset
  let sizeBytes := entry.sizeBytes
  let endSector := entry.sectorOffset + entry.sectorCount
  if sectorOffset < firstDataSector then
    .error (.invalidData
      s!"chunk table entry points into the region header at sector {sectorOffset}")
  else if sizeBytes = 0 ∨ maxChunkSize < sizeBytes then
    .error (.invalidData s!"invalid chunk table entry size {sizeBytes}")
  else if 4294967296 ≤ endSector then
    .error (.invalidData "chunk table entry sector range overflowed")
  else if fileSectors < endSector then
    .error (.invalidData
      s!"chunk table entry ends at sector {endSector}, past region end {fileSectors}")
  else .ok ()

def sectors (entry : ChunkEntry) : Finset ℕ :=
  Finset.Ico entry.sectorOffset (entry.sectorOffset + entry.sectorCount)

/-- Check one entry against the sectors already taken, and take its own. -/
def validateEntry (header : RegionHeader) (fileSectors : ℕ) (occupied : Finset ℕ)
    (index : ChunkIndex) : Except IoError (Finset ℕ) :=
  let entry := header.entries index
  if !entry.exists' then .ok occupied
  else do
    validateChunkEntry entry fileSectors
    let position := index.val
    if Disjoint (sectors entry) occupied then .ok (occupied ∪ sectors entry)
    else
      .error (.invalidData
        s!"chunk table entry {position} overlaps another region allocation")

def validateRegionEntries (header : RegionHeader) (fileSectors : ℕ) : Except IoError Unit := do
  let _ ← (List.finRange chunksPerRegion).foldlM (validateEntry header fileSectors)
    (Finset.range (min firstDataSector fileSectors))

inductive Opening where
  | opened (handle : RegionHandle)
  | otherVersion (version : ℕ)

def openFile (file : ByteFile) : Except IoError Opening := do
  let headerBytes ← (file.readExact 0 fileHeaderSize).elim (.error .unexpectedEof) .ok
  if headerBytes.take 4 ≠ regionMagic then
    .error (.invalidData "Invalid region file magic")
  let version := fromLeBytes ((headerBytes.drop 4).take 2)
  if version ≠ formatVersion then return .otherVersion version
  let tableBytes ← (file.readExact fileHeaderSize chunkTableSize).elim (.error .unexpectedEof) .ok
  let header ← (RegionHeader.fromBytes tableBytes).mapError fun index =>
    let position := index.val
    .invalidData s!"region chunk table entry {position} has an invalid status byte"
  let fileSectors := divCeil file.length sectorSize % 4294967296
  validateRegionEntries header fileSectors
  return .opened { file, header, loadedChunkCount := 0, headerDirty := false, fileSectors }

variable (handle : RegionHandle)

def writeHeader (fault : WriteFault) : Except IoError Unit × RegionHandle :=
  match fault with
  | none => (.ok (), { handle with
      file := handle.file.writeAt fileHeaderSize handle.header.toBytes })
  | some persisted => (.error .failed, { handle with
      file := handle.file.writeAt fileHeaderSize (handle.header.toBytes.take persisted) })

@[simp]
theorem writeHeader_fileSectors (fault : WriteFault) :
    (handle.writeHeader fault).2.fileSectors = handle.fileSectors := by
  cases fault <;> simp only [writeHeader]

theorem writeHeader_none_file : (handle.writeHeader none).2.file =
    handle.file.writeAt fileHeaderSize handle.header.toBytes := by
  rw [writeHeader]

def readChunkData (sectorOffset size : ℕ) : Except IoError (List UInt8) :=
  (handle.file.readExact (sectorOffset * sectorSize) size).elim (.error .unexpectedEof) .ok

def padToSector (data : List UInt8) : List UInt8 :=
  data ++ List.replicate ((sectorSize - data.length % sectorSize) % sectorSize) 0

def grown (sectorOffset : ℕ) (data : List UInt8) : ℕ :=
  max handle.fileSectors (addU32 sectorOffset (divCeil data.length sectorSize))

def writeChunkData (sectorOffset : ℕ) (data : List UInt8) (fault : Option DataFault) :
    Except IoError Unit × RegionHandle :=
  let byteOffset := sectorOffset * sectorSize
  match fault with
  | none => (.ok (), { handle with
      file := handle.file.writeAt byteOffset (padToSector data)
      fileSectors := handle.grown sectorOffset data })
  | some (.write persisted) => (.error .failed, { handle with
      file := handle.file.writeAt byteOffset ((padToSector data).take persisted) })
  | some (.flush persisted) => (.error .failed, { handle with
      file := handle.file.writeAt byteOffset ((padToSector data).take persisted)
      fileSectors := handle.grown sectorOffset data })

/-- Where a chunk's data goes: its old sectors if it fits, or free ones. -/
def placement (index : ChunkIndex) (sectorsNeeded : ℕ) : ℕ :=
  let oldEntry := handle.header.entries index
  if oldEntry.exists' ∧ sectorsNeeded ≤ oldEntry.sectorCount then oldEntry.sectorOffset
  else handle.header.findFreeSectors sectorsNeeded handle.fileSectors

def storeChunk (index : ChunkIndex) (status : ChunkStatus) (compressed : List UInt8)
    (fault : Option DataFault) : Except IoError Unit × RegionHandle :=
  let sectorOffset := handle.placement index (divCeil compressed.length sectorSize)
  match handle.writeChunkData sectorOffset compressed fault with
  | (.error error, handle) => (.error error, handle)
  | (.ok (), handle) => (.ok (), { handle with
      header := handle.header.setEntry index ⟨sectorOffset, compressed.length, status⟩ })

/-- Clear an entry that is still the expected one, and write the table. -/
def clearEntry (index : ChunkIndex) (expected : ChunkEntry) (fault : WriteFault) :
    Except IoError Bool × RegionHandle :=
  if handle.header.entries index ≠ expected then (.ok false, handle)
  else
    let cleared := { handle with header := handle.header.setEntry index .empty }
    match cleared.writeHeader fault with
    | (.error error, written) =>
      (.error error, { written with header := written.header.setEntry index expected })
    | (.ok (), written) => (.ok true, { written with headerDirty := false })

end RegionHandle

/-- The compressed size is checked before anything is written. -/
def encodeChunk (compressed : List UInt8) : Except IoError (List UInt8) :=
  let size := compressed.length
  if maxChunkSize < size then
    .error (.invalidData s!"Chunk too large: {size} bytes (max {maxChunkSize})")
  else .ok compressed

/-- Serialization and compression of chunks. A compressed frame is never empty. -/
structure ChunkCodec (P : Type) where
  encode : P → List UInt8
  decode : List UInt8 → Except String P
  decode_encode : ∀ payload, decode (encode payload) = .ok payload
  encode_ne_nil : ∀ payload, encode payload ≠ []

structure Faults where
  /-- Opening, reading or renaming the file fails. -/
  opening : Bool
  /-- Creating a region file fails after some of its bytes. -/
  creating : WriteFault
  data : Option DataFault
  header : WriteFault

/-- Files by region, and the open regions. While a region is open, its handle has its bytes. -/
structure RegionManager where
  files : RegionPos → Option ByteFile
  regions : HashMap RegionPos RegionHandle

namespace RegionManager

open RegionHandle (Opening)

def new (files : RegionPos → Option ByteFile) : RegionManager := { files, regions := ∅ }

variable (manager : RegionManager)

variable (pos : RegionPos)

def setHandle (handle : RegionHandle) : RegionManager :=
  { manager with regions := manager.regions.insert pos handle }

def closeHandle (handle : RegionHandle) : RegionManager :=
  { files := update manager.files pos (some handle.file)
    regions := manager.regions.erase pos }

def createRegion (faults : Faults) : Except IoError RegionHandle × RegionManager :=
  match faults.creating with
  | none => (.ok .created, manager)
  | some persisted => (.error .failed, { manager with
      files := update manager.files pos (some (RegionHandle.emptyFile.take persisted)) })

/-- Open or create a region file. A file of another version is moved away. -/
def openRegion (faults : Faults) : Except IoError RegionHandle × RegionManager :=
  if faults.opening then (.error .failed, manager)
  else
    match manager.files pos with
    | none => manager.createRegion pos faults
    | some file =>
      match RegionHandle.openFile file with
      | .error error => (.error error, manager)
      | .ok (.otherVersion _) =>
        ({ manager with files := update manager.files pos none }).createRegion pos
          faults
      | .ok (.opened handle) => (.ok handle, manager)

def getOrOpen (faults : Faults) : Except IoError RegionHandle × RegionManager :=
  match manager.regions.lookup pos with
  | some handle => (.ok handle, manager)
  | none =>
    match manager.openRegion pos faults with
    | (.error error, manager) => (.error error, manager)
    | (.ok handle, manager) => (.ok handle, manager.setHandle pos handle)

def saveChunkData (pos : ChunkPos) (status : ChunkStatus) (compressed : List UInt8)
    (faults : Faults) : Except IoError Bool × RegionManager :=
  match encodeChunk compressed with
  | .error error => (.error error, manager)
  | .ok compressed =>
    let regionPos := RegionPos.fromChunk pos.x pos.y
    let weOpenedRegion := decide (regionPos ∉ manager.regions)
    match manager.getOrOpen regionPos faults with
    | (.error error, manager) => (.error error, manager)
    | (.ok handle, manager) =>
      match handle.storeChunk pos.regionIndex status compressed faults.data with
      | (.error error, handle) => (.error error, manager.setHandle regionPos handle)
      | (.ok (), handle) =>
        if weOpenedRegion ∧ handle.loadedChunkCount = 0 then
          match handle.writeHeader faults.header with
          | (.error error, handle) => (.error error, manager.setHandle regionPos handle)
          | (.ok (), handle) => (.ok true, manager.closeHandle regionPos handle)
        else
          (.ok true, manager.setHandle regionPos { handle with headerDirty := true })

/-- The first half of a load, up to where the lock is released for decoding. -/
def readChunk (pos : ChunkPos) (minY height : Int) :
    Except IoError (Option (List UInt8 × ChunkEntry)) :=
  if height ≤ 0 ∨ height.tmod 16 ≠ 0 ∨ minY.tmod 16 ≠ 0 then
    .error (.invalidInput
      s!"chunk world range must be section-aligned, got min_y={minY}, height={height}")
  else
    match manager.regions.lookup (RegionPos.fromChunk pos.x pos.y) with
    | none => .ok none
    | some handle =>
      let entry := handle.header.entries pos.regionIndex
      if !entry.exists' then .ok none
      else do
        RegionHandle.validateChunkEntry entry handle.fileSectors
        let compressed ← handle.readChunkData entry.sectorOffset entry.sizeBytes
        return some (compressed, entry)

def clearCorruptChunkIfUnchanged (regionPos : RegionPos) (index : ChunkIndex)
    (expected : ChunkEntry) (fault : WriteFault) : Except IoError Bool × RegionManager :=
  match manager.regions.lookup regionPos with
  | none => (.error (.other "region was released while clearing corrupt chunk data"), manager)
  | some handle =>
    let (result, handle) := handle.clearEntry index expected fault
    (result, manager.setHandle regionPos handle)

/-- The second half of a load, once decoding has given its verdict. -/
def finishLoad (pos : ChunkPos) (compressed : List UInt8) (entry : ChunkEntry)
    (decoded : Except String Unit) (fault : WriteFault) :
    Except IoError (Option (List UInt8 × ChunkStatus)) × RegionManager :=
  match decoded with
  | .ok () => (.ok (some (compressed, entry.status)), manager)
  | .error error =>
    match manager.clearCorruptChunkIfUnchanged (RegionPos.fromChunk pos.x pos.y)
        pos.regionIndex entry fault with
    | (.error failure, manager) => (.error failure, manager)
    | (.ok false, manager) => (.error (.invalidData
        s!"corrupt chunk payload was superseded before it could be removed: {error}"), manager)
    | (.ok true, manager) => (.ok none, manager)

def loadChunk {P : Type} (codec : ChunkCodec P) (manager : RegionManager) (pos : ChunkPos)
    (minY height : Int) (fault : WriteFault) :
    Except IoError (Option (P × ChunkStatus)) × RegionManager :=
  match manager.readChunk pos minY height with
  | .error error => (.error error, manager)
  | .ok none => (.ok none, manager)
  | .ok (some (compressed, entry)) =>
    match codec.decode compressed with
    | .ok payload => (.ok (some (payload, entry.status)), manager)
    | .error error =>
      match manager.finishLoad pos compressed entry (.error error) fault with
      | (.error failure, manager) => (.error failure, manager)
      | (.ok _, manager) => (.ok none, manager)

def acquireChunk (pos : ChunkPos) (faults : Faults) : Except IoError Bool × RegionManager :=
  let regionPos := RegionPos.fromChunk pos.x pos.y
  match manager.getOrOpen regionPos faults with
  | (.error error, manager) => (.error error, manager)
  | (.ok handle, manager) =>
    (.ok (handle.header.entries pos.regionIndex).exists', manager.setHandle regionPos
      { handle with loadedChunkCount := handle.loadedChunkCount + 1 })

/-- Release a chunk. The last one closes the region: the handle is removed first, and then its
table is written if it is dirty. -/
def releaseChunk (pos : ChunkPos) (fault : WriteFault) : Except IoError Unit × RegionManager :=
  let regionPos := RegionPos.fromChunk pos.x pos.y
  match manager.regions.lookup regionPos with
  | none => (.ok (), manager)
  | some handle =>
    let handle := { handle with loadedChunkCount := handle.loadedChunkCount - 1 }
    if handle.loadedChunkCount ≠ 0 then (.ok (), manager.setHandle regionPos handle)
    else if !handle.headerDirty then (.ok (), manager.closeHandle regionPos handle)
    else
      let (result, handle) := handle.writeHeader fault
      (result, manager.closeHandle regionPos handle)

/-- Write the dirty tables of the given regions, up to the first failure. -/
def flushHandles (faults : RegionPos → WriteFault) :
    List (RegionPos × RegionHandle) → RegionManager → Except IoError Unit × RegionManager
  | [], manager => (.ok (), manager)
  | (pos, handle) :: rest, manager =>
    if handle.headerDirty then
      match handle.writeHeader (faults pos) with
      | (.error error, handle) => (.error error, manager.setHandle pos handle)
      | (.ok (), handle) =>
        flushHandles faults rest (manager.setHandle pos { handle with headerDirty := false })
    else flushHandles faults rest manager

def flushAll (iteration : HashMap.IterationOrder RegionPos RegionHandle) (manager : RegionManager)
    (faults : RegionPos → WriteFault) : Except IoError Unit × RegionManager :=
  flushHandles faults (iteration.toList manager.regions) manager

/-- Close the given regions, writing their dirty tables up to the first failure. -/
def closeHandles (faults : RegionPos → WriteFault) :
    List (RegionPos × RegionHandle) → RegionManager → Except IoError Unit × RegionManager
  | [], manager => (.ok (), manager)
  | (pos, handle) :: rest, manager =>
    if handle.headerDirty then
      match handle.writeHeader (faults pos) with
      | (.error error, handle) =>
        -- the rest of the drained handles are dropped unwritten
        (.error error, rest.foldl (fun manager entry => manager.closeHandle entry.1 entry.2)
          (manager.closeHandle pos handle))
      | (.ok (), handle) => closeHandles faults rest (manager.closeHandle pos handle)
    else closeHandles faults rest (manager.closeHandle pos handle)

def closeAll (iteration : HashMap.IterationOrder RegionPos RegionHandle) (manager : RegionManager)
    (faults : RegionPos → WriteFault) : Except IoError Unit × RegionManager :=
  closeHandles faults (iteration.toList manager.regions) manager

end RegionManager

end Steel

import Mathlib.Data.List.FinRange
import Steel.Chunk.Status
import Steel.Lib.LittleEndian
import Steel.Utils.Position
import Steel.Utils.Types

/-!
# The region file format

A region file starts with a magic number, a version and a table of 1024 chunk entries; chunk data
follows in sectors of 4096 bytes. An entry packs a sector offset, a byte count and a status into
eight bytes.
-/

namespace Steel

def regionMagic : List UInt8 := [83, 84, 76, 82]

def formatVersion : ℕ := 23

def regionSize : ℕ := 32

abbrev chunksPerRegion : ℕ := 1024

def sectorSize : ℕ := 4096

def fileHeaderSize : ℕ := 8

def chunkTableSize : ℕ := 8192

def firstDataSector : ℕ := 3

def maxChunkSize : ℕ := 16777216

structure ChunkEntry where
  sectorOffset : ℕ
  sizeBytes : ℕ
  status : ChunkStatus
deriving DecidableEq, Repr

namespace ChunkEntry

def exists' (entry : ChunkEntry) : Bool := entry.sectorOffset ≠ 0

def empty : ChunkEntry := { sectorOffset := 0, sizeBytes := 0, status := .empty }

def sectorCount (entry : ChunkEntry) : ℕ :=
  if entry.sizeBytes = 0 then 0 else divCeil entry.sizeBytes sectorSize

def toBytes (entry : ChunkEntry) : List UInt8 :=
  toLeBytes 4 entry.sectorOffset ++ (toLeBytes 4 entry.sizeBytes).take 3 ++
    [UInt8.ofNat entry.status.getIndex]

def fromBytes (bytes : List UInt8) : Option ChunkEntry := do
  let sectorOffset := fromLeBytes (bytes.take 4)
  let sizeBytes := fromLeBytes ((bytes.drop 4).take 3 ++ [0])
  let status ←
    if sectorOffset = 0 then some ChunkStatus.empty
    else ChunkStatus.fromIndex (bytes.getD 7 0).toNat
  return { sectorOffset, sizeBytes, status }

end ChunkEntry

abbrev ChunkIndex := Fin chunksPerRegion

structure RegionHeader where
  entries : ChunkIndex → ChunkEntry

namespace RegionHeader

def new : RegionHeader := { entries := fun _ => .empty }

def chunkIndex (localX localZ : ℕ) : ℕ := localZ * regionSize + localX

variable (header : RegionHeader)

variable (index : ChunkIndex)

def setEntry (entry : ChunkEntry) : RegionHeader :=
  { entries := Function.update header.entries index entry }

@[simp]
theorem setEntry_self (entry : ChunkEntry) :
    (header.setEntry index entry).entries index = entry := by
  simp [setEntry]

@[simp]
theorem setEntry_of_ne {index other : ChunkIndex} (h : other ≠ index) (entry : ChunkEntry) :
    (header.setEntry index entry).entries other = header.entries other := by
  simp [setEntry, h]

@[simp]
theorem setEntry_setEntry (first second : ChunkEntry) :
    (header.setEntry index first).setEntry index second = header.setEntry index second := by
  simp [setEntry]

@[simp]
theorem setEntry_entries : header.setEntry index (header.entries index) = header := by
  simp [setEntry]

@[irreducible]
def toBytes : List UInt8 :=
  (List.finRange chunksPerRegion).flatMap fun index => (header.entries index).toBytes

def entryBytes (bytes : List UInt8) (index : ChunkIndex) : List UInt8 :=
  (bytes.drop (8 * index)).take 8

def fromBytes (bytes : List UInt8) : Except ChunkIndex RegionHeader :=
  match (List.finRange chunksPerRegion).find? fun index =>
      (ChunkEntry.fromBytes (entryBytes bytes index)).isNone with
  | some index => .error index
  | none => .ok { entries := fun index =>
    (ChunkEntry.fromBytes (entryBytes bytes index)).getD .empty }

def usedRanges : List (ℕ × ℕ) :=
  (((List.finRange chunksPerRegion).map header.entries).filter ChunkEntry.exists').map (fun entry =>
    (entry.sectorOffset, addU32 entry.sectorOffset entry.sectorCount))
    |>.mergeSort fun first second => first.1 ≤ second.1

/-- The first gap between the used ranges, or the end of the file. -/
def findGap (sectorsNeeded fileSectors : ℕ) : ℕ → List (ℕ × ℕ) → ℕ
  | currentSector, [] => max currentSector fileSectors
  | currentSector, (start, stop) :: rest =>
    if addU32 currentSector sectorsNeeded ≤ start then currentSector
    else findGap sectorsNeeded fileSectors (max currentSector stop) rest

def findFreeSectors (sectorsNeeded fileSectors : ℕ) : ℕ :=
  if sectorsNeeded = 0 then firstDataSector
  else findGap sectorsNeeded fileSectors firstDataSector header.usedRanges

end RegionHeader

structure RegionPos where
  x : Int
  z : Int
deriving DecidableEq, Repr

namespace RegionPos

def fromChunk (chunkX chunkZ : Int) : RegionPos := ⟨chunkX / 32, chunkZ / 32⟩

def localChunkPos (chunkX chunkZ : Int) : ℕ × ℕ := ((chunkX % 32).toNat, (chunkZ % 32).toNat)

end RegionPos

def ChunkPos.regionIndex (pos : ChunkPos) : ChunkIndex :=
  ⟨RegionHeader.chunkIndex (RegionPos.localChunkPos pos.x pos.y).1
      (RegionPos.localChunkPos pos.x pos.y).2, by
    simp only [RegionHeader.chunkIndex, RegionPos.localChunkPos, regionSize, chunksPerRegion]
    omega⟩

theorem ChunkPos.eq_of_region {p q : ChunkPos}
    (hregion : RegionPos.fromChunk p.x p.y = RegionPos.fromChunk q.x q.y)
    (hindex : p.regionIndex = q.regionIndex) : p = q := by
  rcases p with ⟨px, py⟩
  rcases q with ⟨qx, qy⟩
  have hindex' := congrArg Fin.val hindex
  simp only [RegionPos.fromChunk, RegionPos.mk.injEq] at hregion
  simp only [regionIndex, RegionHeader.chunkIndex, RegionPos.localChunkPos, regionSize] at hindex'
  rw [ChunkPos.mk.injEq]
  omega

end Steel

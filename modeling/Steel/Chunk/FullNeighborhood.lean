import Steel.Chunk.PlayerChunkView
import Steel.Player.ChunkSender

/-!
# Counts of full chunks around each chunk

A full chunk contributes to the centers around it: to the block-ticking count of those within one
chunk, and to the entity-ticking count of those within two. The counters are bytes.
-/

namespace Steel

structure FullNeighborhoodCounts where
  blockTicking : ℕ
  entityTicking : ℕ
deriving DecidableEq, Repr

def blockTickingFullCount : ℕ := 9

def entityTickingFullCount : ℕ := 25

namespace FullNeighborhoodCounts

def zero : FullNeighborhoodCounts := { blockTicking := 0, entityTicking := 0 }

def count (counts : FullNeighborhoodCounts) (radius : ℕ) : ℕ :=
  if radius = 1 then counts.blockTicking else counts.entityTicking

def adjust (counts : FullNeighborhoodCounts) (radius : ℕ) (increment : Bool) :
    FullNeighborhoodCounts :=
  let adjusted := if increment then (counts.count radius + 1) % 256
    else (counts.count radius + 255) % 256
  if radius = 1 then { counts with blockTicking := adjusted }
  else { counts with entityTicking := adjusted }

end FullNeighborhoodCounts

inductive FullNeighborhoodError where
  | counterOverflow (center : ChunkPos) (radius count : ℕ)
  | counterUnderflow (center : ChunkPos) (radius : ℕ)
  | contributorIdentityMismatch (pos : ChunkPos)
deriving DecidableEq, Repr

structure FullNeighborhoodIndex where
  contributors : HashMap ChunkPos HolderId
  counts : HashMap ChunkPos FullNeighborhoodCounts
  dirtyCenters : Finset ChunkPos

namespace FullNeighborhoodIndex

def new : FullNeighborhoodIndex := { contributors := ∅, counts := ∅, dirtyCenters := ∅ }

variable (index : FullNeighborhoodIndex)

def countsAt (center : ChunkPos) : FullNeighborhoodCounts :=
  (index.counts.lookup center).getD .zero

variable (pos : ChunkPos)

/-- Centers outside the coordinate range are left out. -/
def forEachCenter (radius : ℕ) : List ChunkPos :=
  (inclusiveRange (-radius) radius).flatMap fun dz =>
    (inclusiveRange (-radius) radius).filterMap fun dx =>
      let center : ChunkPos := ⟨pos.x + dx, pos.y + dz⟩
      if center.InRange then some center else none

def validateIncrement (radius maximum : ℕ) : Except FullNeighborhoodError Unit :=
  match (forEachCenter pos radius).find? fun center =>
    maximum ≤ (index.countsAt center).count radius with
  | some center => .error (.counterOverflow center radius ((index.countsAt center).count radius))
  | none => .ok ()

def validateDecrement (radius : ℕ) : Except FullNeighborhoodError Unit :=
  match (forEachCenter pos radius).find? fun center => (index.countsAt center).count radius = 0 with
  | some center => .error (.counterUnderflow center radius)
  | none => .ok ()

def adjustCenter (radius : ℕ) (increment : Bool) (index : FullNeighborhoodIndex)
    (center : ChunkPos) : FullNeighborhoodIndex :=
  { index with
    counts := index.counts.insert center ((index.countsAt center).adjust radius increment)
    dirtyCenters := insert center index.dirtyCenters }

def adjustCounts (radius : ℕ) (increment : Bool) : FullNeighborhoodIndex :=
  (forEachCenter pos radius).foldl (adjustCenter radius increment) index

def addContributor (holder : HolderId) : Except FullNeighborhoodError FullNeighborhoodIndex := do
  index.validateIncrement pos 1 blockTickingFullCount
  index.validateIncrement pos 2 entityTickingFullCount
  let index := { index with contributors := index.contributors.insert pos holder }
  return (index.adjustCounts pos 1 true).adjustCounts pos 2 true

def dropZero (center : ChunkPos) : FullNeighborhoodIndex :=
  if index.counts.lookup center = some .zero then
    { index with counts := index.counts.erase center }
  else index

def removeContributor : Except FullNeighborhoodError FullNeighborhoodIndex := do
  index.validateDecrement pos 1
  index.validateDecrement pos 2
  let index := { index with contributors := index.contributors.erase pos }
  let index := (index.adjustCounts pos 1 false).adjustCounts pos 2 false
  return (forEachCenter pos 2).foldl dropZero index

def reconcileContributor (holder : Option HolderId) :
    Except FullNeighborhoodError FullNeighborhoodIndex := do
  if index.contributors.lookup pos = holder then return index
  let index ← if pos ∈ index.contributors then index.removeContributor pos else pure index
  match holder with
  | some holder => index.addContributor pos holder
  | none => return index

def removeContributorIfMatches (holder : HolderId) :
    Except FullNeighborhoodError FullNeighborhoodIndex :=
  match index.contributors.lookup pos with
  | none => .ok index
  | some current =>
    if current = holder then index.removeContributor pos
    else .error (.contributorIdentityMismatch pos)

def markDirty : FullNeighborhoodIndex :=
  { index with dirtyCenters := insert pos index.dirtyCenters }

def dirtyCountsSnapshot : Finset (ChunkPos × FullNeighborhoodCounts) :=
  index.dirtyCenters.image fun pos => (pos, index.countsAt pos)

def takeDirtyCounts : Finset (ChunkPos × FullNeighborhoodCounts) × FullNeighborhoodIndex :=
  (index.dirtyCountsSnapshot, { index with dirtyCenters := ∅ })

/-- The calls on an index, with the centers whose counts changed since the last drain. -/
inductive Reached : FullNeighborhoodIndex → Set ChunkPos → Prop
  | new : Reached new ∅
  | reconcileContributor {index after : FullNeighborhoodIndex} {changed : Set ChunkPos}
      (hreached : Reached index changed) {pos : ChunkPos} (hpos : pos.InRange)
      {holder : Option HolderId} (hok : index.reconcileContributor pos holder = .ok after) :
      Reached after (changed ∪ {center | after.countsAt center ≠ index.countsAt center})
  | removeContributorIfMatches {index after : FullNeighborhoodIndex} {changed : Set ChunkPos}
      (hreached : Reached index changed) {pos : ChunkPos} (hpos : pos.InRange) {holder : HolderId}
      (hok : index.removeContributorIfMatches pos holder = .ok after) :
      Reached after (changed ∪ {center | after.countsAt center ≠ index.countsAt center})
  | markDirty {index : FullNeighborhoodIndex} {changed : Set ChunkPos}
      (hreached : Reached index changed) (pos : ChunkPos) : Reached (index.markDirty pos) changed
  | takeDirtyCounts {index : FullNeighborhoodIndex} {changed : Set ChunkPos}
      (hreached : Reached index changed) : Reached index.takeDirtyCounts.2 ∅

end FullNeighborhoodIndex

end Steel

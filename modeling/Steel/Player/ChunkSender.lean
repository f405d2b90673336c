import Steel.Chunk.Status
import Steel.Lib.HashMap
import Steel.Lib.StableSort
import Steel.Utils.Position

/-!
# Sending chunks to a client

A readiness and the number of transitions before it. The source packs both into one word; equal
words are equal pairs.
-/

namespace Steel

inductive TickingReadiness where
  | unready
  | blockTicking
  | entityTicking
deriving DecidableEq, Repr

structure TickingReadinessSnapshot where
  readiness : TickingReadiness
  generation : ℕ
deriving DecidableEq, Repr

namespace TickingReadinessSnapshot

def isBlockTicking (snapshot : TickingReadinessSnapshot) : Bool :=
  snapshot.readiness = .blockTicking || snapshot.readiness = .entityTicking

end TickingReadinessSnapshot

/-!
### The sender

A batch of chunks is prepared under the sender's lock, encoded without any lock, and committed under
the lock again. What a phase reads from a chunk holder may change between two reads, so the readings
are arguments, one for every chunk of the batch.

The pacing of batches only decides how many chunks are prepared. Here the size of a batch is an
argument.
-/

/-- The identity of a chunk holder: two references are equal when they point to the same holder. -/
abbrev HolderId := ℕ

structure HolderReading where
  publishedStatus : Option ChunkStatus
  tickingReadiness : TickingReadinessSnapshot
  packetContentRevision : ℕ
deriving DecidableEq, Repr

structure PreparedChunk where
  pos : ChunkPos
  holder : HolderId
  readiness : TickingReadinessSnapshot
deriving DecidableEq, Repr

structure PreparedBatch where
  chunks : List PreparedChunk
  epochSnapshot : UInt32
deriving DecidableEq, Repr

structure EncodedChunk (α : Type) where
  pos : ChunkPos
  packet : α
  contentRevision : ℕ
  holder : HolderId
  readiness : TickingReadinessSnapshot

inductive ChunkPacket (α : Type) where
  | setChunkCenter (x z : Int)
  | chunkBatchStart
  | levelChunkWithLight (pos : ChunkPos) (contents : α)
  | chunkBatchFinished (batchSize : ℕ)
  | forgetLevelChunk (pos : ChunkPos)

structure ChunkSender where
  pendingChunks : Finset ChunkPos
  sentChunks : Finset ChunkPos
deriving DecidableEq

variable {α : Type}

/-- The reading is of the prepared holder. Its weak reference can be upgraded, since the prepared
chunk keeps the holder alive. -/
def EncodedChunk.isCurrentFor (encoded : EncodedChunk α) (reading : HolderReading)
    (prepared : PreparedChunk) : Bool :=
  encoded.pos = prepared.pos && encoded.holder = prepared.holder &&
    encoded.readiness = prepared.readiness && prepared.readiness.isBlockTicking &&
    reading.tickingReadiness = prepared.readiness &&
    reading.packetContentRevision = encoded.contentRevision

namespace ChunkSender

def empty : ChunkSender := { pendingChunks := ∅, sentChunks := ∅ }

def clearWorldChunks (_ : ChunkSender) : ChunkSender := empty

variable (sender : ChunkSender)

def markChunkPendingToSend (pos : ChunkPos) : ChunkSender where
  pendingChunks := insert pos sender.pendingChunks
  sentChunks := sender.sentChunks.erase pos

def dropChunk (connectionClosed : Bool) (pos : ChunkPos) : ChunkSender × List (ChunkPacket α) :=
  ({ pendingChunks := sender.pendingChunks.erase pos, sentChunks := sender.sentChunks.erase pos },
    if pos ∈ sender.sentChunks ∧ ¬ connectionClosed then [.forgetLevelChunk pos] else [])

/-! ### Preparing -/

def saturateU64 (n : ℕ) : ℕ := min n (2 ^ 64 - 1)

def chunkDistanceSquared (pos playerChunkPos : ChunkPos) : ℕ :=
  let dx := (pos.x - playerChunkPos.x).natAbs
  let dz := (pos.y - playerChunkPos.y).natAbs
  saturateU64 (saturateU64 (dx * dx) + saturateU64 (dz * dz))

def takeReady (holders : ChunkPos → Option (HolderId × HolderReading)) (maxBatchSize : ℕ) :
    List ChunkPos → List PreparedChunk → List PreparedChunk
  | [], chunksToSend => chunksToSend
  | pos :: rest, chunksToSend =>
    if maxBatchSize ≤ chunksToSend.length then chunksToSend
    else match holders pos with
      | some (holder, reading) =>
        if reading.publishedStatus = some .full ∧ reading.tickingReadiness.isBlockTicking then
          takeReady holders maxBatchSize rest
            (chunksToSend ++ [⟨pos, holder, reading.tickingReadiness⟩])
        else takeReady holders maxBatchSize rest chunksToSend
      | none => takeReady holders maxBatchSize rest chunksToSend

/-- `iteration` is the order in which the set of pending chunks is walked. -/
def collectCandidates (iteration : List ChunkPos)
    (holders : ChunkPos → Option (HolderId × HolderReading)) (playerChunkPos : ChunkPos)
    (maxBatchSize : ℕ) : List PreparedChunk :=
  let candidates := StableSort.sortBy (chunkDistanceSquared · playerChunkPos) iteration
  takeReady holders maxBatchSize candidates []

/-- `maxBatchSize` is what the pacing allows, if it allows a batch at all. -/
def prepareBatch (iteration : List ChunkPos)
    (holders : ChunkPos → Option (HolderId × HolderReading)) (playerChunkPos : ChunkPos)
    (chunkSendEpoch : UInt32) (maxBatchSize : Option ℕ) : Option PreparedBatch :=
  match maxBatchSize with
  | none => none
  | some size =>
    if size = 0 ∨ sender.pendingChunks = ∅ then none
    else
      let chunks := collectCandidates iteration holders playerChunkPos size
      if chunks = [] then none
      else some { chunks := chunks, epochSnapshot := chunkSendEpoch }

/-! ### Encoding -/

/-- The readings of the prepared holder while it is encoded: when the cached packet is looked at,
before and after the chunk is read, and what was read if the chunk was full. -/
structure EncodeReadings (α : Type) where
  cached : HolderReading
  before : HolderReading
  contents : Option α
  after : HolderReading

def encodeChunk (cached : Option (EncodedChunk α)) (readings : EncodeReadings α)
    (prepared : PreparedChunk) : Option (EncodedChunk α) :=
  match cached.filter (·.isCurrentFor readings.cached prepared) with
  | some encoded => some encoded
  | none =>
    if ¬ prepared.readiness.isBlockTicking ∨
        readings.before.tickingReadiness ≠ prepared.readiness then none
    else match readings.contents with
      | none => none
      | some packet =>
        let revisionBefore := readings.before.packetContentRevision
        let revisionAfter := readings.after.packetContentRevision
        if revisionBefore ≠ revisionAfter ∨
            readings.after.tickingReadiness ≠ prepared.readiness then none
        else some
          { pos := prepared.pos
            packet := packet
            contentRevision := revisionAfter
            holder := prepared.holder
            readiness := prepared.readiness }

/-- The chunks are encoded in parallel, all with the cache of before the batch. -/
def encodeBatch (batch : PreparedBatch) (cache : HashMap ChunkPos (EncodedChunk α))
    (readings : ChunkPos → EncodeReadings α) :
    List (EncodedChunk α) × HashMap ChunkPos (EncodedChunk α) :=
  let encodedChunks := batch.chunks.filterMap fun prepared =>
    encodeChunk (cache.lookup prepared.pos) (readings prepared.pos) prepared
  (encodedChunks, encodedChunks.foldl (fun cache encoded => cache.insert encoded.pos encoded) cache)

/-! ### Committing -/

/-- One cursor goes over the prepared chunks: a search starts behind the last chunk found. -/
def resolveValidChunks (pending : Finset ChunkPos) (readings : ChunkPos → HolderReading) :
    List PreparedChunk → List (EncodedChunk α) → List (EncodedChunk α)
  | _, [] => []
  | prepared, encoded :: rest =>
    if encoded.pos ∉ pending then resolveValidChunks pending readings prepared rest
    else match prepared.dropWhile (fun candidate => candidate.pos ≠ encoded.pos) with
      | [] => resolveValidChunks pending readings [] rest
      | found :: others =>
        if encoded.isCurrentFor (readings encoded.pos) found then
          encoded :: resolveValidChunks pending readings others rest
        else resolveValidChunks pending readings others rest

def markSent (pos : ChunkPos) : ChunkSender where
  pendingChunks := sender.pendingChunks.erase pos
  sentChunks := insert pos sender.sentChunks

/-- The committed positions, the sender afterwards and the packets sent. -/
def commitBatch (batch : PreparedBatch) (encodedChunks : List (EncodedChunk α))
    (chunkSendEpoch : UInt32) (readings : ChunkPos → HolderReading) :
    List ChunkPos × ChunkSender × List (ChunkPacket α) :=
  if chunkSendEpoch ≠ batch.epochSnapshot then ([], sender, [])
  else
    let validChunks :=
      resolveValidChunks sender.pendingChunks readings batch.chunks encodedChunks
    if validChunks.isEmpty then ([], sender, [])
    else
      (validChunks.map (·.pos), (validChunks.map (·.pos)).foldl markSent sender,
        .chunkBatchStart ::
          validChunks.map (fun encoded => .levelChunkWithLight encoded.pos encoded.packet) ++
          [.chunkBatchFinished validChunks.length])

end ChunkSender

end Steel

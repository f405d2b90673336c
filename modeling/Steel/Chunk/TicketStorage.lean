import Mathlib.Data.List.Sort
import Steel.Chunk.Status
import Steel.Lib.HashMap
import Steel.Lib.Loop
import Steel.Lib.Vec
import Steel.Utils.Position
import Steel.Utils.Types

/-!
# Chunk tickets and their storage

Lower levels are stronger. Every mutation reports the positions whose source may have changed, for
loading and for simulation. An exhausted generation counter panics, which is `none`.
-/

namespace Steel

def maxSupportedViewDistance : ℕ := 128

def fullChunkLevelRaw : ℕ := maxSupportedViewDistance + 2

def radiusAroundFullChunk : ℕ := fullChunkRadiusOf .empty

def maxLevelRaw : ℕ := fullChunkLevelRaw + radiusAroundFullChunk

attribute [irreducible] radiusAroundFullChunk

structure ChunkTicketLevel where
  raw : ℕ
  raw_le : raw ≤ maxLevelRaw
deriving DecidableEq

namespace ChunkTicketLevel

@[ext]
theorem ext {left right : ChunkTicketLevel} (h : left.raw = right.raw) : left = right := by
  cases left
  cases right
  cases h
  rfl

def new (raw : ℕ) : Option ChunkTicketLevel :=
  if h : raw ≤ maxLevelRaw then some ⟨raw, h⟩ else none

theorem new_of_le {raw : ℕ} (h : raw ≤ maxLevelRaw) : new raw = some ⟨raw, h⟩ := dif_pos h

def blockTickingChunk : ChunkTicketLevel :=
  ⟨maxSupportedViewDistance + 1, by unfold maxLevelRaw fullChunkLevelRaw; omega⟩

def maxLevel : ChunkTicketLevel := ⟨maxLevelRaw, Nat.le_refl _⟩

def forFullChunkRadius (radius : ℕ) : ChunkTicketLevel :=
  ⟨fullChunkLevelRaw - radius, by unfold maxLevelRaw; omega⟩

def isBlockTicking (level : ChunkTicketLevel) : Bool := level.raw ≤ blockTickingChunk.raw

end ChunkTicketLevel

/-!
### Tickets

A ticket is a registered type and a level, with the ticks it has left. Two tickets are the same
when they have the same type object and level; the ticks left do not count.
-/

abbrev TicketTypeFlags := BitVec 32

namespace TicketTypeFlags

def persist : TicketTypeFlags := 1 <<< 0
def loading : TicketTypeFlags := 1 <<< 1
def simulation : TicketTypeFlags := 1 <<< 2
def keepDimensionActive : TicketTypeFlags := 1 <<< 3

def contains (flags other : TicketTypeFlags) : Bool := flags &&& other == other

end TicketTypeFlags

/-- A registered chunk ticket kind. `address` is the identity of the static it lives in. -/
structure TicketType where
  address : ℕ
  key : Identifier
  timeout : Int
  flags : TicketTypeFlags
deriving DecidableEq

namespace TicketType

def noTimeout : Int := 0

variable (ticketType : TicketType)

def doesLoad : Bool := ticketType.flags.contains .loading

def doesSimulate : Bool := ticketType.flags.contains .simulation

def hasTimeout : Bool := ticketType.timeout != noTimeout

def vanillaStatic (address : ℕ) (path : String) (timeout : Int) (flags : TicketTypeFlags) :
    TicketType :=
  { address, key := ⟨"minecraft", path⟩, timeout, flags }

def portal : TicketType :=
  vanillaStatic 6 "portal" 300 (.persist ||| .loading ||| .simulation ||| .keepDimensionActive)

/-- Keeps a requested chunk loading for the lifetime of its request lease. -/
def chunkRequest : TicketType :=
  { address := 9, key := ⟨"steel", "chunk_request"⟩, timeout := noTimeout, flags := .loading }

end TicketType

/-- The registered ticket kinds, whose keys are distinct. -/
structure TicketTypeRegistry where
  ticketTypes : List TicketType

def TicketTypeRegistry.byKey (registry : TicketTypeRegistry) (key : Identifier) :
    Option TicketType :=
  registry.ticketTypes.find? fun ticketType => ticketType.key == key

instance : LinearOrder ChunkTicketLevel :=
  LinearOrder.lift' ChunkTicketLevel.raw fun _ _ h => ChunkTicketLevel.ext h

structure ChunkTicket where
  ticketType : TicketType
  ticketLevel : ChunkTicketLevel
  ticksLeft : Int
deriving DecidableEq

namespace ChunkTicket

def new (ticketType : TicketType) (ticketLevel : ChunkTicketLevel) : ChunkTicket :=
  { ticketType, ticketLevel, ticksLeft := ticketType.timeout }

def forFullChunkRadius (ticketType : TicketType) (radius : ℕ) : ChunkTicket :=
  new ticketType (.forFullChunkRadius radius)

variable (ticket : ChunkTicket)

def loadingLevel : Option ChunkTicketLevel :=
  if ticket.ticketType.doesLoad then some ticket.ticketLevel else none

def simulationLevel : Option ChunkTicketLevel :=
  if ticket.ticketType.doesSimulate then some ticket.ticketLevel else none

def resetTicksLeft : ChunkTicket :=
  { ticket with ticksLeft := ticket.ticketType.timeout }

def decreaseTicksLeft : ChunkTicket :=
  if ticket.ticketType.hasTimeout then { ticket with ticksLeft := wrapI64 (ticket.ticksLeft - 1) }
  else ticket

def isTimedOut : Bool :=
  ticket.ticketType.hasTimeout && decide (ticket.ticksLeft < 0)

def same (left right : ChunkTicket) : Bool :=
  left.ticketType.address == right.ticketType.address && left.ticketLevel == right.ticketLevel

end ChunkTicket

structure StoredChunkTicket where
  ticket : ChunkTicket
  timedGeneration : Option ℕ
deriving DecidableEq

structure TimedTicketExpiration where
  pos : ChunkPos
  ticket : ChunkTicket
  generation : ℕ
deriving DecidableEq

/-- Source positions dirtied by one or more storage mutations. -/
structure SourceProjectionChanges where
  loadPositions : List ChunkPos := []
  simulationPositions : List ChunkPos := []
deriving DecidableEq

namespace SourceProjectionChanges

def forTicket (pos : ChunkPos) (ticket : ChunkTicket) : SourceProjectionChanges :=
  { loadPositions := if ticket.loadingLevel.isSome then [pos] else []
    simulationPositions := if ticket.simulationLevel.isSome then [pos] else [] }

def merge (changes other : SourceProjectionChanges) : SourceProjectionChanges :=
  { loadPositions := changes.loadPositions ++ other.loadPositions
    simulationPositions := changes.simulationPositions ++ other.simulationPositions }

end SourceProjectionChanges

/-- One logical ticket for each type identity and level at a position. -/
structure ChunkTicketStorage where
  tickets : HashMap ChunkPos (List StoredChunkTicket)
  timedGeneration : ℕ

namespace ChunkTicketStorage

def new : ChunkTicketStorage := { tickets := ∅, timedGeneration := 0 }

def portalTicketRadius : ℕ := 3

def portalTicket : ChunkTicket := .forFullChunkRadius .portal portalTicketRadius

variable (storage : ChunkTicketStorage)

def allocateTimedGeneration : Option (ℕ × ChunkTicketStorage) :=
  if storage.timedGeneration = u64Max then none
  else some (storage.timedGeneration + 1,
    { storage with timedGeneration := storage.timedGeneration + 1 })

def generationFor (ticketType : TicketType) : Option (Option ℕ × ChunkTicketStorage) :=
  if ticketType.hasTimeout then
    storage.allocateTimedGeneration.map fun (generation, storage) => (some generation, storage)
  else some (none, storage)

def refresh (timedGeneration : Option ℕ) (stored : StoredChunkTicket) : StoredChunkTicket :=
  { ticket := stored.ticket.resetTicksLeft, timedGeneration }

variable (pos : ChunkPos)

def addTicket (ticket : ChunkTicket) : Option (ChunkTicketStorage × SourceProjectionChanges) := do
  let (timedGeneration, storage) ← storage.generationFor ticket.ticketType
  let tickets := (storage.tickets.lookup pos).getD []
  match tickets.findIdx? fun stored => stored.ticket.same ticket with
  | some index =>
    return ({ storage with
      tickets := storage.tickets.insert pos (tickets.modify index (refresh timedGeneration)) },
      {})
  | none =>
    return ({ storage with
      tickets := storage.tickets.insert pos (tickets ++ [⟨ticket, timedGeneration⟩]) },
      .forTicket pos ticket)

/-- Take the ticket at `index` out of a position's list, dropping an emptied list. -/
def takeAt (tickets : List StoredChunkTicket) (index : ℕ) : ChunkTicketStorage :=
  let rest := Vec.swapRemove tickets index
  { storage with
    tickets := if rest.isEmpty then storage.tickets.erase pos else storage.tickets.insert pos rest }

def removeTicket (ticket : ChunkTicket) : ChunkTicketStorage × SourceProjectionChanges :=
  match storage.tickets.lookup pos with
  | none => (storage, {})
  | some tickets =>
    match tickets.findIdx? fun stored => stored.ticket.same ticket with
    | none => (storage, {})
    | some index =>
      match tickets[index]? with
      | none => (storage, {})
      | some removed =>
        (storage.takeAt pos tickets index, .forTicket pos removed.ticket)

def loadSourceLevel : Option ChunkTicketLevel :=
  (storage.tickets.lookup pos).bind fun tickets =>
    (tickets.filterMap fun stored => stored.ticket.loadingLevel).min?

/-- The strongest simulation ticket the simulation tracker supports. -/
def simulationSourceLevel : Option ChunkTicketLevel :=
  (storage.tickets.lookup pos).bind fun tickets =>
    ((tickets.filterMap fun stored => stored.ticket.simulationLevel).filter
      ChunkTicketLevel.isBlockTicking).min?

def expirationLe (left right : TimedTicketExpiration) : Bool :=
  if left.pos ≠ right.pos then left.pos.keyLe right.pos
  else if left.ticket.ticketType.key ≠ right.ticket.ticketType.key then
    left.ticket.ticketType.key.le right.ticket.ticketType.key
  else decide (left.ticket.ticketLevel ≤ right.ticket.ticketLevel)

def timedTicketExpirations (order : HashMap.IterationOrder ChunkPos (List StoredChunkTicket))
    (storage : ChunkTicketStorage) : List TimedTicketExpiration :=
  ((order.toList storage.tickets).flatMap fun entry =>
    entry.2.filterMap fun stored =>
      stored.timedGeneration.map fun generation =>
        { pos := entry.1, ticket := stored.ticket, generation }).mergeSort expirationLe

def age (stored : StoredChunkTicket) : StoredChunkTicket :=
  { stored with ticket := stored.ticket.decreaseTicksLeft }

/-- Age one observed entry unless it was refreshed or removed since. -/
def tickTimedTicket (state : ChunkTicketStorage × SourceProjectionChanges)
    (expiration : TimedTicketExpiration) : ChunkTicketStorage × SourceProjectionChanges :=
  let (storage, changes) := state
  match storage.tickets.lookup expiration.pos with
  | none => (storage, changes)
  | some tickets =>
    match tickets.findIdx? fun stored => stored.ticket.same expiration.ticket &&
        stored.timedGeneration == some expiration.generation with
    | none => (storage, changes)
    | some index =>
      let tickets := tickets.modify index age
      match tickets[index]? with
      | none => (storage, changes)
      | some stored =>
        if stored.ticket.isTimedOut then
          (storage.takeAt expiration.pos tickets index,
            changes.merge (.forTicket expiration.pos stored.ticket))
        else ({ storage with tickets := storage.tickets.insert expiration.pos tickets },
          changes)

def tickTimedTickets (expirations : List TimedTicketExpiration) :
    ChunkTicketStorage × SourceProjectionChanges :=
  expirations.foldl tickTimedTicket (storage, {})

end ChunkTicketStorage

/-! ### Restoring saved tickets -/

structure PersistentChunkTicket where
  ticketType : Identifier
  chunkX : Int
  chunkZ : Int
  level : ℕ
  ticksLeft : Int

inductive ChunkTicketStorageLoadError where
  | unknownTicketType (ticketType : Identifier)
  | invalidTicketLevel (ticketType : Identifier) (level : ℕ)

namespace ChunkTicketStorage

def addLoadedTicket (storage : ChunkTicketStorage) (pos : ChunkPos) (ticket : ChunkTicket) :
    Option ChunkTicketStorage := do
  let (timedGeneration, storage) ← storage.generationFor ticket.ticketType
  let tickets := (storage.tickets.lookup pos).getD []
  match tickets.findIdx? fun stored => stored.ticket.same ticket with
  | some index =>
    return { storage with
      tickets := storage.tickets.insert pos (tickets.modify index (refresh timedGeneration)) }
  | none =>
    return { storage with
      tickets := storage.tickets.insert pos (tickets ++ [⟨ticket, timedGeneration⟩]) }

def addLoadedPersistentTicket (registry : TicketTypeRegistry) (storage : ChunkTicketStorage)
    (persistent : PersistentChunkTicket) :
    Option (Except ChunkTicketStorageLoadError ChunkTicketStorage) :=
  match registry.byKey persistent.ticketType with
  | none => some (.error (.unknownTicketType persistent.ticketType))
  | some ticketType =>
    match ChunkTicketLevel.new persistent.level with
    | none => some (.error (.invalidTicketLevel persistent.ticketType persistent.level))
    | some ticketLevel =>
      (storage.addLoadedTicket ⟨persistent.chunkX, persistent.chunkZ⟩
        ⟨ticketType, ticketLevel, persistent.ticksLeft⟩).map .ok

/-- Restore registered ticket types, skipping entries that cannot be restored. -/
def fromPersistent (registry : TicketTypeRegistry) (persistent : List PersistentChunkTicket) :
    Option ChunkTicketStorage :=
  persistent.foldlM (fun storage ticket =>
    (storage.addLoadedPersistentTicket registry ticket).map fun
      | .ok storage => storage
      | .error _ => storage) new

end ChunkTicketStorage

/-!
### Saving tickets

Tickets of persistent types are saved under the key of their type, in an order that does not depend
on the hasher.
-/

def TicketType.persist (ticketType : TicketType) : Bool := ticketType.flags.contains .persist

def StoredChunkTicket.toPersistent (stored : StoredChunkTicket) (pos : ChunkPos) :
    Option PersistentChunkTicket :=
  let ticketType := stored.ticket.ticketType
  if ticketType.persist then
    some
      { ticketType := ticketType.key
        chunkX := pos.x
        chunkZ := pos.y
        level := stored.ticket.ticketLevel.raw
        ticksLeft := stored.ticket.ticksLeft }
  else none

namespace ChunkTicketStorage

def persistentLe (left right : PersistentChunkTicket) : Bool :=
  if (left.chunkX, left.chunkZ) ≠ (right.chunkX, right.chunkZ) then
    ChunkPos.keyLe ⟨left.chunkX, left.chunkZ⟩ ⟨right.chunkX, right.chunkZ⟩
  else if left.ticketType ≠ right.ticketType then left.ticketType.le right.ticketType
  else decide (left.level ≤ right.level)

def toPersistent (order : HashMap.IterationOrder ChunkPos (List StoredChunkTicket))
    (storage : ChunkTicketStorage) : List PersistentChunkTicket :=
  ((order.toList storage.tickets).flatMap fun entry =>
    entry.2.filterMap fun stored => stored.toPersistent entry.1).mergeSort persistentLe

def persistentPart (storage : ChunkTicketStorage) : ChunkTicketStorage :=
  { storage with
    tickets := storage.tickets.mapValues fun tickets =>
      tickets.filter fun stored => stored.ticket.ticketType.persist }

end ChunkTicketStorage

end Steel

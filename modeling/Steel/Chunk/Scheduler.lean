import Mathlib.Data.Finset.Sort
import Steel.Chunk.TicketStorage

/-!
# Ticket ingress

Gameplay submits ticket operations under the ingress lock. Leases of a chunk request are counted, so
that the first one adds the ticket they share and the last one removes it. A panic of the source is
`none`.
-/

namespace Steel

abbrev ChunkTicketReceipt := ℕ

structure TicketOperationIngress where
  storage : ChunkTicketStorage
  chunkRequestLeases : HashMap (ChunkPos × ChunkTicketLevel) ℕ
  latestReceipt : ChunkTicketReceipt
  dirtyLoadPositions : Finset ChunkPos
  dirtySimulationPositions : Finset ChunkPos

namespace TicketOperationIngress

def new (storage : ChunkTicketStorage) : TicketOperationIngress :=
  { storage
    chunkRequestLeases := ∅
    latestReceipt := 0
    dirtyLoadPositions := ∅
    dirtySimulationPositions := ∅ }

variable (ingress : TicketOperationIngress)

def recordChanges (changes : SourceProjectionChanges) : TicketOperationIngress :=
  { ingress with
    dirtyLoadPositions := ingress.dirtyLoadPositions ∪ changes.loadPositions.toFinset
    dirtySimulationPositions :=
      ingress.dirtySimulationPositions ∪ changes.simulationPositions.toFinset }

def allocateReceipt : Option (TicketOperationIngress × ChunkTicketReceipt) :=
  if ingress.latestReceipt = u64Max then none
  else some ({ ingress with latestReceipt := ingress.latestReceipt + 1 },
    ingress.latestReceipt + 1)

def submitAll {α : Type} (step : TicketOperationIngress → α → Option TicketOperationIngress)
    (ingress : TicketOperationIngress) (items : List α) :
    Option (TicketOperationIngress × Option ChunkTicketReceipt) :=
  if items.isEmpty then some (ingress, none)
  else do
    let (ingress, receipt) ← (← items.foldlM step ingress).allocateReceipt
    return (ingress, some receipt)

def addTicket (pos : ChunkPos) (ticket : ChunkTicket) : Option TicketOperationIngress :=
  (ingress.storage.addTicket pos ticket).map fun (storage, changes) =>
    { ingress with storage }.recordChanges changes

def removeTicket (pos : ChunkPos) (ticket : ChunkTicket) : TicketOperationIngress :=
  let (storage, changes) := ingress.storage.removeTicket pos ticket
  { ingress with storage }.recordChanges changes

def acquireLease (ticketLevel : ChunkTicketLevel) (ingress : TicketOperationIngress)
    (pos : ChunkPos) : Option TicketOperationIngress :=
  let leaseCount := (ingress.chunkRequestLeases.lookup (pos, ticketLevel)).getD 0
  if leaseCount = usizeMax then none
  else
    let ingress := { ingress with
      chunkRequestLeases := ingress.chunkRequestLeases.insert (pos, ticketLevel) (leaseCount + 1) }
    if leaseCount = 0 then ingress.addTicket pos (.new .chunkRequest ticketLevel)
    else some ingress

def acquireChunkRequestLeases (positions : List ChunkPos) (ticketLevel : ChunkTicketLevel) :
    Option (TicketOperationIngress × Option ChunkTicketReceipt) :=
  ingress.submitAll (acquireLease ticketLevel) positions

def releaseLease (ticketLevel : ChunkTicketLevel) (ingress : TicketOperationIngress)
    (pos : ChunkPos) : Option TicketOperationIngress :=
  match ingress.chunkRequestLeases.lookup (pos, ticketLevel) with
  | none => none
  | some leaseCount =>
    if leaseCount = 1 then
      some ({ ingress with
        chunkRequestLeases := ingress.chunkRequestLeases.erase (pos, ticketLevel)
      }.removeTicket pos (.new .chunkRequest ticketLevel))
    else some { ingress with
      chunkRequestLeases :=
        ingress.chunkRequestLeases.insert (pos, ticketLevel) (leaseCount - 1) }

def releaseChunkRequestLeases (positions : List ChunkPos) (ticketLevel : ChunkTicketLevel) :
    Option (TicketOperationIngress × Option ChunkTicketReceipt) :=
  ingress.submitAll (releaseLease ticketLevel) positions

end TicketOperationIngress

end Steel

import Steel.Chunk.PlayerChunkView
import Steel.Player.ChunkSender

/-!
# Tracking a player's view

The view of one player, its chunk sender and the batches that are on their way. A view change and a
removal hold the lock of the view from beginning to end and take the sender's lock in between;
preparing and committing a batch take the sender's lock, committing also that of the view.
-/

namespace Steel

/-- The lock of the tracking view: free, or held by a call that has come this far. -/
inductive ViewLock where
  | free
  /-- `update_player_status` told the sender and stores the new view next. -/
  | storing (newView : PlayerChunkView)
  /-- `remove_player` took the view and clears the sender next. -/
  | clearing (removedView : Option PlayerChunkView)
deriving DecidableEq

structure PlayerTracking (α : Type) where
  lastTrackingView : Option PlayerChunkView
  viewLock : ViewLock
  chunkSender : ChunkSender
  chunkSendEpoch : UInt32
  connectionClosed : Bool
  prepared : List PreparedBatch
  encoded : List (PreparedBatch × List (EncodedChunk α))
  /-- The packets since the last time the client's world was cleared. -/
  packets : List (ChunkPacket α)

namespace PlayerTracking

variable {α : Type}

def initial : PlayerTracking α where
  lastTrackingView := none
  viewLock := .free
  chunkSender := .empty
  chunkSendEpoch := 0
  connectionClosed := false
  prepared := []
  encoded := []
  packets := []

/-- The callbacks of the view difference. The connection is asked anew for every dropped chunk. -/
def applyChange (closed : ChunkPos → Bool) (sending : ChunkSender × List (ChunkPacket α)) :
    ViewChange → ChunkSender × List (ChunkPacket α)
  | .added pos => (sending.1.markChunkPendingToSend pos, sending.2)
  | .removed pos =>
    let dropped := sending.1.dropChunk (closed pos) pos
    (dropped.1, sending.2 ++ dropped.2)

/-- What `update_player_status` does to the sender and puts on the connection. -/
def updateSender (lastView : Option PlayerChunkView) (newView : PlayerChunkView)
    (closed : ChunkPos → Bool) (sending : ChunkSender × List (ChunkPacket α)) :
    ChunkSender × List (ChunkPacket α) :=
  let center : ChunkPacket α := .setChunkCenter newView.center.x newView.center.y
  match lastView with
  | some lastView =>
    (lastView.difference newView).foldl (applyChange closed)
      (sending.1,
        if lastView.center ≠ newView.center then sending.2 ++ [center] else sending.2)
  | none => (newView.forEach.foldl ChunkSender.markChunkPendingToSend sending.1,
      sending.2 ++ [center])

/-- The steps between which other threads run. -/
inductive Step : PlayerTracking α → PlayerTracking α → Prop
  /-- The connection may close at any time, also between two of its readings. -/
  | updateSender {tracking : PlayerTracking α} (newView : PlayerChunkView)
      (closed : ChunkPos → Bool) (closedAfter : Bool)
      (hfree : tracking.viewLock = .free) (hchanged : tracking.lastTrackingView ≠ some newView)
      (hbefore : tracking.connectionClosed → ∀ pos, closed pos)
      (hafter : ∀ pos, closed pos → closedAfter)
      (hclosed : tracking.connectionClosed → closedAfter) :
      Step tracking
        { tracking with
          viewLock := .storing newView
          chunkSender := (PlayerTracking.updateSender tracking.lastTrackingView newView closed
            (tracking.chunkSender, tracking.packets)).1
          packets := (PlayerTracking.updateSender tracking.lastTrackingView newView closed
            (tracking.chunkSender, tracking.packets)).2
          connectionClosed := closedAfter }
  | storeView {tracking : PlayerTracking α} {newView : PlayerChunkView}
      (hlock : tracking.viewLock = .storing newView) :
      Step tracking { tracking with lastTrackingView := some newView, viewLock := .free }
  | takeView {tracking : PlayerTracking α} (hfree : tracking.viewLock = .free) :
      Step tracking
        { tracking with
          lastTrackingView := none
          viewLock := .clearing tracking.lastTrackingView }
  | clearWorld {tracking : PlayerTracking α} {removedView : Option PlayerChunkView}
      (hlock : tracking.viewLock = .clearing removedView) :
      Step tracking
        { tracking with
          viewLock := .free
          chunkSender := tracking.chunkSender.clearWorldChunks
          chunkSendEpoch := tracking.chunkSendEpoch + 1
          packets := [] }
  | prepare {tracking : PlayerTracking α} (iteration : List ChunkPos)
      (holders : ChunkPos → Option (HolderId × HolderReading)) (playerChunkPos : ChunkPos)
      (maxBatchSize : Option ℕ) {batch : PreparedBatch}
      (hiteration : iteration.toFinset = tracking.chunkSender.pendingChunks)
      (hbatch : tracking.chunkSender.prepareBatch iteration holders playerChunkPos
        tracking.chunkSendEpoch maxBatchSize = some batch) :
      Step tracking { tracking with prepared := tracking.prepared ++ [batch] }
  | encode {tracking : PlayerTracking α} {batch : PreparedBatch}
      (cache : HashMap ChunkPos (EncodedChunk α))
      (readings : ChunkPos → ChunkSender.EncodeReadings α)
      (hbatch : batch ∈ tracking.prepared) :
      Step tracking
        { tracking with
          prepared := tracking.prepared.erase batch
          encoded := tracking.encoded ++
            [(batch, (ChunkSender.encodeBatch batch cache readings).1)] }
  | commit {tracking : PlayerTracking α} {view : PlayerChunkView} {batch : PreparedBatch}
      {encodedChunks : List (EncodedChunk α)} (readings : ChunkPos → HolderReading)
      {others others' : List (PreparedBatch × List (EncodedChunk α))}
      (hfree : tracking.viewLock = .free) (hview : tracking.lastTrackingView = some view)
      (hencoded : tracking.encoded = others ++ (batch, encodedChunks) :: others') :
      Step tracking
        { tracking with
          chunkSender := (tracking.chunkSender.commitBatch batch encodedChunks
            tracking.chunkSendEpoch readings).2.1
          packets := tracking.packets ++ (tracking.chunkSender.commitBatch batch encodedChunks
            tracking.chunkSendEpoch readings).2.2
          encoded := others ++ others' }
  /-- Without a view, or outside its world, the player's batch is given up. -/
  | discard {tracking : PlayerTracking α} {batch : PreparedBatch}
      {encodedChunks : List (EncodedChunk α)}
      {others others' : List (PreparedBatch × List (EncodedChunk α))}
      (hfree : tracking.viewLock = .free)
      (hencoded : tracking.encoded = others ++ (batch, encodedChunks) :: others') :
      Step tracking { tracking with encoded := others ++ others' }
  | close {tracking : PlayerTracking α} : Step tracking { tracking with connectionClosed := true }

inductive Reached : PlayerTracking α → Prop
  | initial : Reached initial
  | step {tracking after : PlayerTracking α} (h : Reached tracking) (hstep : Step tracking after) :
      Reached after

end PlayerTracking

end Steel

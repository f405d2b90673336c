import Steel.Lib.HashMap
import Steel.Utils.Position

/-!
# Players by chunk

A map from chunks to the players that track them, and back. Both are concurrent maps: a call is a
sequence of map operations, between which calls for other players run.
-/

namespace Steel

structure PlayerAreaMap where
  chunks : HashMap ChunkPos (Finset Int)
  playerChunks : HashMap Int (Finset ChunkPos)

/-- The map operations that calls are made of. -/
inductive AreaOperation where
  | addUpdate (chunk : ChunkPos)
  | addInsert (chunk : ChunkPos)
  | removeUpdate (chunk : ChunkPos)
  | removeIfEmpty (chunk : ChunkPos)
  | insertPlayer (chunks : Finset ChunkPos)
  | removePlayer
  | updatePlayer (addedChunks removedChunks : List ChunkPos)
deriving DecidableEq

namespace PlayerAreaMap

def new : PlayerAreaMap := { chunks := ∅, playerChunks := ∅ }

def getTrackingPlayers (map : PlayerAreaMap) (chunk : ChunkPos) : Finset Int :=
  (map.chunks.lookup chunk).getD ∅

def recordedChunks (map : PlayerAreaMap) (entityId : Int) : Finset ChunkPos :=
  (map.playerChunks.lookup entityId).getD ∅

/-- One map operation, and the operations that follow from its outcome. `iteration` is the order in
which a set of chunks is walked. -/
def perform (map : PlayerAreaMap) (entityId : Int) (iteration : Finset ChunkPos → List ChunkPos) :
    AreaOperation → List AreaOperation × PlayerAreaMap
  | .addUpdate chunk =>
    match map.chunks.lookup chunk with
    | some set => ([], { map with chunks := map.chunks.insert chunk (insert entityId set) })
    | none => ([.addInsert chunk], map)
  | .addInsert chunk =>
    -- An insertion under a key that is present fails, and the failure is ignored.
    match map.chunks.lookup chunk with
    | some _ => ([], map)
    | none => ([], { map with chunks := map.chunks.insert chunk {entityId} })
  | .removeUpdate chunk =>
    match map.chunks.lookup chunk with
    | some set =>
      (if set.erase entityId = ∅ then [.removeIfEmpty chunk] else [],
        { map with chunks := map.chunks.insert chunk (set.erase entityId) })
    | none => ([], map)
  | .removeIfEmpty chunk =>
    match map.chunks.lookup chunk with
    | some set => ([], if set = ∅ then { map with chunks := map.chunks.erase chunk } else map)
    | none => ([], map)
  | .insertPlayer chunks =>
    match map.playerChunks.lookup entityId with
    | some _ => ([], map)
    | none => ([], { map with playerChunks := map.playerChunks.insert entityId chunks })
  | .removePlayer =>
    match map.playerChunks.lookup entityId with
    | some chunks =>
      ((iteration chunks).map .removeUpdate,
        { map with playerChunks := map.playerChunks.erase entityId })
    | none => ([], map)
  | .updatePlayer addedChunks removedChunks =>
    match map.playerChunks.lookup entityId with
    | some set =>
      ([], { map with
        playerChunks := map.playerChunks.insert entityId
          ((set \ removedChunks.toFinset) ∪ addedChunks.toFinset) })
    | none => ([], map)

def onPlayerJoin (view : List ChunkPos) : List AreaOperation :=
  view.map .addUpdate ++ [.insertPlayer view.toFinset]

def onPlayerLeave : List AreaOperation := [.removePlayer]

def onPlayerViewChange (addedChunks removedChunks : List ChunkPos) : List AreaOperation :=
  if addedChunks = [] ∧ removedChunks = [] then []
  else removedChunks.map .removeUpdate ++ addedChunks.map .addUpdate ++
    [.updatePlayer addedChunks removedChunks]

end PlayerAreaMap

end Steel

import Steel.Chunk.StatusWork

/-!
# Saving and unloading a chunk holder

One chunk holder with data installed, the threads that write to it, the producer that has claimed
its next status, the scheduler that unloads and revives it, and the save tasks and removals of
`process_unloads`. Every step is one atomic operation, or a decision of `process_unloads` on an
entry whose only reference is the map's own.

Runtime entities are not modelled: whether some are to be saved only decides if a save starts, or if
it goes on without the dirty flag, and both may happen here. Pending light changes only put a
removal off. Panics and cancelled save tasks are left out.
-/

namespace Steel

open Function

inductive SaveLifecycle where
  | active
  | unloading
  | preparing
deriving DecidableEq, Repr

/-- Where the holder is, and how far the scheduler is with moving it. -/
inductive HolderPlace where
  /-- In `chunks`. -/
  | active
  /-- In `chunks`, after `begin_unloading`. -/
  | closing
  | detached
  /-- In `unloading_chunks`, with the scheduler's reference still alive. -/
  | settling
  /-- In `unloading_chunks`. -/
  | unloading
  | reviving
  | revived
  /-- Finalized by `process_unloads`. -/
  | removed
deriving DecidableEq, Repr

namespace HolderPlace

def inChunks : HolderPlace → Bool
  | .active | .closing => true
  | _ => false

def inUnloadingChunks : HolderPlace → Bool
  | .settling | .unloading => true
  | _ => false

end HolderPlace

/-- A thread that writes chunk data and marks the chunk dirty after. -/
inductive WriterStage where
  | idle
  | referenced
  | written
deriving DecidableEq

/-- The producer that claims the holder's next status; there is one at a time. -/
inductive GenerationStage where
  | idle
  | referenced
  | working (status : ChunkStatus)
  /-- In `finish_generation_status`, between `mark_dirty` and the publication. -/
  | marked (status : ChunkStatus)
deriving DecidableEq

structure StoredChunk (K V : Type) where
  data : K → V
  status : ChunkStatus

inductive SaveStage (K V : Type) where
  | idle
  | spawned
  | preparing
  /-- `try_chunk` found the chunk. -/
  | checked
  | statusRead (status : ChunkStatus)
  | taken (status : ChunkStatus) (dirty : Bool)
  | reading (status : ChunkStatus) (dirty : Bool) (snapshot : K → Option V)
  | assembled (status : ChunkStatus) (dirty : Bool) (prepared : Option (StoredChunk K V))
  | storing (prepared : StoredChunk K V)
  /-- The discarded save took the flag, which is to be set again. -/
  | remarking
  /-- About to run `mark_chunk_dirty_for_save_retry`. -/
  | retrying

structure ChunkPersistence (K V : Type) where
  data : K → V
  publishedStatus : Option ChunkStatus
  dirty : Bool
  lifecycle : SaveLifecycle
  place : HolderPlace
  /-- The copy that was loaded, or that was last written successfully. -/
  stored : Option (StoredChunk K V)
  writers : ℕ → WriterStage
  producer : GenerationStage
  save : SaveStage K V

inductive SaveEvent where
  | takeDirty (status : ChunkStatus)
  | other
deriving DecidableEq, Repr

variable {K V : Type}

namespace ChunkPersistence

def loaded (chunk : StoredChunk K V) : ChunkPersistence K V where
  data := chunk.data
  publishedStatus := some chunk.status
  dirty := false
  lifecycle := .active
  place := .active
  stored := some chunk
  writers := fun _ => .idle
  producer := .idle
  save := .idle

/-- A holder whose chunk is new; a stored copy that could not be loaded may exist. -/
def generated (data : K → V) (stored : Option (StoredChunk K V)) : ChunkPersistence K V where
  data := data
  publishedStatus := none
  dirty := true
  lifecycle := .active
  place := .active
  stored := stored
  writers := fun _ => .idle
  producer := .idle
  save := .idle

variable (holder : ChunkPersistence K V)

def Savable : Prop :=
  statusRank (some .structureStarts) ≤ statusRank holder.publishedStatus

instance (holder : ChunkPersistence K V) : Decidable holder.Savable :=
  inferInstanceAs (Decidable (_ ≤ _))

/-- The strong count of the map's entry is one. -/
structure Unreferenced (holder : ChunkPersistence K V) : Prop where
  writers : ∀ writer, holder.writers writer = .idle
  producer : holder.producer = .idle
  save : holder.save = .idle

/-- `process_unloads` removes the holder if no runtime entities are to be saved. -/
structure Removable (holder : ChunkPersistence K V) : Prop where
  place : holder.place = .unloading
  unreferenced : holder.Unreferenced
  clean : ¬ (holder.Savable ∧ holder.dirty = true)

def setWriter (writer : ℕ) (stage : WriterStage) : ChunkPersistence K V :=
  { holder with writers := update holder.writers writer stage }

def markDirty : ChunkPersistence K V :=
  { holder with dirty := true }

/-- The compare-exchange at the end of a preparation: whether it succeeded, and the holder. -/
def endSavePreparation : Bool × ChunkPersistence K V :=
  if holder.lifecycle = .preparing then (true, { holder with lifecycle := .unloading })
  else (false, holder)

def publishGeneratedStatus (status : ChunkStatus) : ChunkPersistence K V :=
  if statusRank holder.publishedStatus < statusRank (some status) then
    { holder with publishedStatus := some status }
  else holder

/-- The stage of a save task whose preparation gave this result. -/
def afterPreparation (dirty : Bool) : Option (StoredChunk K V) → SaveStage K V
  | some prepared => .storing prepared
  | none => if dirty then .remarking else .idle

inductive WriterStep [DecidableEq K] : ChunkPersistence K V → ChunkPersistence K V → Prop
  /-- Light updates also find holders that are being unloaded. -/
  | reference {holder : ChunkPersistence K V} (writer : ℕ)
      (hplace : holder.place.inChunks = true ∨ holder.place.inUnloadingChunks = true)
      (hstage : holder.writers writer = .idle) :
      WriterStep holder (holder.setWriter writer .referenced)
  | write {holder : ChunkPersistence K V} (writer : ℕ) (key : K) (value : V)
      (hstage : holder.writers writer ≠ .idle) :
      WriterStep holder
        ({ holder with data := update holder.data key value }.setWriter writer .written)
  | markDirty {holder : ChunkPersistence K V} (writer : ℕ)
      (hstage : holder.writers writer = .written) :
      WriterStep holder (holder.markDirty.setWriter writer .referenced)
  | release {holder : ChunkPersistence K V} (writer : ℕ)
      (hstage : holder.writers writer = .referenced) :
      WriterStep holder (holder.setWriter writer .idle)

inductive ProducerStep [DecidableEq K] : ChunkPersistence K V → ChunkPersistence K V → Prop
  | reference {holder : ChunkPersistence K V} (hplace : holder.place.inChunks = true)
      (hstage : holder.producer = .idle) :
      ProducerStep holder { holder with producer := .referenced }
  | claim {holder : ChunkPersistence K V} (status : ChunkStatus)
      (hstage : holder.producer = .referenced) (hparent : holder.publishedStatus = status.parent) :
      ProducerStep holder { holder with producer := .working status }
  | write {holder : ChunkPersistence K V} (key : K) (value : V) {status : ChunkStatus}
      (hstage : holder.producer = .working status) :
      ProducerStep holder { holder with data := update holder.data key value }
  /-- `finish_generation_status` up to its `mark_dirty`. -/
  | finish {holder : ChunkPersistence K V} {status : ChunkStatus}
      (hstage : holder.producer = .working status) :
      ProducerStep holder
        { (if statusRank holder.publishedStatus < statusRank (some status) then holder.markDirty
            else holder) with producer := .marked status }
  | publish {holder : ChunkPersistence K V} {status : ChunkStatus}
      (hstage : holder.producer = .marked status) :
      ProducerStep holder
        { holder.publishGeneratedStatus status with producer := .referenced }
  | release {holder : ChunkPersistence K V} (hstage : holder.producer = .referenced) :
      ProducerStep holder { holder with producer := .idle }

/-- `update_chunk_level` -/
inductive SchedulerStep : ChunkPersistence K V → ChunkPersistence K V → Prop
  | beginUnloading {holder : ChunkPersistence K V} (hplace : holder.place = .active)
      (hlifecycle : holder.lifecycle = .active) :
      SchedulerStep holder { holder with lifecycle := .unloading, place := .closing }
  | removeActive {holder : ChunkPersistence K V} (hplace : holder.place = .closing) :
      SchedulerStep holder { holder with place := .detached }
  | insertUnloading {holder : ChunkPersistence K V} (hplace : holder.place = .detached) :
      SchedulerStep holder { holder with place := .settling }
  | leaveUnloading {holder : ChunkPersistence K V} (hplace : holder.place = .settling) :
      SchedulerStep holder { holder with place := .unloading }
  | removeUnloading {holder : ChunkPersistence K V} (hplace : holder.place = .unloading) :
      SchedulerStep holder { holder with place := .reviving }
  | reviveFromUnloading {holder : ChunkPersistence K V} (hplace : holder.place = .reviving) :
      SchedulerStep holder { holder with lifecycle := .active, place := .revived }
  | insertActive {holder : ChunkPersistence K V} (hplace : holder.place = .revived) :
      SchedulerStep holder { holder with place := .active }

/-- `process_unloads`, `save_chunk` and `prepare_chunk_save_on_pool` -/
inductive SaveStep [DecidableEq K] :
    ChunkPersistence K V → SaveEvent → ChunkPersistence K V → Prop
  | spawn {holder : ChunkPersistence K V} (hplace : holder.place = .unloading)
      (hunreferenced : holder.Unreferenced) :
      SaveStep holder .other { holder with save := .spawned }
  | remove {holder : ChunkPersistence K V} (hremovable : holder.Removable) :
      SaveStep holder .other { holder with place := .removed }
  | tryBeginSavePreparation {holder : ChunkPersistence K V} (hstage : holder.save = .spawned)
      (hlifecycle : holder.lifecycle = .unloading) :
      SaveStep holder .other { holder with lifecycle := .preparing, save := .preparing }
  /-- The holder was revived before the preparation. -/
  | refuse {holder : ChunkPersistence K V} (hstage : holder.save = .spawned)
      (hlifecycle : holder.lifecycle ≠ .unloading) :
      SaveStep holder .other { holder with save := .idle }
  | tryChunk {holder : ChunkPersistence K V} (hstage : holder.save = .preparing)
      (hsavable : holder.Savable) :
      SaveStep holder .other { holder with save := .checked }
  | bail {holder : ChunkPersistence K V} (hstage : holder.save = .preparing)
      (hsavable : ¬ holder.Savable) :
      SaveStep holder .other { holder.endSavePreparation.2 with save := .idle }
  | readStatus {holder : ChunkPersistence K V} {status : ChunkStatus}
      (hstage : holder.save = .checked) (hpublished : holder.publishedStatus = some status) :
      SaveStep holder .other { holder with save := .statusRead status }
  | takeDirty {holder : ChunkPersistence K V} {status : ChunkStatus}
      (hstage : holder.save = .statusRead status) :
      SaveStep holder (.takeDirty status)
        { holder with dirty := false, save := .taken status holder.dirty }
  | prepare {holder : ChunkPersistence K V} {status : ChunkStatus} {dirty : Bool}
      (hstage : holder.save = .taken status dirty) :
      SaveStep holder .other { holder with save := .reading status dirty fun _ => none }
  /-- Neither the flag was set nor are runtime entities to be saved. -/
  | skip {holder : ChunkPersistence K V} {status : ChunkStatus}
      (hstage : holder.save = .taken status false) :
      SaveStep holder .other { holder with save := .assembled status false none }
  | snapshot {holder : ChunkPersistence K V} (key : K) {status : ChunkStatus} {dirty : Bool}
      {snapshot : K → Option V} (hstage : holder.save = .reading status dirty snapshot) :
      SaveStep holder .other
        { holder with
          save := .reading status dirty (update snapshot key (some (holder.data key))) }
  | assemble {holder : ChunkPersistence K V} (data : K → V) {status : ChunkStatus} {dirty : Bool}
      {snapshot : K → Option V} (hstage : holder.save = .reading status dirty snapshot)
      (hdata : ∀ key, snapshot key = some (data key)) :
      SaveStep holder .other { holder with save := .assembled status dirty (some ⟨data, status⟩) }
  /-- The chunk was promoted to full meanwhile. -/
  | abandon {holder : ChunkPersistence K V} {status : ChunkStatus} {dirty : Bool}
      {snapshot : K → Option V} (hstage : holder.save = .reading status dirty snapshot) :
      SaveStep holder .other { holder with save := .assembled status dirty none }
  | finish {holder : ChunkPersistence K V} {status : ChunkStatus} {dirty : Bool}
      {prepared : Option (StoredChunk K V)}
      (hstage : holder.save = .assembled status dirty prepared) :
      SaveStep holder .other
        { holder.endSavePreparation.2 with
          save := afterPreparation dirty
            (if holder.endSavePreparation.1 then prepared else none) }
  | remark {holder : ChunkPersistence K V} (hstage : holder.save = .remarking) :
      SaveStep holder .other { holder.markDirty with save := .idle }
  /-- The storage returned `Ok(true)`. -/
  | store {holder : ChunkPersistence K V} {prepared : StoredChunk K V}
      (hstage : holder.save = .storing prepared) :
      SaveStep holder .other { holder with stored := some prepared, save := .idle }
  /-- The storage returned `Ok(false)` or an error. -/
  | fail {holder : ChunkPersistence K V} {prepared : StoredChunk K V}
      (hstage : holder.save = .storing prepared) :
      SaveStep holder .other { holder with save := .retrying }
  | retry {holder : ChunkPersistence K V} (hstage : holder.save = .retrying) :
      SaveStep holder .other
        { (if holder.Savable then holder.markDirty else holder) with save := .idle }

inductive Step [DecidableEq K] : ChunkPersistence K V → SaveEvent → ChunkPersistence K V → Prop
  | writer {holder after : ChunkPersistence K V} (h : WriterStep holder after) :
      Step holder .other after
  | producer {holder after : ChunkPersistence K V} (h : ProducerStep holder after) :
      Step holder .other after
  | scheduler {holder after : ChunkPersistence K V} (h : SchedulerStep holder after) :
      Step holder .other after
  | save {holder after : ChunkPersistence K V} {event : SaveEvent}
      (h : SaveStep holder event after) :
      Step holder event after

/-- Runs whose steps all meet a condition. -/
inductive Reached [DecidableEq K] (condition : ChunkPersistence K V → SaveEvent → Prop) :
    ChunkPersistence K V → Prop
  | loaded (chunk : StoredChunk K V) : Reached condition (loaded chunk)
  | generated (data : K → V) (stored : Option (StoredChunk K V)) :
      Reached condition (generated data stored)
  | step {holder after : ChunkPersistence K V} {event : SaveEvent} (h : Reached condition holder)
      (hstep : Step holder event after) (hcondition : condition holder event) :
      Reached condition after

/-- A save takes the flag while the status it read is the published one and no producer is between
marking the chunk dirty and publishing. -/
def TakesCurrent : SaveEvent → Prop
  | .takeDirty status =>
    holder.publishedStatus = some status ∧ ∀ claimed, holder.producer ≠ .marked claimed
  | .other => True

end ChunkPersistence

end Steel

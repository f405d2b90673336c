import Mathlib.Logic.Function.Basic
import Steel.Chunk.Status

/-!
# Producers and waiters of a chunk's statuses

One chunk holder, with the status that work has started on, the status that is published, the
producers that claim, publish and drop statuses, and the callers that wait for a claimed status.
Every step is one atomic operation; a producer of a status other than the first claims it after its
parent was published.

What producers do to the chunk's data is not modelled, nor are the tick queues of a full chunk. A
failed assertion of a producer drops its claim like any other way of giving up.
-/

namespace Steel

/-- No status before all others: the index plus one, as published statuses are encoded. -/
def statusRank : Option ChunkStatus → ℕ
  | none => 0
  | some status => status.getIndex + 1

/-- How a producer publishes: the status it claimed, or the status of the chunk it loaded. -/
inductive Publication where
  | generated
  | stored (loaded : ChunkStatus)
deriving DecidableEq, Repr

def Publication.target (status : ChunkStatus) : Publication → ChunkStatus
  | .generated => status
  | .stored loaded => loaded

inductive ProducerStage where
  | idle
  | working (status : ChunkStatus)
  /-- In `mark_status_work_published`, before the first load. -/
  | marking (status : ChunkStatus) (publication : Publication)
  /-- In its loop. -/
  | exchanging (status : ChunkStatus) (publication : Publication) (current : Option ChunkStatus)
  | publishing (status : ChunkStatus) (publication : Publication)
  | notifying (status : ChunkStatus)
  | published (status : ChunkStatus)
  /-- The claim is dropped without a publication. -/
  | abandoning (status : ChunkStatus)
  /-- The claim is dropped after the publication. -/
  | dropping (status : ChunkStatus)
  | rollingBack (status : ChunkStatus) (rollback : Option ChunkStatus)
  | waking
deriving DecidableEq

/-- A caller of `await_claimed_chunk_status`. `notified` tells whether its notification came. -/
inductive WaiterStage where
  | idle
  | created (status : ChunkStatus) (notified : Bool)
  | unpublished (status : ChunkStatus) (notified : Bool)
  | allowed (status : ChunkStatus) (notified : Bool)
  | parked (status : ChunkStatus) (notified : Bool)
  | returned (result : Option ChunkStatus)
deriving DecidableEq

def WaiterStage.notify : WaiterStage → WaiterStage
  | .created status _ => .created status true
  | .unpublished status _ => .unpublished status true
  | .allowed status _ => .allowed status true
  | .parked status _ => .parked status true
  | stage => stage

structure StatusWork where
  startedWork : Option ChunkStatus
  publishedStatus : Option ChunkStatus
  highestAllowedStatus : Option ChunkStatus
  producers : ℕ → ProducerStage
  waiters : ℕ → WaiterStage
  /-- The statuses that are disallowed and were so at some wake-up since they became it. -/
  wokenDisallowed : ChunkStatus → Bool

inductive ClaimResult where
  | claimed
  | alreadyStarted
  | panicked
deriving DecidableEq, Repr

namespace StatusWork

def new (highestAllowedStatus : Option ChunkStatus) : StatusWork where
  startedWork := none
  publishedStatus := none
  highestAllowedStatus := highestAllowedStatus
  producers := fun _ => .idle
  waiters := fun _ => .idle
  wokenDisallowed := fun _ => false

variable (work : StatusWork)

def isStatusDisallowed (status : ChunkStatus) : Bool :=
  statusRank work.highestAllowedStatus < statusRank (some status)

/-- The result of the compare-exchange, and the started work after it. -/
def claimStatusWork (status : ChunkStatus) : ClaimResult × Option ChunkStatus :=
  if work.startedWork = status.parent then (.claimed, some status)
  else if statusRank (some status) ≤ statusRank work.startedWork then
    (.alreadyStarted, work.startedWork)
  else (.panicked, work.startedWork)

def statusWorkCovers (status : ChunkStatus) : Bool :=
  statusRank (some status) ≤ statusRank work.startedWork

def setProducer (producer : ℕ) (stage : ProducerStage) : StatusWork :=
  { work with producers := Function.update work.producers producer stage }

def setWaiter (waiter : ℕ) (stage : WaiterStage) : StatusWork :=
  { work with waiters := Function.update work.waiters waiter stage }

def notifyWaiters : StatusWork :=
  { work with
    waiters := fun waiter => (work.waiters waiter).notify
    wokenDisallowed := fun status => work.wokenDisallowed status || work.isStatusDisallowed status }

inductive ProducerStep : StatusWork → StatusWork → Prop
  | claim {work : StatusWork} (producer : ℕ) (status : ChunkStatus)
      (hidle : work.producers producer = .idle)
      (hparent : statusRank status.parent ≤ statusRank work.publishedStatus)
      (hclaimed : (work.claimStatusWork status).1 = .claimed) :
      ProducerStep work
        ({ work with startedWork := (work.claimStatusWork status).2 }.setProducer producer
          (.working status))
  /-- `finish_generation_status` -/
  | finish {work : StatusWork} (producer : ℕ) {status : ChunkStatus}
      (hstage : work.producers producer = .working status) :
      ProducerStep work (work.setProducer producer (.marking status .generated))
  /-- `store_and_publish_chunk_status`, when its assertions hold. -/
  | store {work : StatusWork} (producer : ℕ) (loaded : ChunkStatus)
      (hstage : work.producers producer = .working .empty)
      (hunpublished : work.publishedStatus = none) :
      ProducerStep work (work.setProducer producer (.marking .empty (.stored loaded)))
  | loadStarted {work : StatusWork} (producer : ℕ) {status : ChunkStatus}
      {publication : Publication} (hstage : work.producers producer = .marking status publication) :
      ProducerStep work
        (work.setProducer producer (.exchanging status publication work.startedWork))
  | markCovered {work : StatusWork} (producer : ℕ) {status : ChunkStatus}
      {publication : Publication} {current : Option ChunkStatus}
      (hstage : work.producers producer = .exchanging status publication current)
      (hcovered : statusRank (some (publication.target status)) ≤ statusRank current) :
      ProducerStep work (work.setProducer producer (.publishing status publication))
  | exchange {work : StatusWork} (producer : ℕ) {status : ChunkStatus}
      {publication : Publication} {current : Option ChunkStatus}
      (hstage : work.producers producer = .exchanging status publication current)
      (hbelow : statusRank current < statusRank (some (publication.target status)))
      (hcurrent : work.startedWork = current) :
      ProducerStep work
        ({ work with startedWork := some (publication.target status) }.setProducer producer
          (.publishing status publication))
  | exchangeFailed {work : StatusWork} (producer : ℕ) {status : ChunkStatus}
      {publication : Publication} {current : Option ChunkStatus}
      (hstage : work.producers producer = .exchanging status publication current)
      (hbelow : statusRank current < statusRank (some (publication.target status)))
      (hcurrent : work.startedWork ≠ current) :
      ProducerStep work
        (work.setProducer producer (.exchanging status publication work.startedWork))
  | publishGenerated {work : StatusWork} (producer : ℕ) {status : ChunkStatus}
      (hstage : work.producers producer = .publishing status .generated) :
      ProducerStep work
        (if statusRank work.publishedStatus < statusRank (some status) then
          { work with publishedStatus := some status }.setProducer producer (.notifying status)
        else work.setProducer producer (.published status))
  | publishStored {work : StatusWork} (producer : ℕ) {status loaded : ChunkStatus}
      (hstage : work.producers producer = .publishing status (.stored loaded)) :
      ProducerStep work
        ({ work with publishedStatus := some loaded }.setProducer producer (.notifying status))
  | notify {work : StatusWork} (producer : ℕ) {status : ChunkStatus}
      (hstage : work.producers producer = .notifying status) :
      ProducerStep work (work.notifyWaiters.setProducer producer (.published status))
  | abandon {work : StatusWork} (producer : ℕ) {status : ChunkStatus}
      (hstage : work.producers producer = .working status) :
      ProducerStep work (work.setProducer producer (.abandoning status))
  | drop {work : StatusWork} (producer : ℕ) {status : ChunkStatus}
      (hstage : work.producers producer = .published status) :
      ProducerStep work (work.setProducer producer (.dropping status))
  /-- `release_status_work_claim`: the status is published. -/
  | releasePublished {work : StatusWork} (producer : ℕ) {status : ChunkStatus}
      (hstage : work.producers producer = .abandoning status ∨
        work.producers producer = .dropping status)
      (hpublished : statusRank (some status) ≤ statusRank work.publishedStatus) :
      ProducerStep work (work.setProducer producer .idle)
  | releaseUnpublished {work : StatusWork} (producer : ℕ) {status : ChunkStatus}
      (hstage : work.producers producer = .abandoning status ∨
        work.producers producer = .dropping status)
      (hunpublished : statusRank work.publishedStatus < statusRank (some status)) :
      ProducerStep work
        (work.setProducer producer (.rollingBack status work.publishedStatus))
  | rollBack {work : StatusWork} (producer : ℕ) {status : ChunkStatus}
      {rollback : Option ChunkStatus}
      (hstage : work.producers producer = .rollingBack status rollback)
      (hcurrent : work.startedWork = some status) :
      ProducerStep work
        ({ work with startedWork := rollback }.setProducer producer .waking)
  | rollBackFailed {work : StatusWork} (producer : ℕ) {status : ChunkStatus}
      {rollback : Option ChunkStatus}
      (hstage : work.producers producer = .rollingBack status rollback)
      (hcurrent : work.startedWork ≠ some status) :
      ProducerStep work (work.setProducer producer .idle)
  | wake {work : StatusWork} (producer : ℕ) (hstage : work.producers producer = .waking) :
      ProducerStep work (work.notifyWaiters.setProducer producer .idle)

/-- One load of `await_claimed_chunk_status` at a time. -/
inductive WaiterStep : StatusWork → StatusWork → Prop
  | create {work : StatusWork} (waiter : ℕ) (status : ChunkStatus)
      (hidle : work.waiters waiter = .idle) :
      WaiterStep work (work.setWaiter waiter (.created status false))
  | loadPublished {work : StatusWork} (waiter : ℕ) {status : ChunkStatus} {notified : Bool}
      (hstage : work.waiters waiter = .created status notified) :
      WaiterStep work
        (work.setWaiter waiter
          (if statusRank (some status) ≤ statusRank work.publishedStatus then
            .returned work.publishedStatus
          else .unpublished status notified))
  | loadAllowed {work : StatusWork} (waiter : ℕ) {status : ChunkStatus} {notified : Bool}
      (hstage : work.waiters waiter = .unpublished status notified) :
      WaiterStep work
        (work.setWaiter waiter
          (if work.isStatusDisallowed status then .returned none else .allowed status notified))
  | loadStarted {work : StatusWork} (waiter : ℕ) {status : ChunkStatus} {notified : Bool}
      (hstage : work.waiters waiter = .allowed status notified) :
      WaiterStep work
        (work.setWaiter waiter
          (if work.statusWorkCovers status then .parked status notified else .returned none))
  | resume {work : StatusWork} (waiter : ℕ) {status : ChunkStatus}
      (hstage : work.waiters waiter = .parked status true) :
      WaiterStep work (work.setWaiter waiter (.created status false))

/-- Ticket levels change what is allowed, with or without a wake-up afterwards. -/
inductive LevelStep : StatusWork → StatusWork → Prop
  | updateAllowed {work : StatusWork} (highestAllowedStatus : Option ChunkStatus) :
      LevelStep work
        { work with
          highestAllowedStatus := highestAllowedStatus
          wokenDisallowed := fun status => work.wokenDisallowed status &&
            { work with highestAllowedStatus := highestAllowedStatus }.isStatusDisallowed status }
  | wakeAllWatchers {work : StatusWork} : LevelStep work work.notifyWaiters

inductive Step : StatusWork → StatusWork → Prop
  | producer {work after : StatusWork} (h : ProducerStep work after) : Step work after
  | waiter {work after : StatusWork} (h : WaiterStep work after) : Step work after
  | level {work after : StatusWork} (h : LevelStep work after) : Step work after

inductive Reached : StatusWork → Prop
  | new (highestAllowedStatus : Option ChunkStatus) : Reached (new highestAllowedStatus)
  | step {work after : StatusWork} (h : Reached work) (hstep : Step work after) : Reached after

end StatusWork

end Steel

import Mathlib.Data.List.Sort
import Mathlib.Data.Prod.Lex
import Steel.Lib.BinaryHeap
import Steel.Lib.HashMap
import Steel.Utils.Position

/-!
# Scheduled ticks of one chunk

Live ticks wait in a heap ordered by trigger tick, priority, sub-tick order and insertion. Saved
ticks are pending until the list is unpacked, which anchors their delays to the current game time.
-/

namespace Steel

inductive TickPriority where
  | extremelyHigh
  | veryHigh
  | high
  | normal
  | low
  | veryLow
  | extremelyLow
deriving DecidableEq, Repr

def TickPriority.value : TickPriority → Int
  | extremelyHigh => -3
  | veryHigh => -2
  | high => -1
  | normal => 0
  | low => 1
  | veryLow => 2
  | extremelyLow => 3

/-- The block or fluid of a tick, known to the scheduler by its address alone. -/
structure TickType where
  key : ℕ
deriving DecidableEq, Repr

abbrev ScheduledTickKey := BlockPos × ℕ

structure ScheduledTick where
  tickType : TickType
  pos : BlockPos
  triggerTick : Int
  priority : TickPriority
  subTickOrder : Int
deriving DecidableEq, Repr

/-- A tick as it is saved: a delay relative to the game time of the save. -/
structure SavedTick where
  tickType : TickType
  pos : BlockPos
  delay : Int
  priority : TickPriority
deriving DecidableEq, Repr

namespace ScheduledTick

def key (tick : ScheduledTick) : ScheduledTickKey := (tick.pos, tick.tickType.key)

/-- The order among heads that are ready: priority, then sub-tick order. -/
def intraTickDrainOrder (tick : ScheduledTick) : ℤ ×ₗ ℤ :=
  toLex (tick.priority.value, tick.subTickOrder)

def drainOrder (tick : ScheduledTick) : ℤ ×ₗ ℤ ×ₗ ℤ :=
  toLex (tick.triggerTick, tick.intraTickDrainOrder)

end ScheduledTick

def SavedTick.key (tick : SavedTick) : ScheduledTickKey := (tick.pos, tick.tickType.key)

structure QueuedTick where
  tick : ScheduledTick
  insertionOrder : ℕ
deriving DecidableEq, Repr

def QueuedTick.order (queued : QueuedTick) : (ℤ ×ₗ ℤ ×ₗ ℤ) ×ₗ ℕ :=
  toLex (queued.tick.drainOrder, queued.insertionOrder)

def QueuedTick.packOrder (queued : QueuedTick) : ℤ ×ₗ ℕ :=
  toLex (queued.tick.subTickOrder, queued.insertionOrder)

structure TickList where
  pendingTicks : Option (List SavedTick)
  ticks : List QueuedTick
  scheduled : Finset ScheduledTickKey
  nextInsertionOrder : ℕ

namespace TickList

def new : TickList :=
  { pendingTicks := none, ticks := [], scheduled := ∅, nextInsertionOrder := 0 }

/-- An empty list whose entries stay relative until it is unpacked. -/
def newPending : TickList :=
  { new with pendingTicks := some [] }

def fromSavedTicks (savedTicks : List SavedTick) : TickList :=
  { newPending with
    scheduled := savedTicks.foldl (fun scheduled tick => insert tick.key scheduled) ∅
    pendingTicks := some savedTicks }

def scheduleSavedPending (list : TickList) (savedTick : SavedTick) : TickList × Bool :=
  if savedTick.key ∈ list.scheduled then (list, false)
  else
    ({ list with
        scheduled := insert savedTick.key list.scheduled
        pendingTicks := some (list.pendingTicks.getD [] ++ [savedTick]) }, true)

def schedulePending (list : TickList) (tickType : TickType) (pos : BlockPos)
    (priority : TickPriority) : TickList × Bool :=
  list.scheduleSavedPending { tickType, pos, delay := 0, priority }

/-- Load the saved ticks of a proto chunk one by one, so the first of equal keys is kept. -/
def fromProtoSavedTicks (savedTicks : List SavedTick) : TickList :=
  savedTicks.foldl (fun list savedTick => (list.scheduleSavedPending savedTick).1) newPending

def pushUnchecked (list : TickList) (tick : ScheduledTick) : TickList :=
  { list with
    ticks := ⟨tick, list.nextInsertionOrder⟩ :: list.ticks
    nextInsertionOrder := (list.nextInsertionOrder + 1) % 18446744073709551616 }

def schedule (list : TickList) (tick : ScheduledTick) : TickList × Bool :=
  if tick.key ∈ list.scheduled then (list, false)
  else
    (pushUnchecked { list with scheduled := insert tick.key list.scheduled } tick, true)

def pendingEntries (list : TickList) : List SavedTick := list.pendingTicks.getD []

/-- The retaining loop over pending ticks. A predicate may keep state between its calls, so it is
given the number of the call. -/
def retainPending (predicate : ℕ → SavedTick → Bool) :
    ℕ → List SavedTick → Finset ScheduledTickKey → List SavedTick × Finset ScheduledTickKey
  | _, [], scheduled => ([], scheduled)
  | call, tick :: rest, scheduled =>
    if predicate call tick then
      retainPending predicate (call + 1) rest (scheduled.erase tick.key)
    else
      let (kept, scheduled) := retainPending predicate (call + 1) rest scheduled
      (tick :: kept, scheduled)

def removePendingMatching (list : TickList) (predicate : ℕ → SavedTick → Bool) : TickList × ℕ :=
  match list.pendingTicks with
  | none => (list, 0)
  | some pendingTicks =>
    let (kept, scheduled) := retainPending predicate 0 pendingTicks list.scheduled
    ({ list with pendingTicks := some kept, scheduled }, pendingTicks.length - kept.length)

def saveLive (currentTick : Int) (queued : QueuedTick) : SavedTick :=
  { tickType := queued.tick.tickType
    pos := queued.tick.pos
    delay := wrapI32 (wrapI64 (queued.tick.triggerTick - currentTick))
    priority := queued.tick.priority }

/-- The saved form: pending entries, then live ones in sub-tick and insertion order. -/
def pack (list : TickList) (currentTick : Int) : List SavedTick :=
  list.pendingEntries ++
    (list.ticks.insertionSort fun left right => left.packOrder ≤ right.packOrder).map
      (saveLive currentTick)

def len (list : TickList) : ℕ := list.ticks.length + list.pendingEntries.length

/-- Convert pending ticks into live ones, with negative sub-tick orders in saved order. -/
def unpack (list : TickList) (currentTick : Int) : TickList :=
  match list.pendingTicks with
  | none => list
  | some pendingTicks =>
    pendingTicks.zipIdx.foldl (fun list (savedTick, index) =>
      list.pushUnchecked
        { tickType := savedTick.tickType
          pos := savedTick.pos
          triggerTick := wrapI64 (currentTick + savedTick.delay)
          priority := savedTick.priority
          subTickOrder := -(pendingTicks.length : Int) + index })
      { list with pendingTicks := none }

def peek (list : TickList) : Option ScheduledTick :=
  (BinaryHeap.peek QueuedTick.order list.ticks).map QueuedTick.tick

def peekReady (list : TickList) (currentTick : Int) : Option ScheduledTick :=
  list.peek.filter fun tick => decide (tick.triggerTick ≤ currentTick)

def popReady (list : TickList) (currentTick : Int) : Option (ScheduledTick × TickList) := do
  let _ ← list.peekReady currentTick
  let (queued, ticks) ← BinaryHeap.pop QueuedTick.order list.ticks
  return (queued.tick, { list with ticks, scheduled := list.scheduled.erase queued.tick.key })

variable {list rest : TickList} {currentTick : Int} {tick : ScheduledTick}

theorem popReady_eq_some (h : list.popReady currentTick = some (tick, rest)) :
    ∃ insertionOrder others,
      BinaryHeap.pop QueuedTick.order list.ticks = some (⟨tick, insertionOrder⟩, others) ∧
        tick.triggerTick ≤ currentTick ∧
          rest = { list with ticks := others, scheduled := list.scheduled.erase tick.key } := by
  obtain ⟨head, hhead, h⟩ := Option.bind_eq_some_iff.mp h
  obtain ⟨⟨queued, others⟩, hpop, h⟩ := Option.bind_eq_some_iff.mp h
  cases h
  obtain ⟨hpeek, hready⟩ := Option.filter_eq_some_iff.mp hhead
  rw [peek, BinaryHeap.peek_eq_some hpop, Option.map_some, Option.some.injEq] at hpeek
  subst hpeek
  exact ⟨queued.insertionOrder, others, hpop, of_decide_eq_true hready, rfl⟩

theorem length_of_popReady (h : list.popReady currentTick = some (tick, rest)) :
    rest.ticks.length < list.ticks.length := by
  obtain ⟨insertionOrder, others, hpop, -, rfl⟩ := popReady_eq_some h
  rw [← (BinaryHeap.pop_perm hpop).length_eq]
  exact Nat.lt_succ_self _

def drainReady (list : TickList) (currentTick : Int) : List ScheduledTick × TickList :=
  match _h : list.popReady currentTick with
  | none => ([], list)
  | some (tick, rest) =>
    let (ready, rest) := rest.drainReady currentTick
    (tick :: ready, rest)
termination_by list.ticks.length
decreasing_by exact length_of_popReady (by assumption)

end TickList

/-!
### The ticks of one execution phase

A batch is told which tick starts next, and answers which ticks are still to come. Its lookup table
is built by the first question that finds ticks left, and never changed after that.
-/

structure ScheduledTickRunBatch where
  ticks : List ScheduledTick
  nextIndex : ℕ
  lookup : Option (HashMap ScheduledTickKey ℕ)

namespace ScheduledTickRunBatch

def new (ticks : List ScheduledTick) : ScheduledTickRunBatch :=
  { ticks, nextIndex := 0, lookup := none }

/-- `none` is the failed assertion. -/
def start (batch : ScheduledTickRunBatch) (index : ℕ) : Option ScheduledTickRunBatch :=
  if index < batch.ticks.length then some { batch with nextIndex := index + 1 } else none

def indexedKeys (ticks : List ScheduledTick) (initialIndex : ℕ) : List (ScheduledTickKey × ℕ) :=
  ((ticks.drop initialIndex).zipIdx initialIndex).map fun entry => (entry.1.key, entry.2)

/-- Collecting into a hash map keeps the last index of a key. -/
def collectLookup (entries : List (ScheduledTickKey × ℕ)) : HashMap ScheduledTickKey ℕ :=
  entries.foldl (fun lookup entry => lookup.insert entry.1 entry.2) ∅

def contains (batch : ScheduledTickRunBatch) (pos : BlockPos) (tickType : TickType) :
    Bool × ScheduledTickRunBatch :=
  if batch.ticks.length ≤ batch.nextIndex then (false, batch)
  else
    let lookup := batch.lookup.getD (collectLookup (indexedKeys batch.ticks batch.nextIndex))
    ((lookup.lookup (pos, tickType.key)).any fun index => batch.nextIndex ≤ index,
      { batch with lookup := some lookup })

/-- The calls on a batch, with the indices that were started. Starts come in increasing order. -/
inductive Reached (ticks : List ScheduledTick) : ScheduledTickRunBatch → List ℕ → Prop
  | new : Reached ticks (new ticks) []
  | start {batch after : ScheduledTickRunBatch} {started : List ℕ} {index : ℕ}
      (hreached : Reached ticks batch started) (horder : ∀ earlier ∈ started, earlier < index)
      (hstart : batch.start index = some after) : Reached ticks after (index :: started)
  | contains {batch : ScheduledTickRunBatch} {started : List ℕ}
      (hreached : Reached ticks batch started)
      (pos : BlockPos) (tickType : TickType) : Reached ticks (batch.contains pos tickType).2 started

end ScheduledTickRunBatch

end Steel

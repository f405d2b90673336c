import Mathlib.Data.Nat.Notation

/-!
# Pacing of chunk batches

The client acknowledges batches of chunks with the rate at which it wants more. Acknowledgements
are queued when they arrive and applied when the next batch is prepared, so that a batch on its way
keeps its quota.
-/

namespace Steel

open List

/-- What the pacing does with numbers of type `F`. A number of chunks that is at most the whole part
of a quota is at most the quota. -/
structure RateArithmetic (F : Type) where
  add : F → F → F
  sub : F → F → F
  min : F → F → F
  max : F → F → F
  clamp : F → F → F → F
  isNan : F → Bool
  le : F → F → Bool
  floorUsize : F → ℕ
  ofUsize : ℕ → F
  zero : F
  one : F
  minChunksPerTick : F
  maxChunksPerTick : F
  startChunksPerTick : F
  le_of_le_floorUsize : ∀ quota size, 0 < size → size ≤ floorUsize quota →
    le (ofUsize size) quota = true

structure ChunkBatchPacing (F : Type) where
  unacknowledgedBatches : ℕ
  desiredChunksPerTick : F
  batchQuota : F
  maxUnacknowledgedBatches : ℕ
  acceptedFeedback : List F

namespace ChunkBatchPacing

variable {F : Type} (rates : RateArithmetic F)

def maxUnacknowledged : ℕ := 10

def new : ChunkBatchPacing F where
  unacknowledgedBatches := 0
  desiredChunksPerTick := rates.startChunksPerTick
  batchQuota := rates.zero
  maxUnacknowledgedBatches := 1
  acceptedFeedback := []

variable (pacing : ChunkBatchPacing F)

def applyFeedback (desiredChunksPerTick : F) : ChunkBatchPacing F :=
  let unacknowledgedBatches := pacing.unacknowledgedBatches - 1
  { pacing with
    unacknowledgedBatches
    desiredChunksPerTick :=
      if rates.isNan desiredChunksPerTick then rates.minChunksPerTick
      else rates.clamp desiredChunksPerTick rates.minChunksPerTick rates.maxChunksPerTick
    batchQuota := if unacknowledgedBatches = 0 then rates.one else pacing.batchQuota
    maxUnacknowledgedBatches := maxUnacknowledged }

/-- Nothing is returned if an assertion fails. -/
def drainFeedback : Option (ChunkBatchPacing F) :=
  if pacing.acceptedFeedback.length ≤ pacing.unacknowledgedBatches then
    some (pacing.acceptedFeedback.foldl (applyFeedback rates)
      { pacing with acceptedFeedback := [] })
  else none

/-- The pacing after it, and the largest size of a batch if there may be one. -/
def beginPrepare : Option (ChunkBatchPacing F × Option ℕ) := do
  let pacing ← pacing.drainFeedback rates
  if pacing.maxUnacknowledgedBatches ≤ pacing.unacknowledgedBatches then some (pacing, none)
  else
    let maxBatchSize := rates.max pacing.desiredChunksPerTick rates.one
    let batchQuota :=
      rates.min (rates.add pacing.batchQuota pacing.desiredChunksPerTick) maxBatchSize
    some ({ pacing with batchQuota }, some (rates.floorUsize batchQuota))

/-- Nothing is returned if an assertion fails. -/
def commitBatch (batchSize : ℕ) : Option (ChunkBatchPacing F) :=
  if 0 < batchSize ∧ rates.le (rates.ofUsize batchSize) pacing.batchQuota = true then
    some { pacing with
      unacknowledgedBatches := pacing.unacknowledgedBatches + 1
      batchQuota := rates.sub pacing.batchQuota (rates.ofUsize batchSize) }
  else none

def recordFeedback (desiredChunksPerTick : F) : ChunkBatchPacing F × Bool :=
  if pacing.unacknowledgedBatches ≤ pacing.acceptedFeedback.length ∨
      maxUnacknowledged ≤ pacing.acceptedFeedback.length then (pacing, false)
  else
    ({ pacing with acceptedFeedback := pacing.acceptedFeedback ++ [desiredChunksPerTick] }, true)

end ChunkBatchPacing

/-! ### A connection -/

/-- The pacing, the size allowed for the batch in flight, and how many batches were committed and
how many acknowledgements were accepted and applied. -/
structure BatchConnection (F : Type) where
  pacing : ChunkBatchPacing F
  inFlight : Option ℕ
  committed : ℕ
  accepted : ℕ
  applied : ℕ

/-- What can happen: a batch is begun and prepared or not, the batch in flight is committed with
some of its chunks or rejected, and the client acknowledges. -/
inductive BatchStep (F : Type) where
  | begin (prepared : Bool)
  | commit (validChunks : ℕ)
  | reject
  | acknowledge (desiredChunksPerTick : F)

namespace BatchConnection

variable {F : Type} (rates : RateArithmetic F)

def new : BatchConnection F := ⟨.new rates, none, 0, 0, 0⟩

/-- A batch is begun when none is in flight, and of the chunks that were prepared some are still
valid at the commit. -/
def Allowed (connection : BatchConnection F) : BatchStep F → Prop
  | .begin _ => connection.inFlight = none
  | .commit validChunks => ∃ size, connection.inFlight = some size ∧ validChunks ≤ size
  | .reject => connection.inFlight ≠ none
  | .acknowledge _ => True

/-- Nothing is returned if an assertion fails. A batch without chunks is not committed. -/
def step (connection : BatchConnection F) : BatchStep F → Option (BatchConnection F)
  | .begin prepared => do
    let (pacing, size) ← connection.pacing.beginPrepare rates
    some { connection with
      pacing
      inFlight := if prepared then size.filter (· ≠ 0) else none
      applied := connection.applied + connection.pacing.acceptedFeedback.length }
  | .commit validChunks =>
    if validChunks = 0 then some { connection with inFlight := none }
    else do
      let pacing ← connection.pacing.commitBatch rates validChunks
      some { connection with pacing, inFlight := none, committed := connection.committed + 1 }
  | .reject => some { connection with inFlight := none }
  | .acknowledge desiredChunksPerTick =>
    let (pacing, accepted) := connection.pacing.recordFeedback desiredChunksPerTick
    some { connection with
      pacing, accepted := if accepted then connection.accepted + 1 else connection.accepted }

inductive Reached : BatchConnection F → Prop
  | new : Reached (new rates)
  | step {connection next : BatchConnection F} {event : BatchStep F} (h : Reached connection)
      (hallowed : connection.Allowed event) (hstep : connection.step rates event = some next) :
      Reached next

/-- The batches that are not acknowledged are those committed after the applied acknowledgements,
and a batch in flight is within the window and the quota. -/
structure Paced (connection : BatchConnection F) : Prop where
  feedback_le : connection.pacing.acceptedFeedback.length ≤ connection.pacing.unacknowledgedBatches
  unacknowledged_le :
    connection.pacing.unacknowledgedBatches ≤ connection.pacing.maxUnacknowledgedBatches
  window : connection.pacing.maxUnacknowledgedBatches = if connection.applied = 0 then 1 else 10
  committed : connection.committed = connection.applied + connection.pacing.unacknowledgedBatches
  accepted : connection.accepted = connection.applied + connection.pacing.acceptedFeedback.length
  inFlight : ∀ size, connection.inFlight = some size →
    connection.pacing.unacknowledgedBatches < connection.pacing.maxUnacknowledgedBatches ∧
      size ≤ rates.floorUsize connection.pacing.batchQuota

variable {rates} {connection next : BatchConnection F}

theorem paced_new : Paced rates (new rates) where
  feedback_le := Nat.le_refl _
  unacknowledged_le := Nat.zero_le _
  window := rfl
  committed := rfl
  accepted := rfl
  inFlight size hsize := by cases hsize

/-- Applying feedback takes that many batches off, and opens the window if there is any. -/
theorem foldl_applyFeedback (rates : RateArithmetic F) (feedback : List F)
    (pacing : ChunkBatchPacing F) :
    (feedback.foldl (ChunkBatchPacing.applyFeedback rates) pacing).unacknowledgedBatches =
        pacing.unacknowledgedBatches - feedback.length ∧
      (feedback.foldl (ChunkBatchPacing.applyFeedback rates) pacing).maxUnacknowledgedBatches =
        (if feedback.length = 0 then pacing.maxUnacknowledgedBatches else 10) ∧
      (feedback.foldl (ChunkBatchPacing.applyFeedback rates) pacing).acceptedFeedback =
        pacing.acceptedFeedback := by
  induction feedback generalizing pacing with
  | nil => exact ⟨rfl, rfl, rfl⟩
  | cons rate rest ih =>
    obtain ⟨hunacknowledged, hwindow, hfeedback⟩ := ih (pacing.applyFeedback rates rate)
    rw [foldl_cons, hunacknowledged, hwindow, hfeedback]
    refine ⟨?_, ?_, rfl⟩
    · rw [length_cons, Nat.add_comm, ← Nat.sub_sub]
      rfl
    · rw [length_cons, if_neg (Nat.succ_ne_zero _)]
      split
      · rfl
      · rfl

/-- A drain that is within the assertion, with the acknowledgements counted as applied. -/
theorem Paced.drain (h : Paced rates connection) :
    ∃ pacing, connection.pacing.drainFeedback rates = some pacing ∧
      Paced rates { connection with
        pacing, inFlight := none
        applied := connection.applied + connection.pacing.acceptedFeedback.length } := by
  obtain ⟨hunacknowledged, hwindow, hfeedback⟩ := foldl_applyFeedback rates
    connection.pacing.acceptedFeedback { connection.pacing with acceptedFeedback := [] }
  dsimp only at hunacknowledged hwindow hfeedback
  have hle := h.feedback_le
  have hmax := h.unacknowledged_le
  have hopen := h.window
  have hcommitted := h.committed
  have haccepted := h.accepted
  refine ⟨_, if_pos hle, ?_, ?_, ?_, ?_, ?_, fun size hsize => by cases hsize⟩
  · rw [hfeedback]
    exact Nat.zero_le _
  · dsimp only
    rw [hunacknowledged, hwindow]
    grind
  · dsimp only
    rw [hwindow]
    grind
  · dsimp only
    rw [hunacknowledged]
    omega
  · dsimp only
    rw [hfeedback, haccepted, length_nil, Nat.add_zero]

theorem Paced.begin (h : Paced rates connection) (prepared : Bool) :
    ∃ next, connection.step rates (.begin prepared) = some next ∧ Paced rates next := by
  obtain ⟨pacing, hdrain, hpaced⟩ := h.drain
  simp only [step, ChunkBatchPacing.beginPrepare, hdrain, Option.bind_eq_bind, Option.bind_some]
  split
  · refine ⟨_, rfl, { hpaced with inFlight := fun size hsize => ?_ }⟩
    cases prepared <;> simp at hsize
  · next hopen =>
    refine ⟨_, rfl, { hpaced with inFlight := fun size hsize => ?_ }⟩
    cases prepared with
    | false => simp at hsize
    | true =>
      dsimp only at hsize
      rw [if_pos rfl] at hsize
      obtain ⟨hsize, -⟩ := Option.filter_eq_some_iff.mp hsize
      exact ⟨Nat.lt_of_not_le hopen, Nat.le_of_eq (Option.some.inj hsize).symm⟩

theorem Paced.commit (h : Paced rates connection) {validChunks size : ℕ}
    (hinFlight : connection.inFlight = some size) (hvalid : validChunks ≤ size) :
    ∃ next, connection.step rates (.commit validChunks) = some next ∧ Paced rates next := by
  obtain ⟨hroom, hquota⟩ := h.inFlight size hinFlight
  rw [step]
  split
  · exact ⟨_, rfl, { h with inFlight := fun size hsize => by cases hsize }⟩
  · next hne =>
    have hcommit := rates.le_of_le_floorUsize connection.pacing.batchQuota validChunks
      (Nat.pos_of_ne_zero hne) (Nat.le_trans hvalid hquota)
    rw [ChunkBatchPacing.commitBatch, if_pos ⟨Nat.pos_of_ne_zero hne, hcommit⟩]
    refine ⟨_, rfl, ?_, hroom, h.window, ?_, h.accepted, fun size hsize => by cases hsize⟩
    · exact Nat.le_succ_of_le h.feedback_le
    · exact congrArg (· + 1) h.committed

theorem Paced.acknowledge (h : Paced rates connection) (desiredChunksPerTick : F) :
    ∃ next, connection.step rates (.acknowledge desiredChunksPerTick) = some next ∧
      Paced rates next := by
  by_cases hfull : connection.pacing.unacknowledgedBatches ≤
      connection.pacing.acceptedFeedback.length ∨
    ChunkBatchPacing.maxUnacknowledged ≤ connection.pacing.acceptedFeedback.length
  · refine ⟨connection, ?_, h⟩
    simp [step, ChunkBatchPacing.recordFeedback, hfull]
  · refine ⟨{ connection with
      pacing :=
        { connection.pacing with
          acceptedFeedback := connection.pacing.acceptedFeedback ++ [desiredChunksPerTick] }
      accepted := connection.accepted + 1 }, ?_, { h with feedback_le := ?_, accepted := ?_ }⟩
    · simp [step, ChunkBatchPacing.recordFeedback, hfull]
    · rw [length_append, length_singleton]
      dsimp only
      omega
    · rw [length_append, length_singleton, ← Nat.add_assoc]
      exact congrArg (· + 1) h.accepted

theorem Paced.step (h : Paced rates connection) {event : BatchStep F}
    (hallowed : connection.Allowed event) :
    ∃ next, connection.step rates event = some next ∧ Paced rates next := by
  cases event with
  | begin prepared => exact h.begin prepared
  | commit validChunks =>
    obtain ⟨size, hinFlight, hvalid⟩ := hallowed
    exact h.commit hinFlight hvalid
  | reject => exact ⟨_, rfl, { h with inFlight := fun size hsize => by cases hsize }⟩
  | acknowledge desiredChunksPerTick => exact h.acknowledge desiredChunksPerTick

theorem Reached.paced (h : Reached rates connection) : Paced rates connection := by
  induction h with
  | new => exact paced_new
  | step _ hallowed hstep ih =>
    obtain ⟨next, hnext, hpaced⟩ := ih.step hallowed
    rw [hstep] at hnext
    rwa [Option.some.inj hnext]

/-- Accepted feedback is for batches that are not acknowledged, and these are within the window,
which is opened by the first acknowledgement that is applied. No more acknowledgements are accepted
than batches were committed, and no assertion fails in what can happen next. -/
theorem Reached.acknowledgements_bounded (h : Reached rates connection) :
    connection.pacing.acceptedFeedback.length ≤ connection.pacing.unacknowledgedBatches ∧
      connection.pacing.unacknowledgedBatches ≤ connection.pacing.maxUnacknowledgedBatches ∧
      connection.pacing.maxUnacknowledgedBatches = (if connection.applied = 0 then 1 else 10) ∧
      connection.accepted ≤ connection.committed ∧
      ∀ event, connection.Allowed event → (connection.step rates event).isSome = true := by
  have hpaced := h.paced
  have hle := hpaced.feedback_le
  refine ⟨hle, hpaced.unacknowledged_le, hpaced.window, ?_, fun event hallowed => ?_⟩
  · rw [hpaced.accepted, hpaced.committed]
    omega
  · obtain ⟨next, hnext, -⟩ := hpaced.step hallowed
    rw [hnext]
    rfl

def wholeRates : RateArithmetic ℕ where
  add := (· + ·)
  sub := (· - ·)
  min := Nat.min
  max := Nat.max
  clamp value low high := Nat.min (Nat.max value low) high
  isNan _ := false
  le size quota := decide (size ≤ quota)
  floorUsize := id
  ofUsize := id
  zero := 0
  one := 1
  minChunksPerTick := 1
  maxChunksPerTick := 500
  startChunksPerTick := 9
  le_of_le_floorUsize _ _ _ h := decide_eq_true h

theorem acknowledgements_bounded_first_batch :
    ∃ connection : BatchConnection ℕ, Reached wholeRates connection ∧
      connection.pacing.unacknowledgedBatches = 1 ∧ connection.pacing.acceptedFeedback = [20] ∧
      connection.accepted ≤ connection.committed := by
  have hnew : Reached wholeRates (new wholeRates) := Reached.new
  have hallowed : (new wholeRates).Allowed (.begin true) := rfl
  have hbegun : Reached wholeRates ⟨⟨0, 9, 9, 1, []⟩, some 9, 0, 0, 0⟩ := hnew.step hallowed rfl
  have hvalid : Allowed (⟨⟨0, 9, 9, 1, []⟩, some 9, 0, 0, 0⟩ : BatchConnection ℕ) (.commit 4) :=
    ⟨9, rfl, by decide⟩
  have hcommitted : Reached wholeRates ⟨⟨1, 9, 5, 1, []⟩, none, 1, 0, 0⟩ :=
    hbegun.step hvalid rfl
  have hany : Allowed (⟨⟨1, 9, 5, 1, []⟩, none, 1, 0, 0⟩ : BatchConnection ℕ) (.acknowledge 20) :=
    trivial
  have hacknowledged : Reached wholeRates ⟨⟨1, 9, 5, 1, [20]⟩, none, 1, 1, 0⟩ :=
    hcommitted.step hany rfl
  exact ⟨_, hacknowledged, rfl, rfl, hacknowledged.acknowledgements_bounded.2.2.2.1⟩

end BatchConnection

end Steel

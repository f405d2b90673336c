import Steel.World.TickList

/-!
# What a batch answers

The table holds the last index of each key from where it was built, and it was built no later than
the next index. So a key has an index to come in the table iff it has one in the batch.
-/

namespace Steel.ScheduledTickRunBatch

open List

variable {ticks : List ScheduledTick} {batch : ScheduledTickRunBatch} {started : List ℕ}

/-- The last index wins, so some index of a key is late enough iff the kept one is. -/
theorem any_collectLookup {entries : List (ScheduledTickKey × ℕ)}
    (hsorted : (entries.map Prod.snd).Pairwise (· < ·)) (key : ScheduledTickKey) (next : ℕ) :
    (∃ index, (collectLookup entries).lookup key = some index ∧ next ≤ index) ↔
      ∃ entry ∈ entries, entry.1 = key ∧ next ≤ entry.2 := by
  induction entries using List.reverseRecOn with
  | nil => simp [collectLookup]
  | append_singleton entries last ih =>
    rw [map_append, pairwise_append] at hsorted
    obtain ⟨hinit, -, hlast⟩ := hsorted
    have hlookup : (collectLookup (entries ++ [last])).lookup key =
        if key = last.1 then some last.2 else (collectLookup entries).lookup key := by
      rw [collectLookup, foldl_append]
      exact HashMap.lookup_insert_ite _ _ _ _
    rw [hlookup]
    by_cases heq : key = last.1
    · subst heq
      simp only [if_true, Option.some.injEq, exists_eq_left']
      constructor
      · exact fun hnext => ⟨last, by simp, rfl, hnext⟩
      · rintro ⟨entry, hentry, -, hnext⟩
        obtain hentry | hentry := mem_append.mp hentry
        · have hlt := hlast entry.2 (mem_map_of_mem hentry) last.2 (by simp)
          omega
        · rwa [mem_singleton.mp hentry] at hnext
    · rw [if_neg heq, ih hinit]
      simp only [mem_append, mem_singleton, or_and_right, exists_or, exists_eq_left]
      exact ⟨Or.inl, fun h => h.resolve_right fun hself => heq hself.1.symm⟩

theorem sorted_indexedKeys (ticks : List ScheduledTick) (initialIndex : ℕ) :
    ((indexedKeys ticks initialIndex).map Prod.snd).Pairwise (· < ·) := by
  have hindices : (indexedKeys ticks initialIndex).map Prod.snd =
      List.range' initialIndex (ticks.drop initialIndex).length := by
    rw [indexedKeys, map_map]
    exact zipIdx_map_snd _ _
  rw [hindices]
  exact pairwise_lt_range'

theorem mem_indexedKeys {initialIndex index : ℕ} {key : ScheduledTickKey} :
    (key, index) ∈ indexedKeys ticks initialIndex ↔
      initialIndex ≤ index ∧ ∃ tick, ticks[index]? = some tick ∧ tick.key = key := by
  simp only [indexedKeys, mem_map, Prod.mk.injEq, Prod.exists, mem_zipIdx_iff_le_and_getElem?_sub,
    getElem?_drop]
  constructor
  · rintro ⟨tick, position, ⟨hle, htick⟩, rfl, rfl⟩
    rw [Nat.add_sub_cancel' hle] at htick
    exact ⟨hle, tick, htick, rfl⟩
  · rintro ⟨hle, tick, htick, rfl⟩
    refine ⟨tick, index, ⟨hle, ?_⟩, rfl, rfl⟩
    rwa [Nat.add_sub_cancel' hle]

structure Follows (ticks : List ScheduledTick) (batch : ScheduledTickRunBatch)
    (started : List ℕ) : Prop where
  ticks_eq : batch.ticks = ticks
  started_lt : ∀ index ∈ started, index < batch.nextIndex
  next_le : ∀ index, (∀ earlier ∈ started, earlier < index) → batch.nextIndex ≤ index
  lookup_eq : ∀ lookup, batch.lookup = some lookup →
    ∃ built ≤ batch.nextIndex, lookup = collectLookup (indexedKeys ticks built)

theorem Follows.start (h : Follows ticks batch started) {after : ScheduledTickRunBatch} {index : ℕ}
    (horder : ∀ earlier ∈ started, earlier < index) (hstart : batch.start index = some after) :
    Follows ticks after (index :: started) := by
  obtain ⟨-, hafter⟩ := Option.ite_none_right_eq_some.mp hstart
  cases hafter
  have hnext := h.next_le index horder
  refine ⟨h.ticks_eq, ?_, ?_, ?_⟩
  · intro other hother
    obtain rfl | hother := mem_cons.mp hother
    · exact Nat.lt_succ_self _
    · exact Nat.lt_succ_of_lt (horder other hother)
  · exact fun other hlater => hlater index mem_cons_self
  · intro lookup hlookup
    obtain ⟨built, hbuilt, heq⟩ := h.lookup_eq lookup hlookup
    exact ⟨built, by dsimp only; omega, heq⟩

/-- The table in use, whether it was there or is built now. -/
theorem Follows.getD_lookup (h : Follows ticks batch started) :
    ∃ built ≤ batch.nextIndex,
      batch.lookup.getD (collectLookup (indexedKeys batch.ticks batch.nextIndex)) =
        collectLookup (indexedKeys ticks built) := by
  cases hlookup : batch.lookup with
  | none => exact ⟨batch.nextIndex, le_rfl, by rw [h.ticks_eq]; rfl⟩
  | some lookup => exact h.lookup_eq lookup hlookup

theorem Follows.contains (h : Follows ticks batch started) (pos : BlockPos) (tickType : TickType) :
    Follows ticks (batch.contains pos tickType).2 started := by
  unfold ScheduledTickRunBatch.contains
  split
  · exact h
  · refine ⟨h.ticks_eq, h.started_lt, h.next_le, ?_⟩
    intro lookup hlookup
    obtain ⟨built, hbuilt, heq⟩ := h.getD_lookup
    cases hlookup
    exact ⟨built, hbuilt, heq⟩

theorem Reached.follows (h : Reached ticks batch started) : Follows ticks batch started := by
  induction h with
  | new => exact ⟨rfl, by simp, fun _ _ => Nat.zero_le _, by simp [ScheduledTickRunBatch.new]⟩
  | start _ horder hstart ih => exact ih.start horder hstart
  | contains _ pos tickType ih => exact ih.contains pos tickType

/-- A batch answers by the ticks from its next index on. -/
theorem Follows.contains_iff (h : Follows ticks batch started) (pos : BlockPos)
    (tickType : TickType) : (batch.contains pos tickType).1 ↔
      ∃ index, batch.nextIndex ≤ index ∧
        ∃ tick, ticks[index]? = some tick ∧ tick.key = (pos, tickType.key) := by
  unfold ScheduledTickRunBatch.contains
  split
  case isTrue hdone =>
    rw [h.ticks_eq] at hdone
    refine ⟨fun hfalse => absurd hfalse Bool.false_ne_true, ?_⟩
    rintro ⟨index, hindex, tick, htick, -⟩
    obtain ⟨hlt, -⟩ := List.getElem?_eq_some_iff.mp htick
    omega
  case isFalse =>
    obtain ⟨built, hbuilt, heq⟩ := h.getD_lookup
    dsimp only
    rw [heq, Option.any_eq_true]
    simp only [decide_eq_true_eq]
    rw [any_collectLookup (sorted_indexedKeys ticks built)]
    constructor
    · rintro ⟨⟨key, index⟩, hentry, rfl, hnext⟩
      exact ⟨index, hnext, (mem_indexedKeys.mp hentry).2⟩
    · rintro ⟨index, hnext, htick⟩
      exact ⟨(_, index), mem_indexedKeys.mpr ⟨hbuilt.trans hnext, htick⟩, rfl, hnext⟩

theorem key_eq_iff {tick : ScheduledTick} {pos : BlockPos} {tickType : TickType} :
    tick.key = (pos, tickType.key) ↔ tick.pos = pos ∧ tick.tickType = tickType := by
  rw [ScheduledTick.key, Prod.mk.injEq, TickType.mk.injEq]

/-- **A batch knows the ticks to come.** After any calls, wherever the table was built, a tick is
reported iff one like it stands after every started index, and where no index was passed over iff
one like it was not started. -/
theorem reached_contains (h : Reached ticks batch started) (pos : BlockPos) (tickType : TickType) :
    ((batch.contains pos tickType).1 ↔ ∃ index tick, (∀ earlier ∈ started, earlier < index) ∧
      ticks[index]? = some tick ∧ tick.pos = pos ∧ tick.tickType = tickType) ∧
    ((∀ index ∈ started, ∀ earlier < index, earlier ∈ started) →
      ((batch.contains pos tickType).1 ↔ ∃ index tick, index ∉ started ∧
        ticks[index]? = some tick ∧ tick.pos = pos ∧ tick.tickType = tickType)) := by
  have hfollows := h.follows
  have hlater : ∀ index, batch.nextIndex ≤ index ↔ ∀ earlier ∈ started, earlier < index :=
    fun index => ⟨fun hnext earlier hmem => (hfollows.started_lt earlier hmem).trans_le hnext,
      hfollows.next_le index⟩
  have hcontains : (batch.contains pos tickType).1 ↔ ∃ index tick,
      (∀ earlier ∈ started, earlier < index) ∧ ticks[index]? = some tick ∧ tick.pos = pos ∧
        tick.tickType = tickType := by
    rw [hfollows.contains_iff]
    simp only [hlater, key_eq_iff, exists_and_left]
  refine ⟨hcontains, fun hdense => hcontains.trans ?_⟩
  -- With no gap, being after every started index is not being started.
  have hfresh : ∀ index, (∀ earlier ∈ started, earlier < index) ↔ index ∉ started := by
    intro index
    constructor
    · exact fun hafter hmem => lt_irrefl index (hafter index hmem)
    · intro hnotMem earlier hmem
      by_contra hle
      obtain hlt | heq := (Nat.le_of_not_lt hle).lt_or_eq
      · exact hnotMem (hdense earlier hmem index hlt)
      · exact hnotMem (heq ▸ hmem)
  simp only [hfresh]

def tickAt (x : Int) : ScheduledTick :=
  { tickType := ⟨1⟩, pos := ⟨x, 0, 0⟩, triggerTick := 1, priority := .normal, subTickOrder := 0 }

theorem reached_startedFirst : Reached [tickAt 0, tickAt 1]
    { ticks := [tickAt 0, tickAt 1], nextIndex := 1, lookup := none } [0] :=
  Reached.new.start (by simp) rfl

theorem reached_contains_startedFirst :
    (({ ticks := [tickAt 0, tickAt 1], nextIndex := 1, lookup := none } :
        ScheduledTickRunBatch).contains ⟨1, 0, 0⟩ ⟨1⟩).1 ↔
      ∃ index tick, index ∉ [0] ∧ [tickAt 0, tickAt 1][index]? = some tick ∧
        tick.pos = ⟨1, 0, 0⟩ ∧ tick.tickType = ⟨1⟩ :=
  (reached_contains reached_startedFirst ⟨1, 0, 0⟩ ⟨1⟩).2 (by simp)

/-- Starting the second tick first passes over the first one: it was not started, and it is not
reported. -/
theorem contains_passedOver :
    Reached [tickAt 0, tickAt 1] { ticks := [tickAt 0, tickAt 1], nextIndex := 2, lookup := none }
        [1] ∧
      (({ ticks := [tickAt 0, tickAt 1], nextIndex := 2, lookup := none } :
        ScheduledTickRunBatch).contains ⟨0, 0, 0⟩ ⟨1⟩).1 = false ∧
      ∃ index tick, index ∉ [1] ∧ [tickAt 0, tickAt 1][index]? = some tick ∧
        tick.pos = ⟨0, 0, 0⟩ ∧ tick.tickType = ⟨1⟩ :=
  ⟨Reached.new.start (by simp) rfl, rfl, 0, tickAt 0, by simp, rfl, rfl, rfl⟩

end Steel.ScheduledTickRunBatch

import Steel.World.TickList

/-!
# Tick lists over whole runs

A tick waits either as a saved entry or in the heap, and moves from one to the other when the list
is unpacked. The set of scheduled keys mirrors both through every operation.
-/

namespace Steel

open List

namespace TickList

def waiting (list : TickList) : List ScheduledTickKey :=
  list.pendingEntries.map SavedTick.key ++ list.ticks.map fun queued => queued.tick.key

/-- The key set is that of the waiting ticks, and no key waits twice. -/
structure KeysExact (list : TickList) : Prop where
  nodup : list.waiting.Nodup
  mem_scheduled : ∀ key, key ∈ list.scheduled ↔ key ∈ list.waiting

variable {list list' : TickList}

theorem KeysExact.of_perm (h : KeysExact list)
    (hperm : list'.waiting.Perm list.waiting) (hscheduled : list'.scheduled = list.scheduled) :
    KeysExact list' where
  nodup := hperm.nodup_iff.mpr h.nodup
  mem_scheduled key := by rw [hscheduled, h.mem_scheduled, hperm.mem_iff]

theorem KeysExact.of_insert {key : ScheduledTickKey} (h : KeysExact list)
    (hnew : key ∉ list.scheduled) (hperm : list'.waiting.Perm (key :: list.waiting))
    (hscheduled : list'.scheduled = insert key list.scheduled) : KeysExact list' where
  nodup := by
    rw [hperm.nodup_iff, nodup_cons]
    exact ⟨fun hmem => hnew ((h.mem_scheduled key).mpr hmem), h.nodup⟩
  mem_scheduled other := by
    rw [hscheduled, Finset.mem_insert, h.mem_scheduled, hperm.mem_iff, mem_cons]

theorem KeysExact.of_erase {key : ScheduledTickKey} (h : KeysExact list)
    (hperm : (key :: list'.waiting).Perm list.waiting)
    (hscheduled : list'.scheduled = list.scheduled.erase key) : KeysExact list' := by
  have hnodup : (key :: list'.waiting).Nodup := hperm.nodup_iff.mpr h.nodup
  obtain ⟨hkey, hrest⟩ := nodup_cons.mp hnodup
  refine ⟨hrest, fun other => ?_⟩
  rw [hscheduled, Finset.mem_erase, h.mem_scheduled, ← hperm.mem_iff, mem_cons]
  constructor
  · rintro ⟨hne, hmem⟩
    exact hmem.resolve_left hne
  · intro hmem
    exact ⟨fun heq => hkey (heq ▸ hmem), Or.inr hmem⟩

/-! ### One step -/

theorem new_keysExact : KeysExact new :=
  ⟨nodup_nil, fun key => by simp [new, waiting, pendingEntries]⟩

theorem newPending_keysExact : KeysExact newPending :=
  new_keysExact.of_perm (List.Perm.refl _) rfl

theorem pushUnchecked_waiting (list : TickList) (tick : ScheduledTick) :
    (list.pushUnchecked tick).waiting.Perm (tick.key :: list.waiting) :=
  perm_middle

theorem schedule_keysExact (h : KeysExact list) (tick : ScheduledTick) :
    KeysExact (list.schedule tick).1 := by
  unfold schedule
  split_ifs with hmem
  · exact h
  · exact h.of_insert hmem (pushUnchecked_waiting _ tick) rfl

theorem scheduleSavedPending_keysExact (h : KeysExact list) (tick : SavedTick) :
    KeysExact (list.scheduleSavedPending tick).1 := by
  unfold scheduleSavedPending
  split_ifs with hmem
  · exact h
  · refine h.of_insert hmem ?_ rfl
    rw [waiting, pendingEntries, Option.getD_some, map_append, append_assoc]
    exact perm_middle

theorem fromProtoSavedTicks_keysExact (savedTicks : List SavedTick) :
    KeysExact (fromProtoSavedTicks savedTicks) := by
  unfold fromProtoSavedTicks
  have hfold : ∀ list : TickList, KeysExact list → KeysExact
      (savedTicks.foldl (fun list savedTick => (list.scheduleSavedPending savedTick).1) list) := by
    induction savedTicks with
    | nil => exact fun list h => h
    | cons tick rest ih => exact fun list h => ih _ (scheduleSavedPending_keysExact h tick)
  exact hfold newPending newPending_keysExact

theorem popReady_keysExact {rest : TickList} {currentTick : Int} {tick : ScheduledTick}
    (h : KeysExact list) (hpop : list.popReady currentTick = some (tick, rest)) :
    KeysExact rest := by
  obtain ⟨insertionOrder, others, hheap, -, rfl⟩ := popReady_eq_some hpop
  refine h.of_erase ?_ rfl
  refine perm_middle.symm.trans (List.Perm.append_left _ ?_)
  exact (BinaryHeap.pop_perm hheap).map fun queued => queued.tick.key

theorem retainPending_keysExact (predicate : ℕ → SavedTick → Bool)
    {rest : List SavedTick} (call : ℕ) (kept : List SavedTick)
    (scheduled : Finset ScheduledTickKey)
    (h : KeysExact { list with pendingTicks := some (kept ++ rest), scheduled }) :
    KeysExact { list with
      pendingTicks := some (kept ++ (retainPending predicate call rest scheduled).1)
      scheduled := (retainPending predicate call rest scheduled).2 } := by
  induction rest generalizing call kept scheduled with
  | nil => exact h
  | cons tick rest ih =>
    rw [retainPending]
    split_ifs with hmatch
    · -- A matching entry is dropped with its key.
      refine ih (call + 1) kept (scheduled.erase tick.key) (h.of_erase ?_ rfl)
      simp only [waiting, pendingEntries, Option.getD_some, map_append, map_cons,
        append_assoc, cons_append]
      exact perm_middle.symm
    · rw [append_cons] at h
      have hrest := ih (call + 1) (kept ++ [tick]) scheduled h
      rw [← append_cons] at hrest
      exact hrest

theorem removePendingMatching_keysExact (h : KeysExact list)
    (predicate : ℕ → SavedTick → Bool) : KeysExact (list.removePendingMatching predicate).1 := by
  unfold removePendingMatching
  cases hpending : list.pendingTicks with
  | none => exact h
  | some pendingTicks =>
    have hlist : KeysExact { list with pendingTicks := some ([] ++ pendingTicks) } :=
      h.of_perm (by simp [waiting, pendingEntries, hpending]) rfl
    exact retainPending_keysExact predicate 0 [] list.scheduled hlist

/-- The live tick of a saved entry, in a list of `count` entries. -/
def anchored (currentTick : Int) (count : ℕ) (entry : SavedTick × ℕ) : ScheduledTick :=
  { tickType := entry.1.tickType
    pos := entry.1.pos
    triggerTick := wrapI64 (currentTick + entry.1.delay)
    priority := entry.1.priority
    subTickOrder := -(count : Int) + entry.2 }

theorem foldl_pushUnchecked {β : Type} (toTick : β → ScheduledTick) (entries : List β)
    (list : TickList) :
    ∃ live : List QueuedTick, live.map QueuedTick.tick = entries.map toTick ∧
      ∃ nextInsertionOrder,
        entries.foldl (fun list entry => list.pushUnchecked (toTick entry)) list =
          { list with ticks := live.reverse ++ list.ticks, nextInsertionOrder } := by
  induction entries generalizing list with
  | nil => exact ⟨[], rfl, list.nextInsertionOrder, rfl⟩
  | cons entry rest ih =>
    obtain ⟨live, hlive, nextInsertionOrder, hrest⟩ := ih (list.pushUnchecked (toTick entry))
    refine ⟨⟨toTick entry, list.nextInsertionOrder⟩ :: live, ?_, nextInsertionOrder, ?_⟩
    · rw [map_cons, map_cons, hlive]
    · rw [foldl_cons, hrest, reverse_cons, append_assoc]
      rfl

theorem unpack_eq (list : TickList) (currentTick : Int) :
    ∃ live : List QueuedTick,
      live.map QueuedTick.tick =
        list.pendingEntries.zipIdx.map (anchored currentTick list.pendingEntries.length) ∧
      ∃ nextInsertionOrder, list.unpack currentTick =
        { list with
          pendingTicks := none, ticks := live.reverse ++ list.ticks, nextInsertionOrder } := by
  unfold unpack pendingEntries
  cases hpending : list.pendingTicks with
  | none =>
    refine ⟨[], rfl, list.nextInsertionOrder, ?_⟩
    cases list
    simp only at hpending
    subst hpending
    rfl
  | some pendingTicks =>
    exact foldl_pushUnchecked (anchored currentTick pendingTicks.length) pendingTicks.zipIdx
      { list with pendingTicks := none }

theorem unpack_keysExact (h : KeysExact list) (currentTick : Int) :
    KeysExact (list.unpack currentTick) := by
  obtain ⟨live, hlive, nextInsertionOrder, hunpack⟩ := unpack_eq list currentTick
  have hkeys :
      live.map (fun queued => queued.tick.key) = list.pendingEntries.map SavedTick.key := by
    calc live.map (fun queued => queued.tick.key)
        = (live.map QueuedTick.tick).map ScheduledTick.key := by rw [map_map]; rfl
      _ = (list.pendingEntries.zipIdx.map Prod.fst).map SavedTick.key := by
          rw [hlive, map_map, map_map]; rfl
      _ = list.pendingEntries.map SavedTick.key := by rw [zipIdx_map_fst]
  rw [hunpack]
  refine h.of_perm ?_ rfl
  have hwaiting : waiting { list with
        pendingTicks := none, ticks := live.reverse ++ list.ticks, nextInsertionOrder } =
      (list.pendingEntries.map SavedTick.key).reverse ++
        list.ticks.map fun queued => queued.tick.key := by
    rw [waiting, map_append, map_reverse, hkeys]
    rfl
  rw [hwaiting]
  exact List.Perm.append_right _ (reverse_perm _)

/-! ### Whole runs -/

/-- The lists that can be reached without loading a full chunk's saved ticks. Packing reads a list
and leaves it as it is. -/
inductive Reached : TickList → Prop
  | new : Reached new
  | newPending : Reached newPending
  | fromProtoSavedTicks (savedTicks : List SavedTick) : Reached (fromProtoSavedTicks savedTicks)
  | schedule {list : TickList} (tick : ScheduledTick) (h : Reached list) :
      Reached (list.schedule tick).1
  | schedulePending {list : TickList} (tickType : TickType) (pos : BlockPos)
      (priority : TickPriority) (h : Reached list) :
      Reached (list.schedulePending tickType pos priority).1
  | unpack {list : TickList} (currentTick : Int) (h : Reached list) :
      Reached (list.unpack currentTick)
  | popReady {list rest : TickList} {currentTick : Int} {tick : ScheduledTick}
      (hpop : list.popReady currentTick = some (tick, rest)) (h : Reached list) : Reached rest
  | removePendingMatching {list : TickList} (predicate : ℕ → SavedTick → Bool)
      (h : Reached list) : Reached (list.removePendingMatching predicate).1

theorem Reached.keysExact (h : Reached list) : KeysExact list := by
  induction h with
  | new => exact new_keysExact
  | newPending => exact newPending_keysExact
  | fromProtoSavedTicks savedTicks => exact fromProtoSavedTicks_keysExact savedTicks
  | schedule tick _ ih => exact schedule_keysExact ih tick
  | schedulePending tickType pos priority _ ih => exact scheduleSavedPending_keysExact ih _
  | unpack currentTick _ ih => exact unpack_keysExact ih currentTick
  | popReady hpop _ ih => exact popReady_keysExact ih hpop
  | removePendingMatching predicate _ ih => exact removePendingMatching_keysExact ih predicate

theorem schedule_accepts (list : TickList) (tick : ScheduledTick) :
    (list.schedule tick).2 = true ↔ tick.key ∉ list.scheduled := by
  unfold schedule
  split_ifs with hmem
  · simp [hmem]
  · simp [hmem]

theorem scheduleSavedPending_accepts (list : TickList) (tick : SavedTick) :
    (list.scheduleSavedPending tick).2 = true ↔ tick.key ∉ list.scheduled := by
  unfold scheduleSavedPending
  split_ifs with hmem
  · simp [hmem]
  · simp [hmem]

theorem len_eq_length_waiting (list : TickList) : list.len = list.waiting.length := by
  rw [waiting, length_append, length_map, length_map, len, Nat.add_comm]

/-- In every reached list the scheduled keys are those of the waiting ticks, each of them once:
a tick is accepted exactly if none with its key waits, and the length counts the waiting ticks. -/
theorem reached_waiting {list : TickList} (h : Reached list) :
    (∀ key, key ∈ list.scheduled ↔ key ∈ list.waiting) ∧
    list.waiting.Nodup ∧
    (∀ tick, (list.schedule tick).2 = true ↔ tick.key ∉ list.waiting) ∧
    (∀ tickType pos priority, (list.schedulePending tickType pos priority).2 = true ↔
      (pos, tickType.key) ∉ list.waiting) ∧
    list.len = list.waiting.length ∧ list.len = list.scheduled.card := by
  have hkeys := h.keysExact
  refine ⟨hkeys.mem_scheduled, hkeys.nodup, ?_, ?_, len_eq_length_waiting list, ?_⟩
  · intro tick
    rw [schedule_accepts, hkeys.mem_scheduled]
  · intro tickType pos priority
    rw [schedulePending, scheduleSavedPending_accepts, hkeys.mem_scheduled]
    rfl
  · have hset : list.scheduled = list.waiting.toFinset := by
      ext key
      rw [hkeys.mem_scheduled, mem_toFinset]
    rw [len_eq_length_waiting, hset, toFinset_card_of_nodup hkeys.nodup]

def soonTick : ScheduledTick :=
  { tickType := ⟨7⟩, pos := ⟨1, 64, -2⟩, triggerTick := 20, priority := .normal, subTickOrder := 0 }

theorem reached_waiting_soonTick :
    soonTick.key ∈ (new.schedule soonTick).1.waiting ∧
    ¬ ((new.schedule soonTick).1.schedule soonTick).2 = true ∧
    (new.schedule soonTick).1.len = (new.schedule soonTick).1.scheduled.card := by
  obtain ⟨-, -, haccepts, -, -, hlen⟩ := reached_waiting (Reached.schedule soonTick Reached.new)
  have hmem : soonTick.key ∈ (new.schedule soonTick).1.waiting := by decide
  exact ⟨hmem, fun haccepted => (haccepts soonTick).mp haccepted hmem, hlen⟩

end TickList

end Steel

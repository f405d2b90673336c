import Mathlib.Algebra.Ring.Int.Defs
import Steel.Lib.StableSort
import Steel.Proof.TickListRun

/-!
# Saving and reloading a tick list

Saving drops the sub-tick orders and insertion counters, and unpacking gives out new ones in saved
order. Since the saved order is the sub-tick order, ticks with equal trigger and priority still
leave in the same order.
-/

namespace Steel

open StableSort List

structure DrainedTick where
  pos : BlockPos
  tickType : TickType
  triggerTick : Int
  priority : TickPriority

def ScheduledTick.drained (tick : ScheduledTick) : DrainedTick :=
  { pos := tick.pos, tickType := tick.tickType, triggerTick := tick.triggerTick
    priority := tick.priority }

namespace TickList

def drainedAt (list : TickList) : List Int → List (List DrainedTick)
  | [] => []
  | currentTick :: times =>
    (list.drainReady currentTick).1.map ScheduledTick.drained ::
      drainedAt (list.drainReady currentTick).2 times

def drainSequence (list : TickList) : List DrainedTick :=
  (sortBy QueuedTick.order list.ticks).map fun queued => queued.tick.drained

def isReady (currentTick : Int) (tick : DrainedTick) : Bool :=
  decide (tick.triggerTick ≤ currentTick)

variable {list : TickList} {currentTick : Int}

theorem popReady_eq_none
    (h : list.popReady currentTick = none) :
    list.ticks = [] ∨ ∃ first others, BinaryHeap.pop QueuedTick.order list.ticks =
      some (first, others) ∧ currentTick < first.tick.triggerTick := by
  cases hpop : BinaryHeap.pop QueuedTick.order list.ticks with
  | none => exact Or.inl (BinaryHeap.pop_eq_none_iff.mp hpop)
  | some found =>
    obtain ⟨first, others⟩ := found
    refine Or.inr ⟨first, others, rfl, not_le.mp fun hready => ?_⟩
    have hpeek : list.peekReady currentTick = some first.tick := by
      rw [peekReady, peek, BinaryHeap.peek_eq_some hpop, Option.map_some, Option.filter_some,
        if_pos (decide_eq_true hready)]
    rw [popReady, hpeek, hpop] at h
    exact absurd h (Option.some_ne_none _)

/-- Draining takes the ready ticks off the front of one fixed sequence. -/
theorem drainReady_eq (list : TickList) (currentTick : Int) :
    (list.drainReady currentTick).1.map ScheduledTick.drained =
        list.drainSequence.takeWhile (isReady currentTick) ∧
      (list.drainReady currentTick).2.drainSequence =
        list.drainSequence.dropWhile (isReady currentTick) := by
  induction hlength : list.ticks.length using Nat.strong_induction_on generalizing list with
  | _ length ih =>
    rw [drainReady]
    split
    · next hnone =>
        rcases popReady_eq_none hnone with hempty | ⟨first, others, hpop, hlater⟩
        · rw [drainSequence, hempty]
          exact ⟨rfl, rfl⟩
        · have hnot : ¬ isReady currentTick first.tick.drained = true := by
            rw [isReady, decide_eq_true_iff]
            exact not_le.mpr hlater
          rw [drainSequence, sortBy_pop hpop, map_cons, takeWhile_cons_of_neg hnot,
            dropWhile_cons_of_neg hnot]
          exact ⟨rfl, rfl⟩
    · next tick rest hsome =>
        obtain ⟨hready, hrest⟩ := ih _ (hlength ▸ length_of_popReady hsome) rest rfl
        obtain ⟨insertionOrder, others, hpop, hle, heq⟩ := popReady_eq_some hsome
        have hsequence : list.drainSequence = tick.drained :: rest.drainSequence := by
          rw [drainSequence, sortBy_pop hpop, map_cons, drainSequence, heq]
        have hpos : isReady currentTick tick.drained = true := decide_eq_true hle
        rw [hsequence, takeWhile_cons_of_pos hpos, dropWhile_cons_of_pos hpos,
          ← hready, ← hrest]
        exact ⟨rfl, rfl⟩

theorem drainedAt_congr {other : TickList} (h : list.drainSequence = other.drainSequence)
    (times : List Int) : list.drainedAt times = other.drainedAt times := by
  induction times generalizing list other with
  | nil => rfl
  | cons currentTick times ih =>
    obtain ⟨hready, hrest⟩ := drainReady_eq list currentTick
    obtain ⟨hready', hrest'⟩ := drainReady_eq other currentTick
    have hrests : (list.drainReady currentTick).2.drainSequence =
        (other.drainReady currentTick).2.drainSequence := by rw [hrest, hrest', h]
    rw [drainedAt, drainedAt, hready, hready', h, ih hrests]

def packSequence (list : TickList) : List DrainedTick :=
  (sortBy QueuedTick.packOrder list.ticks).map fun queued => queued.tick.drained

theorem sortBy_order (ticks : List QueuedTick) :
    sortBy QueuedTick.order ticks =
      sortBy (fun queued => queued.tick.triggerTick)
        (sortBy (fun queued => queued.tick.priority.value)
          (sortBy QueuedTick.packOrder ticks)) := by
  let trigger (queued : QueuedTick) := queued.tick.triggerTick
  let priority (queued : QueuedTick) := queued.tick.priority.value
  let subTick (queued : QueuedTick) := queued.tick.subTickOrder
  let drain (queued : QueuedTick) := queued.tick.drainOrder
  let intra (queued : QueuedTick) := queued.tick.intraTickDrainOrder
  calc sortBy QueuedTick.order ticks
      = sortBy drain (sortBy QueuedTick.insertionOrder ticks) := sortBy_pairKey drain _ _
    _ = sortBy trigger (sortBy intra (sortBy QueuedTick.insertionOrder ticks)) :=
        sortBy_pairKey trigger intra _
    _ = sortBy trigger
      (sortBy priority (sortBy subTick (sortBy QueuedTick.insertionOrder ticks))) :=
        congrArg (sortBy trigger) (sortBy_pairKey priority subTick _)
    _ = sortBy trigger (sortBy priority (sortBy QueuedTick.packOrder ticks)) :=
        congrArg (fun xs => sortBy trigger (sortBy priority xs)) (sortBy_pairKey subTick _ _).symm

theorem drainSequence_eq (list : TickList) :
    list.drainSequence = sortBy DrainedTick.triggerTick
      (sortBy (fun tick => tick.priority.value) list.packSequence) := by
  rw [drainSequence, sortBy_order, packSequence, sortBy_map, sortBy_map]
  rfl

theorem not_isReady_of_mem_dropWhile {ticks : List DrainedTick} {tick : DrainedTick}
    (h : ticks.Pairwise fun first later => first.triggerTick ≤ later.triggerTick)
    (hmem : tick ∈ ticks.dropWhile (isReady currentTick)) : isReady currentTick tick = false := by
  induction h with
  | nil => cases hmem
  | @cons first rest hlater _ ih =>
    cases hready : isReady currentTick first with
    | true => exact ih (dropWhile_cons_of_pos hready ▸ hmem)
    | false =>
      rw [dropWhile_cons_of_neg (by rw [hready]; decide)] at hmem
      rcases mem_cons.mp hmem with rfl | hrest
      · exact hready
      · rw [isReady, decide_eq_false_iff_not] at hready ⊢
        exact fun hle => hready ((hlater tick hrest).trans hle)

/-- However often the list is drained, its ticks leave in one order, and those leave that were due
at one of the times. -/
theorem flatten_drainedAt (list : TickList) (times : List Int) :
    (list.drainedAt times).flatten =
      list.drainSequence.filter fun tick => times.any fun time => isReady time tick := by
  induction times generalizing list with
  | nil => exact (filter_false _).symm
  | cons time times ih =>
    obtain ⟨hready, hrest⟩ := drainReady_eq list time
    rw [drainedAt, flatten_cons, ih, hready, hrest]
    conv_rhs => rw [← takeWhile_append_dropWhile (p := isReady time) (l := list.drainSequence)]
    rw [filter_append]
    congr 1
    · refine (filter_eq_self.mpr fun tick htick => ?_).symm
      rw [any_cons, all_eq_true.mp all_takeWhile tick htick, Bool.true_or]
    · refine filter_congr fun tick htick => ?_
      rw [any_cons, not_isReady_of_mem_dropWhile (drainSequence_eq list ▸ pairwise_sortBy) htick,
        Bool.false_or]

/-! ### The saved list -/

def savedDrained (currentTick : Int) (saved : SavedTick) : DrainedTick :=
  { pos := saved.pos, tickType := saved.tickType
    triggerTick := wrapI64 (currentTick + saved.delay), priority := saved.priority }

theorem anchored_pairwise (currentTick : Int) (count start : ℕ) (saved : List SavedTick) :
    ((saved.zipIdx start).map (anchored currentTick count)).Pairwise
      fun left right => left.subTickOrder < right.subTickOrder := by
  induction saved generalizing start with
  | nil => exact List.Pairwise.nil
  | cons tick rest ih =>
    rw [zipIdx_cons, map_cons, pairwise_cons]
    refine ⟨fun later hlater => ?_, ih (start + 1)⟩
    obtain ⟨⟨entry, index⟩, hmem, rfl⟩ := mem_map.mp hlater
    have hindex := le_snd_of_mem_zipIdx hmem
    simp only [anchored] at hindex ⊢
    omega

theorem anchored_negative {saved : List SavedTick} {tick : ScheduledTick}
    (h : tick ∈ saved.zipIdx.map (anchored currentTick saved.length)) : tick.subTickOrder < 0 := by
  obtain ⟨⟨entry, index⟩, hmem, rfl⟩ := mem_map.mp h
  have hindex := snd_lt_of_mem_zipIdx hmem
  simp only [anchored] at hindex ⊢
  omega

/-- Loaded ticks come before those that were scheduled in play. -/
theorem packSequence_unpack (currentTick : Int)
    (hplay : list.pendingEntries ≠ [] → ∀ queued ∈ list.ticks, 0 ≤ queued.tick.subTickOrder) :
    (list.unpack currentTick).packSequence =
      list.pendingEntries.map (savedDrained currentTick) ++ list.packSequence := by
  obtain ⟨live, hlive, nextInsertionOrder, hunpack⟩ := unpack_eq list currentTick
  have hsub : (live.map QueuedTick.tick).Pairwise
      fun left right => left.subTickOrder < right.subTickOrder := by
    rw [hlive]
    exact anchored_pairwise currentTick _ 0 _
  have hincreasing : live.Pairwise fun left right => left.packOrder < right.packOrder :=
    (pairwise_map.mp hsub).imp fun hlt => Prod.Lex.toLex_lt_toLex.mpr (Or.inl hlt)
  have hahead : ∀ queued ∈ live.reverse, ∀ other ∈ list.ticks,
      queued.packOrder ≤ other.packOrder := by
    intro queued hqueued other hother
    have htick : queued.tick ∈ list.pendingEntries.zipIdx.map
        (anchored currentTick list.pendingEntries.length) := by
      rw [← hlive]
      exact mem_map_of_mem (mem_reverse.mp hqueued)
    have hpending : list.pendingEntries ≠ [] := by
      intro hempty
      rw [hempty] at htick
      exact absurd htick not_mem_nil
    have hlt : queued.tick.subTickOrder < other.tick.subTickOrder :=
      (anchored_negative htick).trans_le (hplay hpending other hother)
    exact (Prod.Lex.toLex_lt_toLex.mpr (Or.inl hlt)).le
  have hdrained : live.map (fun queued => queued.tick.drained) =
      list.pendingEntries.map (savedDrained currentTick) := by
    calc live.map (fun queued => queued.tick.drained)
        = (live.map QueuedTick.tick).map ScheduledTick.drained := by rw [map_map]; rfl
      _ = (list.pendingEntries.zipIdx.map Prod.fst).map (savedDrained currentTick) := by
          rw [hlive, map_map, map_map]; rfl
      _ = list.pendingEntries.map (savedDrained currentTick) := by rw [zipIdx_map_fst]
  rw [packSequence, hunpack, sortBy_append_of_le hahead, sortBy_reverse hincreasing,
    map_append, hdrained, packSequence]

theorem savedDrained_saveLive {queued : QueuedTick}
    (htrigger : -2 ^ 63 ≤ queued.tick.triggerTick ∧ queued.tick.triggerTick < 2 ^ 63)
    (hfits : -2 ^ 31 ≤ queued.tick.triggerTick - currentTick ∧
      queued.tick.triggerTick - currentTick < 2 ^ 31) :
    savedDrained currentTick (saveLive currentTick queued) = queued.tick.drained := by
  have hdelay : wrapI32 (wrapI64 (queued.tick.triggerTick - currentTick)) =
      queued.tick.triggerTick - currentTick := by
    have hlong : wrapI64 (queued.tick.triggerTick - currentTick) =
        queued.tick.triggerTick - currentTick := Int.bmod_eq_of_le (by omega) (by omega)
    rw [hlong]
    exact Int.bmod_eq_of_le (by omega) (by omega)
  have hback : wrapI64 (currentTick + (queued.tick.triggerTick - currentTick)) =
      queued.tick.triggerTick := by
    have hsum : currentTick + (queued.tick.triggerTick - currentTick) =
        queued.tick.triggerTick := by omega
    rw [hsum]
    exact Int.bmod_eq_of_le (by omega) (by omega)
  rw [savedDrained, saveLive, hdelay, hback]
  rfl

/-- A list that is saved, loaded and unpacked drains as if it had been unpacked and kept: at any
sequence of game times the same ticks leave in the same order. -/
theorem pack_reload_drains {list : TickList} (currentTick : Int)
    (hplay : list.pendingEntries ≠ [] → ∀ queued ∈ list.ticks, 0 ≤ queued.tick.subTickOrder)
    (htrigger : ∀ queued ∈ list.ticks,
      -2 ^ 63 ≤ queued.tick.triggerTick ∧ queued.tick.triggerTick < 2 ^ 63)
    (hfits : ∀ queued ∈ list.ticks, -2 ^ 31 ≤ queued.tick.triggerTick - currentTick ∧
      queued.tick.triggerTick - currentTick < 2 ^ 31) (times : List Int) :
    ((fromSavedTicks (list.pack currentTick)).unpack currentTick).drainedAt times =
      (list.unpack currentTick).drainedAt times := by
  apply drainedAt_congr
  rw [drainSequence_eq, drainSequence_eq]
  have hlive : (sortBy QueuedTick.packOrder list.ticks).map
      (fun queued => savedDrained currentTick (saveLive currentTick queued)) =
        list.packSequence := by
    refine map_congr_left fun queued hqueued => ?_
    have hmem := mem_sortBy.mp hqueued
    exact savedDrained_saveLive (htrigger queued hmem) (hfits queued hmem)
  have hreloaded : ((fromSavedTicks (list.pack currentTick)).unpack currentTick).packSequence =
      (list.unpack currentTick).packSequence := by
    rw [packSequence_unpack currentTick hplay, ← hlive,
      packSequence_unpack currentTick fun _ queued hqueued => absurd hqueued not_mem_nil]
    calc (list.pack currentTick).map (savedDrained currentTick) ++ []
        = list.pendingEntries.map (savedDrained currentTick) ++
            ((sortBy QueuedTick.packOrder list.ticks).map (saveLive currentTick)).map
              (savedDrained currentTick) := by
          rw [append_nil, pack, map_append]
          rfl
      _ = _ := by rw [map_map]; rfl
  rw [hreloaded]

def mixedList : TickList :=
  ((new.schedule soonTick).1.schedulePending ⟨3⟩ ⟨0, 64, 0⟩ .high).1

theorem pack_reload_drains_mixedList :
    mixedList.pendingEntries ≠ [] ∧ mixedList.ticks ≠ [] ∧
    ((fromSavedTicks (mixedList.pack 5)).unpack 5).drainedAt [5, 19, 20] =
      (mixedList.unpack 5).drainedAt [5, 19, 20] :=
  ⟨by decide, by decide,
    pack_reload_drains 5 (by decide) (by decide) (by decide) [5, 19, 20]⟩

end TickList

end Steel

import Mathlib.Tactic.Linarith
import Steel.Utils.Position

/-!
# The chunks a player sees

A view is a disc of chunks. Its walks go over the enclosing square, and the difference of two views
over the square that encloses both.
-/

namespace Steel

open List

structure PlayerChunkView where
  center : ChunkPos
  viewDistance : ℕ
deriving DecidableEq, Repr

inductive ViewChange where
  | added (pos : ChunkPos)
  | removed (pos : ChunkPos)
deriving DecidableEq, Repr

def inclusiveRange (first last : Int) : List Int :=
  (List.range (last + 1 - first).toNat).map fun offset : ℕ => first + (offset : Int)

theorem mem_inclusiveRange {first last n : Int} :
    n ∈ inclusiveRange first last ↔ first ≤ n ∧ n ≤ last := by
  simp only [inclusiveRange, mem_map, mem_range]
  constructor
  · rintro ⟨offset, hoffset, rfl⟩
    omega
  · intro ⟨hfirst, hlast⟩
    exact ⟨(n - first).toNat, by omega, by omega⟩

def chunkSquare (minX maxX minZ maxZ : Int) : List ChunkPos :=
  (inclusiveRange minX maxX).flatMap fun x =>
    (inclusiveRange minZ maxZ).map fun z => ⟨x, z⟩

theorem mem_chunkSquare {minX maxX minZ maxZ : Int} {pos : ChunkPos} :
    pos ∈ chunkSquare minX maxX minZ maxZ ↔
      (minX ≤ pos.x ∧ pos.x ≤ maxX) ∧ minZ ≤ pos.y ∧ pos.y ≤ maxZ := by
  simp only [chunkSquare, mem_flatMap, mem_map, mem_inclusiveRange]
  constructor
  · rintro ⟨x, hx, z, hz, rfl⟩
    exact ⟨hx, hz⟩
  · intro ⟨hx, hz⟩
    exact ⟨pos.x, hx, pos.y, hz, rfl⟩

namespace PlayerChunkView

def minX (view : PlayerChunkView) : Int := view.center.x - view.viewDistance - 1

def maxX (view : PlayerChunkView) : Int := view.center.x + view.viewDistance + 1

def minZ (view : PlayerChunkView) : Int := view.center.y - view.viewDistance - 1

def maxZ (view : PlayerChunkView) : Int := view.center.y + view.viewDistance + 1

def isWithinDistance (centerX centerZ viewDistance chunkX chunkZ : Int) (includeNeighbors : Bool) :
    Bool :=
  let bufferRange : Int := if includeNeighbors then 2 else 1
  let deltaX := max 0 (|chunkX - centerX| - bufferRange)
  let deltaZ := max 0 (|chunkZ - centerZ| - bufferRange)
  deltaX * deltaX + deltaZ * deltaZ < viewDistance * viewDistance

def contains (view : PlayerChunkView) (pos : ChunkPos) : Bool :=
  isWithinDistance view.center.x view.center.y view.viewDistance pos.x pos.y true

def forEach (view : PlayerChunkView) : List ChunkPos :=
  (chunkSquare view.minX view.maxX view.minZ view.maxZ).filter view.contains

def squareIntersects (view other : PlayerChunkView) : Bool :=
  view.minX ≤ other.maxX && view.maxX ≥ other.minX &&
    view.minZ ≤ other.maxZ && view.maxZ ≥ other.minZ

def difference (old new : PlayerChunkView) : List ViewChange :=
  if old = new then []
  else if old.squareIntersects new then
    (chunkSquare (min old.minX new.minX) (max old.maxX new.maxX)
      (min old.minZ new.minZ) (max old.maxZ new.maxZ)).filterMap fun pos =>
        if old.contains pos = new.contains pos then none
        else if new.contains pos then some (.added pos) else some (.removed pos)
  else old.forEach.map .removed ++ new.forEach.map .added

/-! ### Membership -/

theorem lt_of_delta {offset radius other : Int} (hradius : 0 ≤ radius)
    (h : max 0 (|offset| - 2) * max 0 (|offset| - 2) + other * other < radius * radius) :
    |offset| ≤ radius + 1 := by
  by_contra hfar
  have hdelta : radius ≤ max 0 (|offset| - 2) := by omega
  have hsquare := mul_self_le_mul_self hradius hdelta
  linarith [mul_self_nonneg other]

variable {view : PlayerChunkView} {pos : ChunkPos}

theorem inSquare_of_contains (h : view.contains pos) :
    (view.minX ≤ pos.x ∧ pos.x ≤ view.maxX) ∧ view.minZ ≤ pos.y ∧ pos.y ≤ view.maxZ := by
  simp only [contains, isWithinDistance, if_true, decide_eq_true_eq] at h
  have hradius : (0 : Int) ≤ view.viewDistance := Int.natCast_nonneg _
  have hx := abs_le.mp (lt_of_delta hradius h)
  have hz := abs_le.mp (lt_of_delta hradius ((add_comm _ _).trans_lt h))
  simp only [minX, maxX, minZ, maxZ]
  omega

theorem mem_forEach :
    pos ∈ view.forEach ↔ view.contains pos := by
  rw [forEach, mem_filter, mem_chunkSquare]
  exact ⟨And.right, fun h => ⟨inSquare_of_contains h, h⟩⟩

theorem squareIntersects_of_contains {other : PlayerChunkView}
    (hview : view.contains pos) (hother : other.contains pos) :
    view.squareIntersects other := by
  obtain ⟨⟨hminX, hmaxX⟩, hminZ, hmaxZ⟩ := inSquare_of_contains hview
  obtain ⟨⟨hminX', hmaxX'⟩, hminZ', hmaxZ'⟩ := inSquare_of_contains hother
  simp only [squareIntersects, Bool.and_eq_true, decide_eq_true_eq]
  omega

theorem added_mem_difference {old new : PlayerChunkView} :
    .added pos ∈ difference old new ↔ new.contains pos ∧ ¬ old.contains pos := by
  unfold difference
  split
  case isTrue heq =>
    subst heq
    simp
  case isFalse =>
    split
    case isTrue =>
      rw [mem_filterMap]
      constructor
      · rintro ⟨walked, -, hchange⟩
        split at hchange
        case isTrue => cases hchange
        case isFalse hne =>
          split at hchange
          case isTrue hnew =>
            cases hchange
            exact ⟨hnew, fun hold => hne (hold.trans hnew.symm)⟩
          case isFalse => cases hchange
      · intro ⟨hnew, hold⟩
        refine ⟨pos, ?_, by simp [hnew, hold]⟩
        have hsquare := inSquare_of_contains hnew
        rw [mem_chunkSquare]
        omega
    case isFalse hapart =>
      have hdisjoint : new.contains pos → ¬ old.contains pos := fun hnew hold =>
        hapart (squareIntersects_of_contains hold hnew)
      simp only [mem_append, mem_map, reduceCtorEq, and_false, exists_false, false_or,
        ViewChange.added.injEq, exists_eq_right, mem_forEach]
      exact ⟨fun hnew => ⟨hnew, hdisjoint hnew⟩, And.left⟩

theorem removed_mem_difference {old new : PlayerChunkView} :
    .removed pos ∈ difference old new ↔ old.contains pos ∧ ¬ new.contains pos := by
  unfold difference
  split
  case isTrue heq =>
    subst heq
    simp
  case isFalse =>
    split
    case isTrue =>
      rw [mem_filterMap]
      constructor
      · rintro ⟨walked, -, hchange⟩
        split at hchange
        case isTrue => cases hchange
        case isFalse hne =>
          split at hchange
          case isTrue => cases hchange
          case isFalse hnew =>
            cases hchange
            exact ⟨by grind, hnew⟩
      · intro ⟨hold, hnew⟩
        refine ⟨pos, ?_, by simp [hnew, hold]⟩
        have hsquare := inSquare_of_contains hold
        rw [mem_chunkSquare]
        omega
    case isFalse hapart =>
      have hdisjoint : old.contains pos → ¬ new.contains pos := fun hold hnew =>
        hapart (squareIntersects_of_contains hold hnew)
      simp only [mem_append, mem_map, reduceCtorEq, and_false, exists_false, or_false,
        ViewChange.removed.injEq, exists_eq_right, mem_forEach]
      exact ⟨fun hold => ⟨hold, hdisjoint hold⟩, And.left⟩

end PlayerChunkView

/-!
### The calls of a difference

Both scans visit a chunk once, so what is called for a chunk is called once.
-/

theorem nodup_inclusiveRange (first last : Int) : (inclusiveRange first last).Nodup := by
  refine nodup_range.map ?_
  intro offset offset' heq
  simpa using heq

theorem nodup_chunkSquare (minX maxX minZ maxZ : Int) :
    (chunkSquare minX maxX minZ maxZ).Nodup := by
  rw [chunkSquare, nodup_flatMap]
  constructor
  · intro x _
    refine (nodup_inclusiveRange minZ maxZ).map ?_
    intro z z' heq
    simpa using heq
  · refine (nodup_inclusiveRange minX maxX).imp ?_
    intro x x' hne pos hpos hpos'
    obtain ⟨z, -, rfl⟩ := mem_map.mp hpos
    obtain ⟨z', -, heq⟩ := mem_map.mp hpos'
    exact hne (ChunkPos.mk.inj heq).1.symm

namespace PlayerChunkView

variable (old new : PlayerChunkView)

theorem nodup_forEach (view : PlayerChunkView) : view.forEach.Nodup :=
  (nodup_chunkSquare _ _ _ _).filter _

theorem nodup_difference : (difference old new).Nodup := by
  unfold difference
  split
  · exact nodup_nil
  split
  · refine (nodup_chunkSquare _ _ _ _).filterMap ?_
    intro pos pos' change hpos hpos'
    split_ifs at hpos hpos' <;> cases hpos <;> cases hpos' <;> rfl
  · refine nodup_append.mpr ⟨?_, ?_, ?_⟩
    · exact (nodup_forEach old).map fun _ _ heq => ViewChange.removed.inj heq
    · exact (nodup_forEach new).map fun _ _ heq => ViewChange.added.inj heq
    · intro change hremoved change' hadded heq
      obtain ⟨pos, -, rfl⟩ := mem_map.mp hremoved
      obtain ⟨pos', -, rfl⟩ := mem_map.mp hadded
      cases heq

/-- **The difference calls once for each chunk that enters or leaves, and for no other.** -/
theorem count_difference (pos : ChunkPos) :
    (difference old new).count (.added pos) =
        (if new.contains pos ∧ ¬ old.contains pos then 1 else 0) ∧
      (difference old new).count (.removed pos) =
        if old.contains pos ∧ ¬ new.contains pos then 1 else 0 := by
  have hnodup := nodup_difference old new
  constructor
  · rw [hnodup.count]
    simp only [added_mem_difference]
  · rw [hnodup.count]
    simp only [removed_mem_difference]

end PlayerChunkView

end Steel

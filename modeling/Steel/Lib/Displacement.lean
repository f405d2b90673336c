import Mathlib.Data.List.Perm.Subperm
import Mathlib.Data.List.ReduceOption

/-!
# Values that displace each other

The values of a deque are put into slots, the last one first. The value that a slot had before goes
to the front of the deque, unless it is dropped. This goes on until there is no value or no slot
left.
-/

namespace Steel

open List

variable {α : Type}

/-- The values that have got a slot, and the values that are left. -/
def displace (dropped : α → Bool) : List (Option α) → List α → List α × List α
  | [], deque => ([], deque)
  | slot :: slots, deque =>
    match deque.getLast? with
    | none => ([], [])
    | some value =>
      let (placed, left) :=
        displace dropped slots ((slot.filter (!dropped ·)).toList ++ deque.dropLast)
      (value :: placed, left)

section

variable {dropped : α → Bool} {slots : List (Option α)} {deque : List α}

theorem displace_nil (slots : List (Option α)) : displace dropped slots [] = ([], []) := by
  cases slots <;> rfl

theorem displace_cons (slot : Option α) (slots : List (Option α)) (deque : List α) (value : α) :
    displace dropped (slot :: slots) (deque ++ [value]) =
      (value :: (displace dropped slots ((slot.filter (!dropped ·)).toList ++ deque)).1,
        (displace dropped slots ((slot.filter (!dropped ·)).toList ++ deque)).2) := by
  simp only [displace, List.getLast?_append, List.getLast?_singleton, Option.some_or,
    dropLast_concat]

theorem displace_length (dropped : α → Bool) (slots : List (Option α)) (deque : List α) :
    (displace dropped slots deque).1.length ≤ slots.length ∧
      ((displace dropped slots deque).2 ≠ [] →
        (displace dropped slots deque).1.length = slots.length) := by
  induction slots generalizing deque with
  | nil => exact ⟨Nat.le_refl 0, fun _ => rfl⟩
  | cons slot slots ih =>
    rcases eq_nil_or_concat deque with rfl | ⟨front, value, rfl⟩
    · rw [displace_nil]
      exact ⟨Nat.zero_le _, fun h => absurd rfl h⟩
    · rw [concat_eq_append, displace_cons]
      obtain ⟨hle, heq⟩ := ih ((slot.filter (!dropped ·)).toList ++ front)
      exact ⟨Nat.succ_le_succ hle, fun h => congrArg Nat.succ (heq h)⟩

theorem displace_perm (dropped : α → Bool) (slots : List (Option α)) (deque : List α) :
    ((displace dropped slots deque).1 ++ (displace dropped slots deque).2).Perm
      (deque ++ ((slots.take (displace dropped slots deque).1.length).reduceOption.filter
        (!dropped ·))) := by
  induction slots generalizing deque with
  | nil => simp [displace, reduceOption_nil]
  | cons slot slots ih =>
    rcases eq_nil_or_concat deque with rfl | ⟨front, value, rfl⟩
    · simp [displace_nil, reduceOption_nil]
    · rw [concat_eq_append, displace_cons]
      have hrest := ih ((slot.filter (!dropped ·)).toList ++ front)
      generalize displace dropped slots ((slot.filter (!dropped ·)).toList ++ front) = result
        at hrest ⊢
      have hslot : ((slot :: slots).take (result.1.length + 1)).reduceOption.filter (!dropped ·) =
          (slot.filter (!dropped ·)).toList ++
            (slots.take result.1.length).reduceOption.filter (!dropped ·) := by
        cases slot with
        | none => rfl
        | some old =>
          cases hold : dropped old <;>
            simp [hold, reduceOption_cons_of_some, Option.filter]
      rw [length_cons, hslot, cons_append, append_assoc, singleton_append]
      calc
        (value :: (result.1 ++ result.2)).Perm
            (value :: ((slot.filter (!dropped ·)).toList ++ front ++
              (slots.take result.1.length).reduceOption.filter (!dropped ·))) := hrest.cons value
        _ |>.Perm (value :: (front ++ ((slot.filter (!dropped ·)).toList ++
              (slots.take result.1.length).reduceOption.filter (!dropped ·)))) := by
          rw [← append_assoc]
          exact (perm_append_comm.append_right _).cons value
        _ |>.Perm _ := perm_middle.symm

end

section

variable {values deque : List α} {dropped : α → Bool}

/-- The slots of a list of values, with room behind them. -/
def padded (values : List α) (room : ℕ) : List (Option α) :=
  values.map some ++ List.replicate room none

theorem reduceOption_map_some (values : List α) : (values.map some).reduceOption = values := by
  induction values with
  | nil => rfl
  | cons value values ih =>
    rw [map_cons, reduceOption_cons_of_some, ih]

theorem length_padded (values : List α) (room : ℕ) :
    (padded values room).length = values.length + room := by
  rw [padded, length_append, length_map, length_replicate]

theorem getElem?_padded {i : ℕ} (h : i < values.length) (room : ℕ) :
    (padded values room)[i]? = some values[i]? := by
  rw [padded, List.getElem?_append_left (by rwa [length_map]), List.getElem?_map,
    List.getElem?_eq_getElem h]
  rfl

theorem drop_padded {count : ℕ} (h : values.length ≤ count) (room : ℕ) :
    (padded values room).drop count = List.replicate (values.length + room - count) none := by
  rw [padded, drop_append, drop_of_length_le (by rwa [length_map]), nil_append,
    drop_replicate, length_map]
  congr 1
  omega

theorem take_padded_reduceOption (values : List α) (room count : ℕ) :
    ((padded values room).take count).reduceOption = values.take count := by
  rw [padded, take_append, take_replicate, reduceOption_append,
    reduceOption_replicate_none, append_nil, ← map_take, reduceOption_map_some]

theorem displace_nodup (hdropped : ∀ value, dropped value = true ↔ value ∈ deque)
    (hvalues : values.Nodup) (hdeque : deque.Nodup) (room : ℕ) :
    (displace dropped (padded values room) deque).1.Nodup := by
  have hperm := displace_perm dropped (padded values room) deque
  rw [take_padded_reduceOption] at hperm
  have hnodup := hperm.nodup_iff.mpr ?_
  · exact (nodup_append.mp hnodup).1
  · refine nodup_append.mpr ⟨hdeque, hvalues.take.filter _, ?_⟩
    intro value hmem kept hkept heq
    have hout := (mem_filter.mp hkept).2
    rw [← heq, (hdropped value).mpr hmem] at hout
    cases hout

theorem length_le_displace (hdropped : ∀ value, dropped value = true ↔ value ∈ deque)
    (hvalues : values.Nodup) {new : α} (hnew : new ∈ deque) (hfresh : new ∉ values) (room : ℕ) :
    values.length ≤ (displace dropped (padded values room) deque).1.length := by
  have hperm := displace_perm dropped (padded values room) deque
  obtain ⟨-, hfull⟩ := displace_length dropped (padded values room) deque
  rw [take_padded_reduceOption] at hperm
  generalize displace dropped (padded values room) deque = result at hperm hfull ⊢
  by_contra hlt
  have hleft : result.2 = [] := by
    by_contra hne
    have hlength := hfull hne
    rw [length_padded] at hlength
    omega
  -- The values that were dropped are as many as the deque has had: they are all of them.
  have hcount := hperm.length_eq
  rw [hleft, append_nil, length_append] at hcount
  have hsplit := (values.take result.1.length).length_eq_length_filter_add dropped
  rw [length_take_of_le (by omega)] at hsplit
  have hnodup : ((values.take result.1.length).filter dropped).Nodup := hvalues.take.filter _
  have hsubperm := subperm_of_subset hnodup
    (fun value hmem => (hdropped value).mp (mem_filter.mp hmem).2)
  have hall := hsubperm.perm_of_length_le (by omega)
  have hmem := mem_filter.mp (hall.mem_iff.mpr hnew)
  exact hfresh (mem_of_mem_take hmem.1)

end

end Steel

import Mathlib.Data.List.Induction
import Mathlib.Data.List.Nodup

/-!
# Lists threaded through slots

The nodes of a doubly linked list stand in the slots of a vector and name each other by index. A
segment of the list has a link at both ends, so that it can be cut at a node and joined again.
-/

namespace LinkedSlots

open List

variable {α : Type}

structure Node (α : Type) where
  item : α
  previous : Option ℕ
  next : Option ℕ
deriving DecidableEq, Repr

/-- A write to one slot, which has to be there. -/
def update (nodes : List (Node α)) (slot : ℕ) (f : Node α → Node α) : Option (List (Node α)) := do
  let node ← nodes[slot]?
  return nodes.set slot (f node)

/-! ### Segments -/

def firstSlot (entries : List (ℕ × α)) : Option ℕ := entries.head?.map Prod.fst

def lastSlot (entries : List (ℕ × α)) : Option ℕ := entries.getLast?.map Prod.fst

/-- The entries follow each other, between the links `before` and `after`. -/
def Segment (nodes : List (Node α)) : Option ℕ → List (ℕ × α) → Option ℕ → Prop
  | _, [], _ => True
  | before, (slot, item) :: rest, after =>
    nodes[slot]? = some ⟨item, before, (firstSlot rest).or after⟩ ∧
      Segment nodes (some slot) rest after

variable {nodes : List (Node α)} {before after : Option ℕ} {entries front back : List (ℕ × α)}
  {slot : ℕ} {item : α}

theorem firstSlot_append (front back : List (ℕ × α)) :
    firstSlot (front ++ back) = (firstSlot front).or (firstSlot back) := by
  cases front <;> rfl

theorem lastSlot_append (front back : List (ℕ × α)) :
    lastSlot (front ++ back) = (lastSlot back).or (lastSlot front) := by
  rw [lastSlot, getLast?_append, lastSlot, lastSlot]
  cases back.getLast? <;> rfl

theorem lastSlot_cons (entry : ℕ × α) (rest : List (ℕ × α)) :
    lastSlot (entry :: rest) = (lastSlot rest).or (some entry.1) :=
  lastSlot_append [entry] rest

theorem isNone_lastSlot (entries : List (ℕ × α)) :
    (lastSlot entries).isNone = (firstSlot entries).isNone := by
  cases entries with
  | nil => rfl
  | cons entry rest =>
    rw [lastSlot_cons]
    cases lastSlot rest <;> rfl

theorem segment_append :
    Segment nodes before (front ++ back) after ↔
      Segment nodes before front ((firstSlot back).or after) ∧
        Segment nodes ((lastSlot front).or before) back after := by
  induction front generalizing before with
  | nil => exact ⟨fun h => ⟨trivial, h⟩, fun h => h.2⟩
  | cons entry front ih =>
    obtain ⟨slot, item⟩ := entry
    rw [cons_append, Segment, Segment, ih, firstSlot_append, Option.or_assoc, and_assoc,
      lastSlot_cons, Option.or_assoc]
    rfl

/-- A segment reads only its own slots. -/
theorem Segment.congr {others : List (Node α)} (h : Segment nodes before entries after)
    (hsame : ∀ slot ∈ entries.map Prod.fst, others[slot]? = nodes[slot]?) :
    Segment others before entries after := by
  induction entries generalizing before with
  | nil => trivial
  | cons entry rest ih =>
    obtain ⟨slot, item⟩ := entry
    refine ⟨(hsame slot mem_cons_self).trans h.1, ih h.2 fun other hother => ?_⟩
    exact hsame other (mem_cons_of_mem slot hother)

theorem Segment.set (h : Segment nodes before entries after) (node : Node α)
    (hslot : slot ∉ entries.map Prod.fst) : Segment (nodes.set slot node) before entries after :=
  h.congr fun _ hother => getElem?_set_ne (ne_of_mem_of_not_mem hother hslot).symm

theorem Segment.lt_length (h : Segment nodes before entries after)
    (hslot : slot ∈ entries.map Prod.fst) : slot < nodes.length := by
  induction entries generalizing before with
  | nil => exact absurd hslot not_mem_nil
  | cons entry rest ih =>
    rcases mem_cons.mp hslot with rfl | hslot
    · exact (List.getElem?_eq_some_iff.mp h.1).1
    · exact ih h.2 hslot

/-- The link after the last node. -/
theorem Segment.setNext (h : Segment nodes before entries after)
    (hnodup : (entries.map Prod.fst).Nodup) (hlast : lastSlot entries = some slot)
    (next : Option ℕ) :
    ∃ node, nodes[slot]? = some node ∧
      Segment (nodes.set slot { node with next := next }) before entries next := by
  induction entries using List.reverseRecOn with
  | nil => cases hlast
  | append_singleton front entry =>
    obtain ⟨last, item⟩ := entry
    rw [lastSlot_append] at hlast
    obtain rfl : last = slot := Option.some.inj hlast
    obtain ⟨hfront, hnode, -⟩ := segment_append.mp h
    rw [map_append] at hnodup
    have hnot : last ∉ front.map Prod.fst := fun hmem =>
      disjoint_of_nodup_append hnodup hmem mem_cons_self
    have hlt : last < nodes.length := (List.getElem?_eq_some_iff.mp hnode).1
    refine ⟨_, hnode, segment_append.mpr ⟨hfront.set _ hnot, ?_, trivial⟩⟩
    rw [getElem?_set_self hlt]
    rfl

/-- The link before the first node. -/
theorem Segment.setPrevious (h : Segment nodes before entries after)
    (hnodup : (entries.map Prod.fst).Nodup) (hfirst : firstSlot entries = some slot)
    (previous : Option ℕ) :
    ∃ node, nodes[slot]? = some node ∧
      Segment (nodes.set slot { node with previous := previous }) previous entries after := by
  cases entries with
  | nil => cases hfirst
  | cons entry rest =>
    obtain ⟨first, item⟩ := entry
    cases hfirst
    obtain ⟨hnode, hrest⟩ := h
    rw [map_cons, nodup_cons] at hnodup
    have hlt : first < nodes.length := (List.getElem?_eq_some_iff.mp hnode).1
    refine ⟨_, hnode, ?_, hrest.set _ hnodup.1⟩
    rw [getElem?_set_self hlt]

/-! ### Chains of free slots -/

/-- The slots follow each other by their links alone, and then the chain ends. -/
def Chain (nodes : List (Node α)) : Option ℕ → List ℕ → Prop
  | start, [] => start = none
  | start, slot :: rest =>
    start = some slot ∧ ∃ node, nodes[slot]? = some node ∧ Chain nodes node.next rest

theorem Chain.congr {others : List (Node α)} {start : Option ℕ} {slots : List ℕ}
    (h : Chain nodes start slots) (hsame : ∀ slot ∈ slots, others[slot]? = nodes[slot]?) :
    Chain others start slots := by
  induction slots generalizing start with
  | nil => exact h
  | cons slot rest ih =>
    obtain ⟨hstart, node, hnode, hrest⟩ := h
    refine ⟨hstart, node, (hsame slot mem_cons_self).trans hnode, ih hrest fun other hother => ?_⟩
    exact hsame other (mem_cons_of_mem slot hother)

end LinkedSlots

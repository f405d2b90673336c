import Steel.Lib.HashMap
import Steel.Lib.LinkedSlots

/-!
# Entity ids in the order of their insertion

The ids are a doubly linked list in the slots of a vector. A map finds the slot of an id, and slots
that have become free are chained for reuse. When at most half of the slots are in use, the list
is written to a new vector.
-/

namespace Steel

open List LinkedSlots

abbrev OrderedEntityIdNode := LinkedSlots.Node Int

structure IndexedOrderedEntityIds where
  nodes : List OrderedEntityIdNode := []
  nodeById : HashMap Int ℕ := ∅
  first : Option ℕ := none
  last : Option ℕ := none
  free : Option ℕ := none

namespace IndexedOrderedEntityIds

def minCompactionSize : ℕ := 64

variable (ids : IndexedOrderedEntityIds)

def len : ℕ := ids.nodeById.keys.card

/-- The link of the previous node, if there is one. -/
def linkNext (nodes : List OrderedEntityIdNode) (previous next : Option ℕ) :
    Option (List OrderedEntityIdNode) :=
  match previous with
  | some previous => update nodes previous ({ · with next := next })
  | none => some nodes

/-- The link that follows `previous`, which is the first one if there is none. -/
def setNext (previous next : Option ℕ) : Option IndexedOrderedEntityIds := do
  let nodes ← linkNext ids.nodes previous next
  return { ids with nodes := nodes, first := if previous.isNone then next else ids.first }

/-- The link back of the next node, if there is one. -/
def linkPrevious (nodes : List OrderedEntityIdNode) (next previous : Option ℕ) :
    Option (List OrderedEntityIdNode) :=
  match next with
  | some next => update nodes next ({ · with previous := previous })
  | none => some nodes

/-- The link that leads to `next` backwards, which is the last one if there is none. -/
def setPrevious (next previous : Option ℕ) : Option IndexedOrderedEntityIds := do
  let nodes ← linkPrevious ids.nodes next previous
  return { ids with nodes := nodes, last := if next.isNone then previous else ids.last }

def takeSlot (entityId : Int) : Option (IndexedOrderedEntityIds × ℕ) :=
  match ids.free with
  | some free => do
    let node ← ids.nodes[free]?
    return ({ ids with free := node.next }, free)
  | none => some ({ ids with nodes := ids.nodes ++ [⟨entityId, none, none⟩] }, ids.nodes.length)

def insert (ids : IndexedOrderedEntityIds) (entityId : Int) :
    Option (IndexedOrderedEntityIds × Bool) :=
  if (ids.nodeById.lookup entityId).isSome then some (ids, false)
  else do
    let previous := ids.last
    let (ids, index) ← ids.takeSlot entityId
    -- debug_assert!(replaced.is_none())
    guard (ids.nodeById.lookup entityId).isNone
    let ids :=
      { ids with
        nodes := ← update ids.nodes index fun _ => ⟨entityId, previous, none⟩
        nodeById := ids.nodeById.insert entityId index }
    let ids ← ids.setNext previous (some index)
    return ({ ids with last := some index }, true)

def compactLoop (nodes : List OrderedEntityIdNode) :
    ℕ → Option ℕ → List OrderedEntityIdNode → HashMap Int ℕ →
      Option (List OrderedEntityIdNode × HashMap Int ℕ)
  | _, none, compacted, nodeById => some (compacted, nodeById)
  | 0, some _, _, _ => none
  | turns + 1, some index, compacted, nodeById => do
    let node ← nodes[index]?
    let compactedIndex := compacted.length
    let previous := if compactedIndex = 0 then none else some (compactedIndex - 1)
    let compacted ← linkNext compacted previous (some compactedIndex)
    compactLoop nodes turns node.next (compacted ++ [⟨node.item, previous, none⟩])
      (nodeById.insert node.item compactedIndex)

/-- A list without a cycle has no more nodes than slots. -/
def compactIfSparse : Option IndexedOrderedEntityIds :=
  if ids.nodes.length < minCompactionSize ∨ ids.nodes.length / 2 < ids.len then some ids
  else do
    let (nodes, nodeById) ← compactLoop ids.nodes ids.nodes.length ids.first [] ∅
    -- debug_assert_eq!(compacted_nodes.len(), live_len)
    guard (nodes.length = ids.len)
    let first := if nodes.isEmpty then none else some 0
    let last := if nodes.length = 0 then none else some (nodes.length - 1)
    return ⟨nodes, nodeById, first, last, none⟩

def remove (entityId : Int) : Option (IndexedOrderedEntityIds × Bool) :=
  match ids.nodeById.lookup entityId with
  | none => some (ids, false)
  | some index => do
    let ids := { ids with nodeById := ids.nodeById.erase entityId }
    let node ← ids.nodes[index]?
    let ids ← ids.setNext node.previous node.next
    let ids ← ids.setPrevious node.next node.previous
    let ids :=
      { ids with
        nodes := ← update ids.nodes index fun _ => ⟨entityId, none, ids.free⟩
        free := some index }
    return (← ids.compactIfSparse, true)

/-! ### Iteration -/

/-- `IndexedOrderedEntityIdsIter` -/
structure Iter where
  nodes : List OrderedEntityIdNode
  next : Option ℕ
  remaining : ℕ

def iter : Iter := ⟨ids.nodes, ids.first, ids.len⟩

/-- The next id, unless the iteration is at its end. -/
def Iter.advance (iter : Iter) : Option (Option (Int × Iter)) :=
  match iter.next with
  | none => some none
  | some index => do
    let node ← iter.nodes[index]?
    if iter.remaining = 0 then none
    else return some (node.item, { iter with next := node.next, remaining := iter.remaining - 1 })

/-- The ids that are left, if there are less than `turns`. -/
def Iter.collect : ℕ → Iter → Option (List Int)
  | 0, _ => none
  | turns + 1, iter => do
    match ← iter.advance with
    | none => return []
    | some (id, iter) => return id :: (← Iter.collect turns iter)

/-! ### Requests -/

inductive Request where
  | insert (entityId : Int)
  | remove (entityId : Int)
  | iterate
  | compact

inductive Reply where
  | reported (changed : Bool)
  | visited (entityIds : List Int)
  | compacted

def serve : Request → Option (IndexedOrderedEntityIds × Reply)
  | .insert entityId => do
    let (ids, changed) ← ids.insert entityId
    return (ids, .reported changed)
  | .remove entityId => do
    let (ids, changed) ← ids.remove entityId
    return (ids, .reported changed)
  | .iterate => do return (ids, .visited (← Iter.collect (ids.nodes.length + 1) ids.iter))
  | .compact => do return (← ids.compactIfSparse, .compacted)

def serveAll (ids : IndexedOrderedEntityIds) :
    List Request → Option (IndexedOrderedEntityIds × List Reply)
  | [] => some (ids, [])
  | request :: requests => do
    let (ids, reply) ← ids.serve request
    let (ids, replies) ← ids.serveAll requests
    return (ids, reply :: replies)

end IndexedOrderedEntityIds

/-! ### What the ids are for -/

namespace InsertionOrdered

open IndexedOrderedEntityIds

/-- A set of ids in the order of their insertion. -/
def serve (contents : List Int) : Request → List Int × Reply
  | .insert entityId =>
    if entityId ∈ contents then (contents, .reported false)
    else (contents ++ [entityId], .reported true)
  | .remove entityId =>
    if entityId ∈ contents then (contents.erase entityId, .reported true)
    else (contents, .reported false)
  | .iterate => (contents, .visited contents)
  | .compact => (contents, .compacted)

def serveAll (contents : List Int) : List Request → List Int × List Reply
  | [] => (contents, [])
  | request :: requests =>
    let (contents, reply) := serve contents request
    let (contents, replies) := serveAll contents requests
    (contents, reply :: replies)

end InsertionOrdered

namespace IndexedOrderedEntityIds

/-- The entries are the slots and ids of the list, in its order. With the free slots they are the
whole vector. -/
structure Represents (ids : IndexedOrderedEntityIds) (entries : List (ℕ × Int)) (frees : List ℕ) :
    Prop where
  linked : Segment ids.nodes none entries none
  first_eq : ids.first = firstSlot entries
  last_eq : ids.last = lastSlot entries
  chained : Chain ids.nodes ids.free frees
  partition : (entries.map Prod.fst ++ frees).Perm (range ids.nodes.length)
  lookup_iff : ∀ entityId slot,
    ids.nodeById.lookup entityId = some slot ↔ (slot, entityId) ∈ entries
  nodup : (entries.map Prod.snd).Nodup

variable {ids : IndexedOrderedEntityIds} {entries front back : List (ℕ × Int)} {frees : List ℕ}
  {before after : Option ℕ} {entityId : Int} {index : ℕ}

namespace Represents

theorem slots_nodup (h : ids.Represents entries frees) :
    (entries.map Prod.fst ++ frees).Nodup := h.partition.nodup_iff.mpr nodup_range

theorem length_le (h : ids.Represents entries frees) : entries.length ≤ ids.nodes.length := by
  have hlength := h.partition.length_eq
  rw [length_append, length_map, length_range] at hlength
  omega

theorem lookup_isSome (h : ids.Represents entries frees) (entityId : Int) :
    (ids.nodeById.lookup entityId).isSome ↔ entityId ∈ entries.map Prod.snd := by
  rw [Option.isSome_iff_exists, mem_map]
  constructor
  · rintro ⟨slot, hslot⟩
    exact ⟨(slot, entityId), (h.lookup_iff entityId slot).mp hslot, rfl⟩
  · rintro ⟨⟨slot, id⟩, hentry, rfl⟩
    exact ⟨slot, (h.lookup_iff id slot).mpr hentry⟩

theorem len_eq (h : ids.Represents entries frees) : ids.len = entries.length := by
  have hkeys : ids.nodeById.keys = (entries.map Prod.snd).toFinset := by
    ext entityId
    rw [mem_toFinset, ← h.lookup_isSome, Finmap.mem_keys, Finmap.lookup_isSome]
  rw [len, hkeys, toFinset_card_of_nodup h.nodup, length_map]

end Represents

/-! ### Links -/

variable {nodes : List OrderedEntityIdNode} {nodeById : HashMap Int ℕ} {turns : ℕ}

theorem exists_linkNext (hlinked : Segment nodes before front after)
    (hnodup : (front.map Prod.fst).Nodup) (next : Option ℕ) :
    ∃ linked, linkNext nodes (lastSlot front) next = some linked ∧
      Segment linked before front next ∧ linked.length = nodes.length ∧
      ∀ slot ∉ front.map Prod.fst, linked[slot]? = nodes[slot]? := by
  cases hlast : lastSlot front with
  | none =>
    have hnil : front = [] := getLast?_eq_none_iff.mp (Option.map_eq_none_iff.mp hlast)
    subst hnil
    exact ⟨nodes, rfl, trivial, rfl, fun _ _ => rfl⟩
  | some slot =>
    obtain ⟨node, hnode, hsegment⟩ := hlinked.setNext hnodup hlast next
    have hmem : slot ∈ front.map Prod.fst := by
      obtain ⟨entry, hentry, rfl⟩ := Option.map_eq_some_iff.mp hlast
      exact mem_map_of_mem (mem_of_getLast? hentry)
    refine ⟨_, ?_, hsegment, length_set, fun other hother => ?_⟩
    · rw [linkNext, update, hnode]
      rfl
    · exact getElem?_set_ne (ne_of_mem_of_not_mem hmem hother)

theorem exists_linkPrevious (hlinked : Segment nodes before back after)
    (hnodup : (back.map Prod.fst).Nodup) (previous : Option ℕ) :
    ∃ linked, linkPrevious nodes (firstSlot back) previous = some linked ∧
      Segment linked previous back after ∧ linked.length = nodes.length ∧
      ∀ slot ∉ back.map Prod.fst, linked[slot]? = nodes[slot]? := by
  cases back with
  | nil => exact ⟨nodes, rfl, trivial, rfl, fun _ _ => rfl⟩
  | cons entry rest =>
    obtain ⟨node, hnode, hsegment⟩ := hlinked.setPrevious hnodup rfl previous
    refine ⟨_, ?_, hsegment, length_set, fun other hother => ?_⟩
    · change linkPrevious nodes (some entry.1) previous = _
      rw [linkPrevious, update, hnode]
      rfl
    · exact getElem?_set_ne (ne_of_mem_of_not_mem mem_cons_self hother)

/-! ### Insertion -/

theorem nodup_snoc (hnodup : (entries.map Prod.snd).Nodup)
    (hnew : entityId ∉ entries.map Prod.snd) :
    ((entries ++ [(index, entityId)]).map Prod.snd).Nodup := by
  rw [map_append]
  refine nodup_append.mpr ⟨hnodup, nodup_singleton _, fun id hid other hother heq => hnew ?_⟩
  have hsame : other = entityId := mem_singleton.mp hother
  rw [← hsame, ← heq]
  exact hid

/-- The node that stands in its slot is linked at the end. -/
theorem exists_linkLast (hlinked : Segment ids.nodes none entries none)
    (hnode : ids.nodes[index]? = some ⟨entityId, lastSlot entries, none⟩)
    (hfirst : ids.first = firstSlot entries) (hchained : Chain ids.nodes ids.free frees)
    (hpartition : (entries.map Prod.fst ++ index :: frees).Perm (range ids.nodes.length))
    (hlookup : ∀ other slot, ids.nodeById.lookup other = some slot ↔
      (slot, other) ∈ entries ++ [(index, entityId)])
    (hnodup : (entries.map Prod.snd).Nodup) (hnew : entityId ∉ entries.map Prod.snd) :
    ∃ linked, ids.setNext (lastSlot entries) (some index) = some linked ∧
      Represents { linked with last := some index } (entries ++ [(index, entityId)]) frees := by
  have hslots := hpartition.nodup_iff.mpr nodup_range
  have hdisjoint := disjoint_of_nodup_append hslots
  have hindex : index ∉ entries.map Prod.fst := fun hmem => hdisjoint hmem mem_cons_self
  obtain ⟨nodes, hlink, hsegment, hlength, hsame⟩ :=
    exists_linkNext hlinked hslots.of_append_left (some index)
  rw [setNext, hlink]
  refine ⟨_, rfl, ?_, ?_, ?_, ?_, ?_, hlookup, nodup_snoc hnodup hnew⟩
  · refine segment_append.mpr ⟨hsegment, ?_, trivial⟩
    rw [hsame index hindex, hnode, Option.or_none]
    rfl
  · rw [firstSlot_append, ← hfirst, isNone_lastSlot, ← hfirst]
    cases ids.first <;> rfl
  · rw [lastSlot_append]
    rfl
  · refine hchained.congr fun slot hslot => hsame slot fun hmem => ?_
    exact hdisjoint hmem (mem_cons_of_mem index hslot)
  · rw [map_append, append_assoc, hlength]
    exact hpartition

theorem lookup_insert_iff
    (h : ∀ other slot, nodeById.lookup other = some slot ↔ (slot, other) ∈ entries)
    (hnew : entityId ∉ entries.map Prod.snd) (index : ℕ) (other : Int) (slot : ℕ) :
    (nodeById.insert entityId index).lookup other = some slot ↔
      (slot, other) ∈ entries ++ [(index, entityId)] := by
  rw [HashMap.lookup_insert_ite, mem_append, mem_singleton, Prod.mk.injEq]
  split_ifs with hother
  · subst hother
    have hnot : (slot, other) ∉ entries := fun hmem => hnew (mem_map_of_mem hmem)
    rw [Option.some.injEq, eq_comm]
    exact ⟨fun heq => .inr ⟨heq, rfl⟩, fun hmem => hmem.elim (absurd · hnot) And.left⟩
  · rw [h]
    exact ⟨.inl, fun hmem => hmem.elim id fun heq => absurd heq.2 hother⟩

/-- The slot is no longer among the free ones. -/
theorem exists_takeSlot (h : ids.Represents entries frees) (entityId : Int) :
    ∃ taken index rest, ids.takeSlot entityId = some (taken, index) ∧
      index < taken.nodes.length ∧ Segment taken.nodes none entries none ∧
      Chain taken.nodes taken.free rest ∧ taken.nodeById = ids.nodeById ∧ taken.first = ids.first ∧
      (entries.map Prod.fst ++ index :: rest).Perm (range taken.nodes.length) := by
  have hchained := h.chained
  unfold takeSlot
  cases frees with
  | nil =>
    rw [show ids.free = none from hchained]
    have hsame : ∀ slot < ids.nodes.length,
        (ids.nodes ++ [(⟨entityId, none, none⟩ : OrderedEntityIdNode)])[slot]? =
          ids.nodes[slot]? :=
      fun slot hslot => getElem?_append_left hslot
    refine ⟨_, _, [], rfl, by simp, h.linked.congr fun slot hslot => ?_, rfl, rfl, rfl, ?_⟩
    · exact hsame slot (h.linked.lt_length hslot)
    · have hpartition := h.partition
      rw [append_nil] at hpartition
      rw [length_append, length_singleton, range_succ]
      exact hpartition.append_right _
  | cons free rest =>
    obtain ⟨hfree, node, hnode, hrest⟩ := hchained
    rw [hfree]
    refine ⟨{ ids with free := node.next }, free, rest, ?_, ?_, h.linked, hrest, rfl, rfl,
      h.partition⟩
    · dsimp only
      rw [hnode]
      rfl
    · exact (List.getElem?_eq_some_iff.mp hnode).1

theorem exists_insert (h : ids.Represents entries frees) (entityId : Int) :
    ∃ inserted entries' frees', ids.insert entityId =
        some (inserted, decide (entityId ∉ entries.map Prod.snd)) ∧
      inserted.Represents entries' frees' ∧
      entries'.map Prod.snd =
        if entityId ∈ entries.map Prod.snd then entries.map Prod.snd
        else entries.map Prod.snd ++ [entityId] := by
  unfold insert
  by_cases hmem : entityId ∈ entries.map Prod.snd
  · rw [if_pos ((h.lookup_isSome entityId).mpr hmem), decide_eq_false (not_not.mpr hmem)]
    exact ⟨ids, entries, frees, rfl, h, (if_pos hmem).symm⟩
  · obtain ⟨taken, index, rest, htake, hlt, hlinked, hchained, hmap, hfirst, hpartition⟩ :=
      exists_takeSlot h entityId
    have hslots := hpartition.nodup_iff.mpr nodup_range
    have hindex : index ∉ entries.map Prod.fst := fun hslot =>
      disjoint_of_nodup_append hslots hslot mem_cons_self
    have hrest : index ∉ rest := (nodup_cons.mp hslots.of_append_right).1
    have hupdate : update taken.nodes index (fun _ => ⟨entityId, lastSlot entries, none⟩) =
        some (taken.nodes.set index ⟨entityId, lastSlot entries, none⟩) := by
      rw [update, getElem?_eq_getElem hlt]
      rfl
    have hlink : ∃ linked, setNext ⟨taken.nodes.set index ⟨entityId, lastSlot entries, none⟩,
          taken.nodeById.insert entityId index, taken.first, taken.last, taken.free⟩
            (lastSlot entries) (some index) = some linked ∧
        Represents { linked with last := some index } (entries ++ [(index, entityId)]) rest := by
      refine exists_linkLast (hlinked.set _ hindex) (getElem?_set_self hlt)
        (hfirst.trans h.first_eq) (hchained.congr fun slot hslot => ?_) ?_ ?_ h.nodup hmem
      · exact getElem?_set_ne (ne_of_mem_of_not_mem hslot hrest).symm
      · rwa [length_set]
      · rw [hmap]
        exact lookup_insert_iff h.lookup_iff hmem index
    obtain ⟨linked, hset, hlinked⟩ := hlink
    refine ⟨{ linked with last := some index }, _, rest, ?_, hlinked, ?_⟩
    · have habsent : ids.nodeById.lookup entityId = none := by
        simpa using mt (h.lookup_isSome entityId).mp hmem
      have hreplaced : (guard ((taken.nodeById.lookup entityId).isNone = true) : Option Unit) =
          some () := by
        rw [hmap, habsent]
        rfl
      rw [if_neg (by simp [habsent]), htake, decide_eq_true hmem]
      simp only [Option.bind_eq_bind, Option.bind_some, h.last_eq, hreplaced, hupdate, hset]
      rfl
    · rw [if_neg hmem, map_append]
      rfl

/-! ### Iteration -/

theorem collect_eq (hlinked : Segment nodes before entries none) (hturns : entries.length < turns) :
    Iter.collect turns ⟨nodes, firstSlot entries, entries.length⟩ =
      some (entries.map Prod.snd) := by
  obtain ⟨turns, rfl⟩ := Nat.exists_eq_succ_of_ne_zero (Nat.ne_zero_of_lt hturns)
  induction entries generalizing before turns with
  | nil => rfl
  | cons entry rest ih =>
    obtain ⟨slot, entityId⟩ := entry
    obtain ⟨hnode, hrest⟩ := hlinked
    rw [length_cons, Nat.succ_lt_succ_iff] at hturns
    obtain ⟨turns, rfl⟩ := Nat.exists_eq_succ_of_ne_zero (Nat.ne_zero_of_lt hturns)
    have hadvance : Iter.advance ⟨nodes, firstSlot ((slot, entityId) :: rest), rest.length + 1⟩ =
        some (some (entityId, ⟨nodes, firstSlot rest, rest.length⟩)) := by
      change (nodes[slot]?).bind _ = _
      rw [hnode, Option.bind_some, Option.or_none]
      rfl
    rw [length_cons, Iter.collect, hadvance]
    change (Iter.collect turns.succ _).bind _ = _
    rw [ih hrest turns hturns]
    rfl

theorem collect_iter (h : ids.Represents entries frees) :
    Iter.collect (ids.nodes.length + 1) ids.iter = some (entries.map Prod.snd) := by
  rw [iter, h.first_eq, h.len_eq]
  exact collect_eq h.linked (Nat.lt_succ_of_le h.length_le)

/-! ### Compaction -/

/-- The list of consecutive slots that the loop has written. -/
structure Compacted (nodes : List OrderedEntityIdNode) (nodeById : HashMap Int ℕ)
    (entries : List (ℕ × Int)) : Prop where
  represents : Represents ⟨nodes, nodeById, firstSlot entries, lastSlot entries, none⟩ entries []
  slots_eq : entries.map Prod.fst = range nodes.length

theorem Compacted.lastSlot_eq (h : Compacted nodes nodeById entries) :
    lastSlot entries = if nodes.length = 0 then none else some (nodes.length - 1) := by
  rw [lastSlot, ← getLast?_map, h.slots_eq, getLast?_range]

theorem Compacted.firstSlot_eq (h : Compacted nodes nodeById entries) :
    firstSlot entries = if nodes.isEmpty then none else some 0 := by
  rw [firstSlot, ← head?_map, h.slots_eq]
  cases nodes with
  | nil => rfl
  | cons node nodes =>
    rw [length_cons, range_succ_eq_map]
    rfl

/-- One turn of the loop. -/
theorem Compacted.exists_push (h : Compacted nodes nodeById entries)
    (hnew : entityId ∉ entries.map Prod.snd) :
    ∃ relinked, linkNext nodes (lastSlot entries) (some nodes.length) = some relinked ∧
      Compacted (relinked ++ [⟨entityId, lastSlot entries, none⟩])
        (nodeById.insert entityId nodes.length) (entries ++ [(nodes.length, entityId)]) := by
  have hslots : (entries.map Prod.fst).Nodup := h.slots_eq ▸ nodup_range
  obtain ⟨relinked, hlink, hlinked, hlength, -⟩ :=
    exists_linkNext h.represents.linked hslots (some nodes.length)
  have hnew' : (relinked ++ [(⟨entityId, lastSlot entries, none⟩ : OrderedEntityIdNode)])[
      nodes.length]? = some ⟨entityId, lastSlot entries, none⟩ := by
    rw [← hlength, getElem?_concat_length]
  have hall : (entries ++ [(nodes.length, entityId)]).map Prod.fst = range (nodes.length + 1) := by
    rw [map_append, h.slots_eq, range_succ]
    rfl
  refine ⟨relinked, hlink, ⟨?_, rfl, rfl, rfl, ?_, ?_, ?_⟩, ?_⟩
  · refine segment_append.mpr ⟨hlinked.congr fun slot hslot => ?_, ?_, trivial⟩
    · exact getElem?_append_left (hlinked.lt_length hslot)
    · rw [Option.or_none]
      exact hnew'
  · rw [append_nil, hall, length_append, hlength]
    exact Perm.refl _
  · exact lookup_insert_iff h.represents.lookup_iff hnew nodes.length
  · exact nodup_snoc h.represents.nodup hnew
  · rw [hall, length_append, hlength]
    rfl

/-- The loop writes the rest of the list. -/
theorem exists_compactLoop {compacted : List OrderedEntityIdNode} {rest : List (ℕ × Int)}
    (hlinked : Segment nodes before rest none) (hturns : rest.length ≤ turns)
    (h : Compacted compacted nodeById entries)
    (hnodup : (entries.map Prod.snd ++ rest.map Prod.snd).Nodup) : ∃ written writtenById all,
      compactLoop nodes turns (firstSlot rest) compacted nodeById = some (written, writtenById) ∧
      Compacted written writtenById all ∧
      all.map Prod.snd = entries.map Prod.snd ++ rest.map Prod.snd := by
  induction rest generalizing before turns compacted nodeById entries with
  | nil =>
    refine ⟨compacted, nodeById, entries, ?_, h, (append_nil _).symm⟩
    cases turns <;> rfl
  | cons entry rest ih =>
    obtain ⟨slot, entityId⟩ := entry
    obtain ⟨hnode, hrest⟩ := hlinked
    obtain ⟨turns, rfl⟩ := Nat.exists_eq_succ_of_ne_zero (Nat.ne_zero_of_lt hturns)
    have hnew : entityId ∉ entries.map Prod.snd := fun hmem =>
      disjoint_of_nodup_append hnodup hmem mem_cons_self
    obtain ⟨relinked, hlink, hpushed⟩ := h.exists_push hnew
    rw [map_cons, append_cons, ← map_singleton (f := Prod.snd) (a := (compacted.length, entityId)),
      ← map_append] at hnodup
    obtain ⟨written, writtenById, all, hloop, hwritten, hall⟩ :=
      ih hrest (Nat.le_of_succ_le_succ hturns) hpushed hnodup
    refine ⟨written, writtenById, all, ?_, hwritten, ?_⟩
    · rw [h.lastSlot_eq] at hlink hloop
      rw [← hloop]
      change (nodes[slot]?).bind _ = _
      rw [hnode, Option.bind_some, Option.or_none]
      dsimp only
      rw [hlink]
      rfl
    · rw [hall, map_append, append_assoc]
      rfl

theorem exists_compactIfSparse (h : ids.Represents entries frees) :
    ∃ compacted entries' frees', ids.compactIfSparse = some compacted ∧
      compacted.Represents entries' frees' ∧ entries'.map Prod.snd = entries.map Prod.snd := by
  unfold compactIfSparse
  split_ifs with hsparse
  · exact ⟨ids, entries, frees, rfl, h, rfl⟩
  · have hempty : Compacted [] ∅ [] := by
      refine ⟨⟨trivial, rfl, rfl, rfl, Perm.refl _, fun entityId slot => ?_, nodup_nil⟩, rfl⟩
      simp
    obtain ⟨written, writtenById, all, hloop, hwritten, hall⟩ :=
      exists_compactLoop h.linked h.length_le hempty h.nodup
    have hlength : written.length = ids.len := by
      have hslots := congrArg length hwritten.slots_eq
      have hids := congrArg length hall
      rw [length_map, length_range] at hslots
      rw [length_map, map_nil, nil_append, length_map] at hids
      rw [h.len_eq, ← hids, hslots]
    refine ⟨_, all, [], ?_, hwritten.represents, hall⟩
    rw [h.first_eq, hloop, hwritten.firstSlot_eq, hwritten.lastSlot_eq]
    simp only [Option.bind_eq_bind, Option.bind_some, hlength, guard_true]
    rfl

/-! ### Removal -/

theorem lookup_erase_iff
    (h : ∀ other slot, nodeById.lookup other = some slot ↔
      (slot, other) ∈ front ++ (index, entityId) :: back)
    (hnodup : ((front ++ (index, entityId) :: back).map Prod.snd).Nodup) (other : Int) (slot : ℕ) :
    (nodeById.erase entityId).lookup other = some slot ↔ (slot, other) ∈ front ++ back := by
  have hnot : entityId ∉ (front ++ back).map Prod.snd := by
    rw [map_append, map_cons, nodup_middle, nodup_cons, ← map_append] at hnodup
    exact hnodup.1
  rw [HashMap.lookup_erase_ite]
  split_ifs with hother
  · subst hother
    have hnot : (slot, other) ∉ front ++ back := fun hmem => hnot (mem_map_of_mem hmem)
    exact iff_of_false (fun hnone => by cases hnone) hnot
  · rw [h, mem_append, mem_append, mem_cons, Prod.mk.injEq]
    refine or_congr_right ⟨fun hmem => hmem.elim (fun heq => absurd heq.2 hother) id, .inr⟩

/-- The slot is cut out of the list and becomes the first free one. -/
theorem exists_unlink (h : ids.Represents (front ++ (index, entityId) :: back) frees) :
    ∃ nodes₁ nodes₂, ids.nodes[index]? = some ⟨entityId, lastSlot front, firstSlot back⟩ ∧
      linkNext ids.nodes (lastSlot front) (firstSlot back) = some nodes₁ ∧
      linkPrevious nodes₁ (firstSlot back) (lastSlot front) = some nodes₂ ∧
      index < nodes₂.length ∧
      Represents ⟨nodes₂.set index ⟨entityId, none, ids.free⟩, ids.nodeById.erase entityId,
        if (lastSlot front).isNone then firstSlot back else ids.first,
        if (firstSlot back).isNone then lastSlot front else ids.last, some index⟩
        (front ++ back) (index :: frees) := by
  obtain ⟨hfront, hnode, hback⟩ := segment_append.mp h.linked
  rw [Option.or_none, Option.or_none] at hnode
  have hlt : index < ids.nodes.length := (List.getElem?_eq_some_iff.mp hnode).1
  have hperm : ((front ++ (index, entityId) :: back).map Prod.fst ++ frees).Perm
      (index :: (front.map Prod.fst ++ (back.map Prod.fst ++ frees))) := by
    rw [map_append, map_cons, append_assoc]
    exact perm_middle
  obtain ⟨hindex, hslots⟩ := nodup_cons.mp (hperm.nodup_iff.mp h.slots_nodup)
  simp only [mem_append, not_or] at hindex
  obtain ⟨hindexFront, hindexBack, hindexFrees⟩ := hindex
  have hfrontApart := disjoint_of_nodup_append hslots
  have hbackApart := disjoint_of_nodup_append hslots.of_append_right
  -- first the link from the left, then the one from the right
  obtain ⟨nodes₁, hlink, hfront₁, hlength₁, hsame₁⟩ :=
    exists_linkNext hfront hslots.of_append_left (firstSlot back)
  have hback₁ : Segment nodes₁ (some index) back none :=
    hback.congr fun slot hslot => hsame₁ slot fun hmem =>
      hfrontApart hmem (mem_append_left _ hslot)
  obtain ⟨nodes₂, hlinkBack, hback₂, hlength₂, hsame₂⟩ :=
    exists_linkPrevious hback₁ hslots.of_append_right.of_append_left (lastSlot front)
  have hfront₂ : Segment nodes₂ none front (firstSlot back) :=
    hfront₁.congr fun slot hslot => hsame₂ slot fun hmem =>
      hfrontApart hslot (mem_append_left _ hmem)
  have hlt₂ : index < nodes₂.length := by omega
  refine ⟨nodes₁, nodes₂, hnode, hlink, hlinkBack, hlt₂, ?_, ?_, ?_, ?_, ?_, ?_, ?_⟩
  · refine segment_append.mpr ⟨?_, ?_⟩
    · rw [Option.or_none]
      exact hfront₂.set _ hindexFront
    · rw [Option.or_none]
      exact hback₂.set _ hindexBack
  · rw [isNone_lastSlot, firstSlot_append, h.first_eq, firstSlot_append]
    cases firstSlot front <;> rfl
  · rw [← isNone_lastSlot, lastSlot_append, h.last_eq, lastSlot_append, lastSlot_cons]
    cases lastSlot back <;> rfl
  · refine ⟨rfl, _, getElem?_set_self hlt₂, h.chained.congr fun slot hslot => ?_⟩
    rw [getElem?_set_ne (ne_of_mem_of_not_mem hslot hindexFrees).symm,
      hsame₂ slot fun hmem => hbackApart hmem hslot,
      hsame₁ slot fun hmem => hfrontApart hmem (mem_append_right _ hslot)]
  · rw [length_set, hlength₂, hlength₁, map_append]
    refine (perm_middle.trans ?_).trans h.partition
    rw [append_assoc]
    exact hperm.symm
  · exact lookup_erase_iff h.lookup_iff h.nodup
  · have hnodup := h.nodup
    rw [map_append, map_cons, nodup_middle, nodup_cons, ← map_append] at hnodup
    exact hnodup.2

theorem exists_remove (h : ids.Represents entries frees) (entityId : Int) :
    ∃ removed entries' frees', ids.remove entityId =
        some (removed, decide (entityId ∈ entries.map Prod.snd)) ∧
      removed.Represents entries' frees' ∧
      entries'.map Prod.snd = (entries.map Prod.snd).erase entityId := by
  unfold remove
  cases hlookup : ids.nodeById.lookup entityId with
  | none =>
    have hmem : entityId ∉ entries.map Prod.snd := by
      rw [← h.lookup_isSome, hlookup]
      exact Bool.false_ne_true
    rw [decide_eq_false hmem]
    exact ⟨ids, entries, frees, rfl, h, (erase_of_not_mem hmem).symm⟩
  | some index =>
    have hentry := (h.lookup_iff entityId index).mp hlookup
    have hmem : entityId ∈ entries.map Prod.snd := mem_map_of_mem hentry
    obtain ⟨front, back, rfl⟩ := append_of_mem hentry
    obtain ⟨nodes₁, nodes₂, hnode, hlink, hlinkBack, hlt, hunlinked⟩ := exists_unlink h
    have hupdate : update nodes₂ index (fun _ => ⟨entityId, none, ids.free⟩) =
        some (nodes₂.set index ⟨entityId, none, ids.free⟩) := by
      rw [update, getElem?_eq_getElem hlt]
      rfl
    obtain ⟨compacted, entries', frees', hcompact, hrepresents, hcontents⟩ :=
      exists_compactIfSparse hunlinked
    refine ⟨compacted, entries', frees', ?_, hrepresents, ?_⟩
    · rw [decide_eq_true hmem]
      simp only [setNext, setPrevious, hnode, hlink, hlinkBack, hupdate, hcompact,
        Option.bind_eq_bind, Option.bind_some, Option.pure_def]
    · have hnot : entityId ∉ front.map Prod.snd := by
        have hnodup := h.nodup
        rw [map_append] at hnodup
        exact fun hfront => disjoint_of_nodup_append hnodup hfront mem_cons_self
      rw [hcontents, map_append, map_append, erase_append_right _ hnot, map_cons,
        erase_cons_head]

/-! ### Whole runs -/

/-- Every request is served as by a list in the order of insertion. -/
theorem exists_serve (h : ids.Represents entries frees) (request : Request) :
    ∃ served entries' frees',
      ids.serve request =
        some (served, (InsertionOrdered.serve (entries.map Prod.snd) request).2) ∧
      served.Represents entries' frees' ∧
      entries'.map Prod.snd = (InsertionOrdered.serve (entries.map Prod.snd) request).1 := by
  cases request with
  | insert entityId =>
    obtain ⟨inserted, entries', frees', hinsert, hrepresents, hcontents⟩ :=
      exists_insert h entityId
    refine ⟨inserted, entries', frees', ?_, hrepresents, ?_⟩
    · rw [serve, hinsert, InsertionOrdered.serve]
      split_ifs with hmem <;> simp [hmem]
    · rw [hcontents, InsertionOrdered.serve]
      split_ifs <;> rfl
  | remove entityId =>
    obtain ⟨removed, entries', frees', hremove, hrepresents, hcontents⟩ :=
      exists_remove h entityId
    refine ⟨removed, entries', frees', ?_, hrepresents, ?_⟩
    · rw [serve, hremove, InsertionOrdered.serve]
      split_ifs with hmem <;> simp [hmem]
    · rw [hcontents, InsertionOrdered.serve]
      split_ifs with hmem
      · rfl
      · exact erase_of_not_mem hmem
  | iterate =>
    refine ⟨ids, entries, frees, ?_, h, rfl⟩
    rw [serve, collect_iter h]
    rfl
  | compact =>
    obtain ⟨compacted, entries', frees', hcompact, hrepresents, hcontents⟩ :=
      exists_compactIfSparse h
    refine ⟨compacted, entries', frees', ?_, hrepresents, hcontents⟩
    rw [serve, hcompact]
    rfl

theorem exists_serveAll (h : ids.Represents entries frees) (requests : List Request) :
    ∃ served entries' frees',
      ids.serveAll requests =
        some (served, (InsertionOrdered.serveAll (entries.map Prod.snd) requests).2) ∧
      served.Represents entries' frees' ∧
      entries'.map Prod.snd = (InsertionOrdered.serveAll (entries.map Prod.snd) requests).1 := by
  induction requests generalizing ids entries frees with
  | nil => exact ⟨ids, entries, frees, rfl, h, rfl⟩
  | cons request requests ih =>
    obtain ⟨served, entries₁, frees₁, hserve, hserved, hcontents⟩ := exists_serve h request
    obtain ⟨last, entries₂, frees₂, hserveAll, hlast, hcontents₂⟩ := ih hserved
    rw [hcontents] at hserveAll hcontents₂
    refine ⟨last, entries₂, frees₂, ?_, hlast, hcontents₂⟩
    rw [serveAll, hserve]
    simp only [Option.bind_eq_bind, Option.bind_some, hserveAll]
    rfl

/--
Whatever the requests, the replies are those of the set in the order of insertion, and in the end
the linked slots hold its contents and make up the vector together with the free ones.
-/
theorem serveAll_refines (requests : List Request) :
    ∃ ids entries frees,
      serveAll {} requests = some (ids, (InsertionOrdered.serveAll [] requests).2) ∧
      ids.Represents entries frees ∧
      entries.map Prod.snd = (InsertionOrdered.serveAll [] requests).1 := by
  have hempty : Represents {} [] [] :=
    ⟨trivial, rfl, rfl, rfl, Perm.refl _, fun entityId slot => by simp, nodup_nil⟩
  exact exists_serveAll hempty requests

end IndexedOrderedEntityIds

end Steel

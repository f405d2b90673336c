import Steel.Proof.TicketSlots

/-!
# Saving and loading tickets

A saved ticket is restored through the registry to what it was. The tickets of a storage differ in
position, type or level, so loading them never meets one that is there already, and none is
refreshed.
-/

namespace Steel.ChunkTicketStorage

open List Function

variable {storage after : ChunkTicketStorage} {pos : ChunkPos} {ticket : ChunkTicket}
  {registry : TicketTypeRegistry} {saved : List PersistentChunkTicket}

/-! ### Loading -/

def restore (registry : TicketTypeRegistry) (persistent : PersistentChunkTicket) :
    Option (ChunkPos × ChunkTicket) := do
  let ticketType ← registry.byKey persistent.ticketType
  let ticketLevel ← ChunkTicketLevel.new persistent.level
  return (⟨persistent.chunkX, persistent.chunkZ⟩, ⟨ticketType, ticketLevel, persistent.ticksLeft⟩)

def load (storage : ChunkTicketStorage) (entries : List (ChunkPos × ChunkTicket)) :
    Option ChunkTicketStorage :=
  entries.foldlM (fun storage entry => storage.addLoadedTicket entry.1 entry.2) storage

theorem addLoadedPersistentTicket_cases (storage : ChunkTicketStorage)
    (persistent : PersistentChunkTicket) :
    (restore registry persistent = none ∧
      ∃ error, storage.addLoadedPersistentTicket registry persistent = some (.error error)) ∨
    ∃ entry, restore registry persistent = some entry ∧
      storage.addLoadedPersistentTicket registry persistent =
        (storage.addLoadedTicket entry.1 entry.2).map .ok := by
  unfold addLoadedPersistentTicket restore
  cases registry.byKey persistent.ticketType with
  | none => exact Or.inl ⟨rfl, _, rfl⟩
  | some ticketType =>
    cases ChunkTicketLevel.new persistent.level with
    | none => exact Or.inl ⟨rfl, _, rfl⟩
    | some ticketLevel => exact Or.inr ⟨_, rfl, rfl⟩

/-- Loading skips what cannot be restored. -/
theorem fromPersistent_eq (registry : TicketTypeRegistry) (saved : List PersistentChunkTicket) :
    fromPersistent registry saved = new.load (saved.filterMap (restore registry)) := by
  unfold fromPersistent
  generalize new = storage
  induction saved generalizing storage with
  | nil => rfl
  | cons first rest ih =>
    rw [foldlM_cons]
    obtain ⟨hnone, error, herror⟩ | ⟨entry, hentry, hadd⟩ :=
      @addLoadedPersistentTicket_cases registry storage first
    · rw [filterMap_cons_none hnone, ← ih, herror]
      rfl
    · rw [filterMap_cons_some hentry, hadd, load, foldlM_cons]
      cases storage.addLoadedTicket entry.1 entry.2 with
      | none => rfl
      | some after => exact ih after

/-- A ticket unlike those at its position is appended to them. -/
theorem addLoadedTicket_eq
    (hfresh : ∀ stored ∈ storage.ticketsAt pos, stored.ticket.key ≠ ticket.key)
    (hgeneration : storage.timedGeneration < u64Max) :
    ∃ after generation, storage.addLoadedTicket pos ticket = some after ∧
      after.ticketsAt = update storage.ticketsAt pos
        (storage.ticketsAt pos ++ [⟨ticket, generation⟩]) ∧
      after.timedGeneration ≤ storage.timedGeneration + 1 := by
  have hnone :
      (storage.ticketsAt pos).findIdx? (fun stored => stored.ticket.same ticket) = none := by
    rw [findIdx?_eq_none_iff]
    intro stored hstored
    rw [← Bool.not_eq_true, ChunkTicket.same_iff]
    exact hfresh stored hstored
  obtain ⟨generation, allocated, hallocated⟩ : ∃ generation allocated,
      storage.generationFor ticket.ticketType = some (generation, allocated) := by
    unfold generationFor allocateTimedGeneration
    rw [if_neg hgeneration.ne]
    split
    · exact ⟨_, _, rfl⟩
    · exact ⟨_, _, rfl⟩
  obtain ⟨hnext, htickets, hcounter⟩ := generationFor_eq hallocated
  have hlist : (allocated.tickets.lookup pos).getD [] = storage.ticketsAt pos := by
    rw [htickets, ticketsAt]
  refine ⟨{ allocated with
    tickets := allocated.tickets.insert pos (storage.ticketsAt pos ++ [⟨ticket, generation⟩]) },
    generation, ?_, ?_, ?_⟩
  · simp only [addLoadedTicket, hallocated, Option.bind_eq_bind, Option.bind_some, hlist, hnone,
      Option.pure_def]
  · rw [ticketsAt_insert]
    congr 1
    funext p
    rw [ticketsAt, ticketsAt, htickets]
  · dsimp only
    rw [hcounter, hnext, nextGeneration]
    split
    · exact le_rfl
    · exact Nat.le_succ _

/-- Loading entries that differ in position or key stores them all, in order. -/
theorem exists_load {entries : List (ChunkPos × ChunkTicket)}
    (hdistinct : (entries.map fun entry => (entry.1, entry.2.key)).Nodup)
    (hfresh : ∀ entry ∈ entries, ∀ stored ∈ storage.ticketsAt entry.1,
      stored.ticket.key ≠ entry.2.key)
    (hroom : storage.timedGeneration + entries.length ≤ u64Max) :
    ∃ after, storage.load entries = some after ∧ ∀ pos,
      (after.ticketsAt pos).map StoredChunkTicket.ticket =
        (storage.ticketsAt pos).map StoredChunkTicket.ticket ++
          (entries.filter fun entry => entry.1 = pos).map Prod.snd := by
  induction entries generalizing storage with
  | nil => exact ⟨storage, rfl, by simp⟩
  | cons first rest ih =>
    obtain ⟨hfirst, hrest⟩ := nodup_cons.mp hdistinct
    rw [length_cons] at hroom
    obtain ⟨middle, generation, hmiddle, htickets, hcounter⟩ :=
      addLoadedTicket_eq (hfresh first mem_cons_self) (by omega)
    have hfresh' : ∀ entry ∈ rest, ∀ stored ∈ middle.ticketsAt entry.1,
        stored.ticket.key ≠ entry.2.key := by
      intro entry hentry stored hstored
      have hold := hfresh entry (mem_cons_of_mem _ hentry)
      rw [htickets] at hstored
      by_cases heq : entry.1 = first.1
      · rw [heq, update_self, mem_append, mem_singleton] at hstored
        obtain hstored | rfl := hstored
        · exact hold stored (heq ▸ hstored)
        · -- The ticket just loaded is not among the rest.
          exact fun hkey => hfirst (mem_map.mpr ⟨entry, hentry, Prod.ext heq hkey.symm⟩)
      · rw [update_of_ne heq] at hstored
        exact hold stored hstored
    obtain ⟨after, hafter, hat⟩ := ih hrest hfresh' (by omega)
    refine ⟨after, ?_, ?_⟩
    · rw [load, foldlM_cons, hmiddle]
      exact hafter
    · intro pos
      rw [hat, htickets]
      by_cases heq : first.1 = pos
      · subst heq
        simp
      · rw [update_of_ne (Ne.symm heq), filter_cons_of_neg (by simpa using heq)]

theorem addLoadedTicket_eq_addTicket (storage : ChunkTicketStorage) (pos : ChunkPos)
    (ticket : ChunkTicket) :
    storage.addLoadedTicket pos ticket = (storage.addTicket pos ticket).map Prod.fst := by
  unfold addLoadedTicket addTicket
  cases storage.generationFor ticket.ticketType with
  | none => rfl
  | some allocated =>
    dsimp only [Option.bind_eq_bind, Option.bind_some]
    split <;> rfl

theorem Canonical.load (h : storage.Canonical) {entries : List (ChunkPos × ChunkTicket)}
    (hload : storage.load entries = some after) : after.Canonical := by
  induction entries generalizing storage with
  | nil =>
    cases hload
    exact h
  | cons first rest ih =>
    rw [ChunkTicketStorage.load, foldlM_cons, addLoadedTicket_eq_addTicket] at hload
    obtain ⟨middle, hmiddle, hload⟩ := Option.bind_eq_some_iff.mp hload
    obtain ⟨⟨middle', changes⟩, hadd, rfl⟩ := Option.map_eq_some_iff.mp hmiddle
    exact ih (addTicket_stored h hadd).1.1 hload

inductive Made (registry : TicketTypeRegistry) : ChunkTicketStorage → Prop
  | new : Made registry new
  | fromPersistent {storage : ChunkTicketStorage} (saved : List PersistentChunkTicket)
      (hload : fromPersistent registry saved = some storage) : Made registry storage
  | addTicket {storage after : ChunkTicketStorage} (hmade : Made registry storage)
      {pos : ChunkPos} {ticket : ChunkTicket} {changes : SourceProjectionChanges}
      (hadd : storage.addTicket pos ticket = some (after, changes)) : Made registry after
  | removeTicket {storage : ChunkTicketStorage} (hmade : Made registry storage) (pos : ChunkPos)
      (ticket : ChunkTicket) : Made registry (storage.removeTicket pos ticket).1
  | tickTimedTickets {storage : ChunkTicketStorage} (hmade : Made registry storage)
      (expirations : List TimedTicketExpiration) :
      Made registry (storage.tickTimedTickets expirations).1

theorem Made.canonical (h : Made registry storage) : storage.Canonical := by
  induction h with
  | new => exact canonical_new
  | fromPersistent saved hload =>
    rw [fromPersistent_eq] at hload
    exact canonical_new.load hload
  | addTicket _ hadd ih => exact (addTicket_stored ih hadd).1.1
  | removeTicket _ pos ticket ih => exact (removeTicket_stored ih pos ticket).1.1
  | tickTimedTickets _ expirations ih => exact (tickTimedTickets_stored ih expirations).1

/-! ### Saving -/

def savedEntries (entry : ChunkPos × List StoredChunkTicket) : List (ChunkPos × ChunkTicket) :=
  (entry.2.filter fun stored => stored.ticket.ticketType.persist).map fun stored =>
    (entry.1, stored.ticket)

/-- The registry finds the types that are saved by their keys. -/
def Registered (registry : TicketTypeRegistry) (storage : ChunkTicketStorage) : Prop :=
  ∀ pos, ∀ stored ∈ storage.ticketsAt pos, stored.ticket.ticketType.persist →
    registry.byKey stored.ticket.ticketType.key = some stored.ticket.ticketType

theorem restore_toPersistent {stored : StoredChunkTicket}
    (h : stored.ticket.ticketType.persist → registry.byKey stored.ticket.ticketType.key =
      some stored.ticket.ticketType) :
    (stored.toPersistent pos).bind (restore registry) =
      if stored.ticket.ticketType.persist then some (pos, stored.ticket) else none := by
  unfold StoredChunkTicket.toPersistent
  dsimp only
  by_cases hpersist : stored.ticket.ticketType.persist
  · rw [if_pos hpersist, if_pos hpersist, Option.bind_some, restore, h hpersist,
      Option.bind_eq_bind, Option.bind_some,
      ChunkTicketLevel.new_of_le stored.ticket.ticketLevel.raw_le]
    rfl
  · rw [if_neg hpersist, if_neg hpersist, Option.bind_none]

theorem filterMap_restore (tickets : List StoredChunkTicket)
    (h : ∀ stored ∈ tickets, stored.ticket.ticketType.persist →
      registry.byKey stored.ticket.ticketType.key = some stored.ticket.ticketType) :
    (tickets.filterMap fun stored => stored.toPersistent pos).filterMap (restore registry) =
      savedEntries (pos, tickets) := by
  rw [filterMap_filterMap, savedEntries, ← filterMap_eq_map, ← filterMap_eq_filter,
    filterMap_filterMap]
  refine filterMap_congr fun stored hstored => ?_
  rw [restore_toPersistent (h stored hstored), Option.guard]
  split <;> rfl

variable {order : HashMap.IterationOrder ChunkPos (List StoredChunkTicket)}

theorem ticketsAt_of_mem {entry : ChunkPos × List StoredChunkTicket}
    (h : entry ∈ order.toList storage.tickets) : storage.ticketsAt entry.1 = entry.2 := by
  rw [ticketsAt, ((order.iterates storage.tickets).mem_iff entry.1 entry.2).mp h]
  rfl

/-- Up to the order, what is saved is what is restored. -/
theorem restore_perm (hregistered : Registered registry storage) :
    ((storage.toPersistent order).filterMap (restore registry)).Perm
      ((order.toList storage.tickets).flatMap savedEntries) := by
  refine ((mergeSort_perm _ persistentLe).filterMap _).trans ?_
  rw [filterMap_flatMap]
  refine Perm.of_eq (flatMap_congr fun entry hentry => filterMap_restore entry.2 ?_)
  rw [← ticketsAt_of_mem hentry]
  exact hregistered entry.1

/-- No two saved tickets agree in position, type and level. -/
theorem nodup_savedEntries (h : storage.Canonical) :
    (((order.toList storage.tickets).flatMap savedEntries).map fun entry =>
      (entry.1, entry.2.key)).Nodup := by
  rw [map_flatMap, nodup_flatMap]
  constructor
  · intro entry hentry
    have hkeys : (savedEntries entry).map (fun saved => (saved.1, saved.2.key)) =
        ((entry.2.filter fun stored => stored.ticket.ticketType.persist).map
          StoredChunkTicket.key).map fun key => (entry.1, key) := by
      rw [savedEntries, map_map, map_map]
      rfl
    rw [hkeys]
    refine Nodup.map (fun key key' heq => (Prod.mk.inj heq).2) ?_
    have hdistinct := h entry.1
    rw [ticketsAt_of_mem hentry] at hdistinct
    exact (filter_sublist.map _).nodup hdistinct
  · refine (pairwise_map.mp (order.iterates storage.tickets).nodup).imp ?_
    intro entry entry' hne key hkey hkey'
    simp only [savedEntries, map_map, mem_map, comp_apply] at hkey hkey'
    obtain ⟨stored, -, rfl⟩ := hkey
    obtain ⟨stored', -, heq⟩ := hkey'
    exact hne (Prod.mk.inj heq).1.symm

/-- Of a pass over the map, one entry is about a position. -/
theorem filter_flatMap_savedEntries {entries : List (ChunkPos × List StoredChunkTicket)}
    (hnodup : (entries.map Prod.fst).Nodup) {tickets : List StoredChunkTicket}
    (hentry : ∀ entry ∈ entries, entry.1 = pos → entry.2 = tickets)
    (habsent : pos ∉ entries.map Prod.fst → tickets = []) :
    ((entries.flatMap savedEntries).filter fun entry => entry.1 = pos).map Prod.snd =
      (tickets.map StoredChunkTicket.ticket).filter fun ticket => ticket.ticketType.persist := by
  have hself : ∀ entry : ChunkPos × List StoredChunkTicket,
      (savedEntries entry).filter (fun saved => saved.1 = pos) =
        if entry.1 = pos then savedEntries entry else [] := by
    intro entry
    have hsaved : ∀ saved ∈ savedEntries entry, saved.1 = entry.1 := by
      intro saved hmem
      obtain ⟨stored, -, rfl⟩ := mem_map.mp hmem
      rfl
    split
    case isTrue heq =>
      exact filter_eq_self.mpr fun saved hmem => by simpa using (hsaved saved hmem).trans heq
    case isFalse hne =>
      refine filter_eq_nil_iff.mpr fun saved hmem => ?_
      rw [hsaved saved hmem]
      simpa using hne
  induction entries with
  | nil => simp [habsent (by simp)]
  | cons first rest ih =>
    obtain ⟨hfirst, hrest⟩ := nodup_cons.mp hnodup
    rw [flatMap_cons, filter_append, hself, map_append]
    by_cases heq : first.1 = pos
    · have hnone : (rest.flatMap savedEntries).filter (fun saved => saved.1 = pos) = [] := by
        rw [filter_eq_nil_iff]
        intro saved hsaved
        obtain ⟨entry, hmem, hsaved⟩ := mem_flatMap.mp hsaved
        obtain ⟨stored, -, rfl⟩ := mem_map.mp hsaved
        have hne : entry.1 ≠ pos := fun hpos =>
          hfirst (mem_map.mpr ⟨entry, hmem, hpos.trans heq.symm⟩)
        simpa using hne
      rw [hnone, if_pos heq, ← hentry first mem_cons_self heq, savedEntries, map_nil, append_nil,
        map_map, filter_map]
      rfl
    · rw [if_neg heq]
      refine ih hrest (fun entry hmem => hentry entry (mem_cons_of_mem _ hmem)) fun hnotMem => ?_
      refine habsent ?_
      rw [map_cons, mem_cons]
      exact fun hpos => hpos.elim (fun hpos => heq hpos.symm) hnotMem

theorem savedAt_eq (order : HashMap.IterationOrder ChunkPos (List StoredChunkTicket))
    (storage : ChunkTicketStorage) (pos : ChunkPos) :
    ((((order.toList storage.tickets).flatMap savedEntries).filter fun entry =>
      entry.1 = pos).map Prod.snd) =
      ((storage.ticketsAt pos).map StoredChunkTicket.ticket).filter fun ticket =>
        ticket.ticketType.persist := by
  have hiterates := order.iterates storage.tickets
  refine filter_flatMap_savedEntries hiterates.nodup ?_ ?_
  · intro entry hentry heq
    rw [← heq]
    exact (ticketsAt_of_mem hentry).symm
  · intro habsent
    rw [ticketsAt]
    cases hlookup : storage.tickets.lookup pos with
    | none => rfl
    | some tickets =>
      exact absurd (mem_map.mpr ⟨(pos, tickets), (hiterates.mem_iff _ _).mpr hlookup, rfl⟩) habsent

theorem ticketsAt_persistentPart (storage : ChunkTicketStorage) (pos : ChunkPos) :
    storage.persistentPart.ticketsAt pos =
      (storage.ticketsAt pos).filter fun stored => stored.ticket.ticketType.persist := by
  rw [ticketsAt, persistentPart, HashMap.lookup_mapValues, ticketsAt]
  cases storage.tickets.lookup pos <;> rfl

/-- Source levels depend on the tickets alone. -/
theorem sourceLevels_eq {left right : ChunkTicketStorage}
    (h : ((left.ticketsAt pos).map StoredChunkTicket.ticket).Perm
      ((right.ticketsAt pos).map StoredChunkTicket.ticket)) :
    left.loadSourceLevel pos = right.loadSourceLevel pos ∧
      left.simulationSourceLevel pos = right.simulationSourceLevel pos := by
  have hlevels : ∀ level : ChunkTicket → Option ChunkTicketLevel,
      ((left.ticketsAt pos).filterMap fun stored => level stored.ticket).Perm
        ((right.ticketsAt pos).filterMap fun stored => level stored.ticket) := by
    intro level
    have hmapped := h.filterMap level
    rwa [filterMap_map, filterMap_map] at hmapped
  constructor
  · rw [loadSourceLevel_eq, loadSourceLevel_eq]
    exact Vec.min?_congr fun level => (hlevels ChunkTicket.loadingLevel).mem_iff
  · rw [simulationSourceLevel_eq, simulationSourceLevel_eq]
    exact Vec.min?_congr fun level => ((hlevels ChunkTicket.simulationLevel).filter _).mem_iff

/-- **Saving and loading keeps the persistent tickets**, with their levels and the ticks they have
left, and with them the sources. -/
theorem fromPersistent_toPersistent
    (order : HashMap.IterationOrder ChunkPos (List StoredChunkTicket)) (h : Made registry storage)
    (hregistered : Registered registry storage)
    (hroom : (storage.toPersistent order).length ≤ u64Max) :
    ∃ loaded, fromPersistent registry (storage.toPersistent order) = some loaded ∧ ∀ pos,
      ((loaded.ticketsAt pos).map StoredChunkTicket.ticket).Perm
        (((storage.ticketsAt pos).map StoredChunkTicket.ticket).filter fun ticket =>
          ticket.ticketType.persist) ∧
      loaded.loadSourceLevel pos = storage.persistentPart.loadSourceLevel pos ∧
      loaded.simulationSourceLevel pos = storage.persistentPart.simulationSourceLevel pos := by
  have hperm := @restore_perm storage registry order hregistered
  obtain ⟨loaded, hloaded, hat⟩ := @exists_load new _
    ((hperm.map fun entry => (entry.1, entry.2.key)).nodup_iff.mpr (nodup_savedEntries h.canonical))
    (by simp [ticketsAt, new])
    (by simpa [new] using (length_filterMap_le _ _).trans hroom)
  have htickets : ∀ pos, ((loaded.ticketsAt pos).map StoredChunkTicket.ticket).Perm
      (((storage.ticketsAt pos).map StoredChunkTicket.ticket).filter fun ticket =>
        ticket.ticketType.persist) := by
    intro pos
    rw [hat, ← savedAt_eq order]
    exact (hperm.filter _).map _
  refine ⟨loaded, (fromPersistent_eq registry _).trans hloaded, fun pos => ⟨htickets pos, ?_⟩⟩
  refine sourceLevels_eq ((htickets pos).trans (Perm.of_eq ?_))
  rw [ticketsAt_persistentPart, filter_map]
  rfl

/-- A portal ticket at the origin, and the ticket of a request, which is not saved. -/
def portalTickets : List StoredChunkTicket :=
  [⟨portalTicket, some 1⟩, ⟨.new .chunkRequest .maxLevel, none⟩]

def atOrigin (tickets : List StoredChunkTicket) : ChunkTicketStorage :=
  { tickets := (∅ : HashMap ChunkPos (List StoredChunkTicket)).insert ⟨0, 0⟩ tickets
    timedGeneration := 1 }

theorem made_onePortal : Made ⟨[.portal]⟩ (atOrigin portalTickets) := by
  have hportal : new.addTicket ⟨0, 0⟩ portalTicket =
      some (atOrigin [⟨portalTicket, some 1⟩], .forTicket ⟨0, 0⟩ portalTicket) := rfl
  have hrequest : (atOrigin [⟨portalTicket, some 1⟩]).addTicket ⟨0, 0⟩
      (.new .chunkRequest .maxLevel) =
        some (atOrigin portalTickets, .forTicket ⟨0, 0⟩ (.new .chunkRequest .maxLevel)) := rfl
  exact (Made.new.addTicket hportal).addTicket hrequest

theorem ticketsAt_onePortal (pos : ChunkPos) :
    (atOrigin portalTickets).ticketsAt pos = if pos = ⟨0, 0⟩ then portalTickets else [] := by
  rw [ticketsAt, atOrigin, HashMap.lookup_insert_ite]
  split <;> simp

theorem length_toPersistent_onePortal :
    ((atOrigin portalTickets).toPersistent order).length ≤ u64Max := by
  have hiterates := order.iterates (atOrigin portalTickets).tickets
  have hlist : order.toList (atOrigin portalTickets).tickets = [(⟨0, 0⟩, portalTickets)] := by
    rw [← perm_singleton, perm_ext_iff_of_nodup hiterates.nodup.of_map (nodup_singleton _)]
    rintro ⟨pos, tickets⟩
    rw [hiterates.mem_iff, atOrigin, HashMap.lookup_insert_ite, mem_singleton, Prod.mk.injEq]
    split
    case isTrue heq => simp [heq, eq_comm]
    case isFalse hne => simp [hne]
  rw [toPersistent, hlist, length_mergeSort]
  decide +kernel

theorem fromPersistent_toPersistent_onePortal :
    ∃ order loaded, fromPersistent ⟨[.portal]⟩ ((atOrigin portalTickets).toPersistent order) =
      some loaded ∧ ((atOrigin portalTickets).ticketsAt ⟨0, 0⟩).length = 2 ∧
      ((loaded.ticketsAt ⟨0, 0⟩).map StoredChunkTicket.ticket).Perm [portalTicket] := by
  obtain ⟨order⟩ :=
    (inferInstance : Nonempty (HashMap.IterationOrder ChunkPos (List StoredChunkTicket)))
  have hregistered : Registered ⟨[.portal]⟩ (atOrigin portalTickets) := by
    intro pos stored hstored hpersist
    rw [ticketsAt_onePortal] at hstored
    split at hstored
    · obtain rfl | hstored := mem_cons.mp hstored
      · decide +kernel
      · rw [mem_singleton.mp hstored] at hpersist
        exact absurd hpersist (by decide +kernel)
    · cases hstored
  obtain ⟨loaded, hloaded, hat⟩ := fromPersistent_toPersistent order made_onePortal hregistered
    length_toPersistent_onePortal
  refine ⟨order, loaded, hloaded, ?_, (hat ⟨0, 0⟩).1.trans (Perm.of_eq ?_)⟩
  · rw [ticketsAt_onePortal]
    rfl
  · rw [ticketsAt_onePortal]
    decide +kernel

end Steel.ChunkTicketStorage

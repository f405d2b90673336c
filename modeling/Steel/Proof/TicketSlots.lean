import Steel.Chunk.Scheduler
import Steel.Lib.KeyedList

/-!
# Ticket storage as a map

At each position there is at most one ticket of a type and level, so a storage is a map from
positions, types and levels to stored tickets. Every operation updates that map at one place.
-/

namespace Steel

open Option Function

namespace ChunkTicketStorage

variable (storage : ChunkTicketStorage)

def ticketsAt (pos : ChunkPos) : List StoredChunkTicket :=
  (storage.tickets.lookup pos).getD []

theorem loadSourceLevel_eq (pos : ChunkPos) : storage.loadSourceLevel pos =
      ((storage.ticketsAt pos).filterMap fun stored => stored.ticket.loadingLevel).min? := by
  unfold loadSourceLevel ticketsAt
  cases storage.tickets.lookup pos <;> rfl

theorem simulationSourceLevel_eq (pos : ChunkPos) : storage.simulationSourceLevel pos =
      (((storage.ticketsAt pos).filterMap fun stored => stored.ticket.simulationLevel).filter
        ChunkTicketLevel.isBlockTicking).min? := by
  unfold simulationSourceLevel ticketsAt
  cases storage.tickets.lookup pos <;> rfl

section TicketsAt

variable {storage storage' : ChunkTicketStorage} {pos : ChunkPos}

variable (tickets : List StoredChunkTicket)

theorem ticketsAt_insert :
    ({ storage with tickets := storage.tickets.insert pos tickets }).ticketsAt =
      update storage.ticketsAt pos tickets := by
  funext p
  rw [update_apply]
  split_ifs with hp
  · subst hp
    simp [ticketsAt]
  · simp [ticketsAt, Finmap.lookup_insert_of_ne _ hp]

theorem ticketsAt_takeAt (index : ℕ) :
    (storage.takeAt pos tickets index).ticketsAt =
      update storage.ticketsAt pos (Vec.swapRemove tickets index) := by
  rw [← ticketsAt_insert]
  funext p
  unfold takeAt ticketsAt
  dsimp only
  split_ifs with hempty
  · by_cases hp : p = pos
    · subst hp
      simp [List.isEmpty_iff.mp hempty]
    · rw [Finmap.lookup_erase_ne hp, Finmap.lookup_insert_of_ne _ hp]
  · rfl

end TicketsAt

end ChunkTicketStorage

abbrev TicketKey := ℕ × ChunkTicketLevel

def ChunkTicket.key (ticket : ChunkTicket) : TicketKey :=
  (ticket.ticketType.address, ticket.ticketLevel)

theorem ChunkTicket.same_iff {left right : ChunkTicket} :
    left.same right = true ↔ left.key = right.key := by
  simp [same, key]

def StoredChunkTicket.key (stored : StoredChunkTicket) : TicketKey := stored.ticket.key

namespace ChunkTicketStorage

def stored (storage : ChunkTicketStorage) (pos : ChunkPos) : TicketKey → Option StoredChunkTicket :=
  KeyedList.find StoredChunkTicket.key (storage.ticketsAt pos)

def Canonical (storage : ChunkTicketStorage) : Prop :=
  ∀ pos, KeyedList.Distinct StoredChunkTicket.key (storage.ticketsAt pos)

theorem canonical_new : new.Canonical := fun _ => List.nodup_nil

variable {storage : ChunkTicketStorage} {pos : ChunkPos} {found : StoredChunkTicket}

theorem mem_ticketsAt_iff (h : storage.Canonical) :
    found ∈ storage.ticketsAt pos ↔ storage.stored pos found.key = some found := by
  rw [stored, KeyedList.find_eq_some_iff (h pos)]
  exact ⟨fun hmem => ⟨hmem, rfl⟩, And.left⟩

variable {key : TicketKey}

theorem key_of_stored (h : storage.Canonical) (hfound : storage.stored pos key = some found) :
    found.key = key := ((KeyedList.find_eq_some_iff (h pos)).mp hfound).2

variable {storage' : ChunkTicketStorage}

theorem stored_of_ticketsAt {value : Option StoredChunkTicket} {after : List StoredChunkTicket}
    (h : storage.Canonical) (hafter : storage'.ticketsAt = update storage.ticketsAt pos after)
    (hpos : KeyedList.Distinct StoredChunkTicket.key after ∧
      KeyedList.find StoredChunkTicket.key after = update (storage.stored pos) key value) :
    storage'.Canonical ∧
      storage'.stored = update storage.stored pos (update (storage.stored pos) key value) := by
  constructor
  · intro p
    rw [hafter, update_apply]
    split_ifs
    · exact hpos.1
    · exact h p
  · funext p
    rw [stored, hafter, update_apply, update_apply]
    split_ifs
    · exact hpos.2
    · rfl

theorem stored_update_none
    (h : storage.stored pos key = none) :
    storage.stored =
      update storage.stored pos (update (storage.stored pos) key none) := by
  rw [← h, update_eq_self, update_eq_self]

variable {tickets : List StoredChunkTicket}

theorem find_of_findIdx? {p : StoredChunkTicket → Bool}
    {index : ℕ} (h : tickets.findIdx? p = some index) :
    ∃ found, tickets[index]? = some found ∧ p found = true := by
  obtain ⟨hlt, hp, -⟩ := List.findIdx?_eq_some_iff_getElem.mp h
  exact ⟨tickets.get ⟨index, hlt⟩, List.getElem?_eq_getElem hlt, hp⟩

variable {ticket : ChunkTicket}

theorem find_eq_none_of_findIdx?
    (h : tickets.findIdx? (fun stored => stored.ticket.same ticket) = none) :
    KeyedList.find StoredChunkTicket.key tickets ticket.key = none := by
  rw [KeyedList.find_eq_none_iff]
  intro stored hstored heq
  have hnot := List.findIdx?_eq_none_iff.mp h stored hstored
  rw [ChunkTicket.same_iff.mpr heq] at hnot
  cases hnot

/-- The generation a ticket of a type gets: the next one if the type has a timeout, else none. -/
def nextGeneration (storage : ChunkTicketStorage) (ticketType : TicketType) : Option ℕ :=
  if ticketType.hasTimeout then some (storage.timedGeneration + 1) else none

theorem generationFor_eq {ticketType : TicketType}
    {generation : Option ℕ} (h : storage.generationFor ticketType = some (generation, storage')) :
    generation = storage.nextGeneration ticketType ∧ storage'.tickets = storage.tickets ∧
      storage'.timedGeneration = generation.getD storage.timedGeneration := by
  unfold generationFor allocateTimedGeneration at h
  unfold nextGeneration
  split_ifs at h with htimeout hexhausted
  · simp at h
  · simp only [map_some, Option.some.injEq, Prod.mk.injEq] at h
    obtain ⟨rfl, rfl⟩ := h
    rw [if_pos htimeout]
    exact ⟨rfl, rfl, rfl⟩
  · simp only [Option.some.injEq, Prod.mk.injEq] at h
    obtain ⟨rfl, rfl⟩ := h
    rw [if_neg htimeout]
    exact ⟨rfl, rfl, rfl⟩

/-- What an added ticket is stored as: an existing one of its type and level is refreshed. -/
def added (storage : ChunkTicketStorage) (pos : ChunkPos) (ticket : ChunkTicket) :
    StoredChunkTicket :=
  match storage.stored pos ticket.key with
  | some stored => refresh (storage.nextGeneration ticket.ticketType) stored
  | none => ⟨ticket, storage.nextGeneration ticket.ticketType⟩

/-- A ticket of the same key is refreshed; without one, the ticket is appended. -/
theorem addTicket_ticketsAt {changes : SourceProjectionChanges}
    (hadd : storage.addTicket pos ticket = some (storage', changes)) :
    ∃ after, storage'.ticketsAt = update storage.ticketsAt pos after ∧
      storage'.timedGeneration =
        (storage.nextGeneration ticket.ticketType).getD storage.timedGeneration ∧
      ((∃ index found, (storage.ticketsAt pos)[index]? = some found ∧ found.key = ticket.key ∧
          after = (storage.ticketsAt pos).modify index
            (refresh (storage.nextGeneration ticket.ticketType))) ∨
        (storage.stored pos ticket.key = none ∧ after =
          storage.ticketsAt pos ++ [⟨ticket, storage.nextGeneration ticket.ticketType⟩])) := by
  unfold addTicket at hadd
  obtain ⟨⟨generation, allocated⟩, hgeneration, hadd⟩ := bind_eq_some_iff.mp hadd
  obtain ⟨rfl, htickets, hcounter⟩ := generationFor_eq hgeneration
  have hat : allocated.ticketsAt = storage.ticketsAt := by
    funext p
    rw [ticketsAt, ticketsAt, htickets]
  dsimp only at hadd
  rw [← ticketsAt, hat] at hadd
  cases hfind : (storage.ticketsAt pos).findIdx? fun stored => stored.ticket.same ticket with
  | some index =>
    simp only [hfind, pure_def, Option.some.injEq, Prod.mk.injEq] at hadd
    obtain ⟨rfl, -⟩ := hadd
    obtain ⟨found, hfound, hsame⟩ := find_of_findIdx? hfind
    exact ⟨_, hat ▸ ticketsAt_insert _, hcounter,
      .inl ⟨index, found, hfound, ChunkTicket.same_iff.mp hsame, rfl⟩⟩
  | none =>
    simp only [hfind, pure_def, Option.some.injEq, Prod.mk.injEq] at hadd
    obtain ⟨rfl, -⟩ := hadd
    exact ⟨_, hat ▸ ticketsAt_insert _, hcounter, .inr ⟨find_eq_none_of_findIdx? hfind, rfl⟩⟩

theorem addTicket_stored (h : storage.Canonical) {changes : SourceProjectionChanges}
    (hadd : storage.addTicket pos ticket = some (storage', changes)) :
    (storage'.Canonical ∧ storage'.stored = update storage.stored pos
      (update (storage.stored pos) ticket.key (some (storage.added pos ticket)))) ∧
    storage'.timedGeneration =
      (storage.nextGeneration ticket.ticketType).getD storage.timedGeneration := by
  obtain ⟨after, hafter, hcounter, hcases⟩ := addTicket_ticketsAt hadd
  refine ⟨stored_of_ticketsAt h hafter ?_, hcounter⟩
  rcases hcases with ⟨index, found, hfound, hkey, rfl⟩ | ⟨hnone, rfl⟩
  · have hstored : storage.stored pos ticket.key = some found :=
      (KeyedList.find_eq_some_iff (h pos)).mpr ⟨List.mem_of_getElem? hfound, hkey⟩
    rw [added, hstored, ← hkey]
    exact KeyedList.modify (h pos) hfound rfl
  · rw [added, hnone]
    exact KeyedList.push (h pos) hnone

theorem addTicket_isSome (pos : ChunkPos)
    (htimeout : ticket.ticketType.hasTimeout = false) : (storage.addTicket pos ticket).isSome := by
  unfold addTicket generationFor
  simp only [htimeout, Bool.false_eq_true, if_false, bind_eq_bind, bind_some]
  split <;> rfl

theorem takeAt_stored (h : storage.Canonical) {index : ℕ}
    (hfound : tickets[index]? = some found)
    (hdistinct : KeyedList.Distinct StoredChunkTicket.key tickets)
    (hmap : ∀ key, key ≠ found.key → KeyedList.find StoredChunkTicket.key tickets key =
      storage.stored pos key) :
    (storage.takeAt pos tickets index).Canonical ∧
      (storage.takeAt pos tickets index).stored =
        update storage.stored pos (update (storage.stored pos) found.key none) := by
  obtain ⟨hdistinct', hfind⟩ := KeyedList.swapRemove hdistinct hfound
  refine stored_of_ticketsAt h (ticketsAt_takeAt tickets index) ⟨hdistinct', ?_⟩
  rw [hfind]
  funext key
  rw [update_apply, update_apply]
  split_ifs with heq
  · rfl
  · exact hmap key heq

/-- A ticket of the same key is taken out; without one, nothing is done. -/
theorem removeTicket_eq (storage : ChunkTicketStorage) (pos : ChunkPos) (ticket : ChunkTicket) :
    ((storage.removeTicket pos ticket).1 = storage ∧ storage.stored pos ticket.key = none) ∨
      ∃ index found, (storage.ticketsAt pos)[index]? = some found ∧ found.key = ticket.key ∧
        (storage.removeTicket pos ticket).1 =
          storage.takeAt pos (storage.ticketsAt pos) index := by
  unfold removeTicket stored ticketsAt
  cases hlookup : storage.tickets.lookup pos with
  | none => exact .inl ⟨rfl, rfl⟩
  | some tickets =>
    dsimp only [getD_some]
    cases hfind : tickets.findIdx? fun stored => stored.ticket.same ticket with
    | none => exact .inl ⟨rfl, find_eq_none_of_findIdx? hfind⟩
    | some index =>
      obtain ⟨found, hfound, hsame⟩ := find_of_findIdx? hfind
      dsimp only
      rw [hfound]
      exact .inr ⟨index, found, hfound, ChunkTicket.same_iff.mp hsame, rfl⟩

theorem removeTicket_stored (h : storage.Canonical) (pos : ChunkPos) (ticket : ChunkTicket) :
    ((storage.removeTicket pos ticket).1.Canonical ∧ (storage.removeTicket pos ticket).1.stored =
      update storage.stored pos (update (storage.stored pos) ticket.key none)) ∧
    (storage.removeTicket pos ticket).1.timedGeneration = storage.timedGeneration := by
  obtain ⟨heq, hnone⟩ | ⟨index, found, hfound, hkey, heq⟩ := removeTicket_eq storage pos ticket
  · rw [heq]
    exact ⟨⟨h, stored_update_none hnone⟩, rfl⟩
  · rw [heq, ← hkey]
    exact ⟨takeAt_stored h hfound (h pos) fun _ _ => rfl, rfl⟩

def expire (generation : ℕ) (found : StoredChunkTicket) : Option StoredChunkTicket :=
  if found.timedGeneration = some generation then
    if (age found).ticket.isTimedOut then none else some (age found)
  else some found

theorem key_age (found : StoredChunkTicket) : (age found).key = found.key := by
  unfold age StoredChunkTicket.key ChunkTicket.key ChunkTicket.decreaseTicksLeft
  split_ifs <;> rfl

/-- An expiration touches the one ticket that it was taken of. -/
theorem tickTimedTicket_stored (h : storage.Canonical)
    (changes : SourceProjectionChanges) (expiration : TimedTicketExpiration) :
    ((tickTimedTicket (storage, changes) expiration).1.Canonical ∧
      (tickTimedTicket (storage, changes) expiration).1.stored =
        update storage.stored expiration.pos
          (update (storage.stored expiration.pos) expiration.ticket.key
            ((storage.stored expiration.pos expiration.ticket.key).bind
              (expire expiration.generation)))) ∧
    (tickTimedTicket (storage, changes) expiration).1.timedGeneration =
      storage.timedGeneration := by
  have hunchanged : (storage.stored expiration.pos expiration.ticket.key).bind
      (expire expiration.generation) = storage.stored expiration.pos expiration.ticket.key →
      (storage.Canonical ∧ storage.stored = update storage.stored expiration.pos
        (update (storage.stored expiration.pos) expiration.ticket.key
          ((storage.stored expiration.pos expiration.ticket.key).bind
            (expire expiration.generation)))) ∧
      storage.timedGeneration = storage.timedGeneration := by
    intro heq
    rw [heq, update_eq_self, update_eq_self]
    exact ⟨⟨h, rfl⟩, rfl⟩
  unfold tickTimedTicket
  dsimp only
  cases hlookup : storage.tickets.lookup expiration.pos with
  | none =>
    apply hunchanged
    rw [stored, ticketsAt, hlookup]
    rfl
  | some tickets =>
    have hat : storage.ticketsAt expiration.pos = tickets := by rw [ticketsAt, hlookup]; rfl
    have hdistinct : KeyedList.Distinct StoredChunkTicket.key tickets := hat ▸ h expiration.pos
    dsimp only
    cases hfind : tickets.findIdx? fun stored => stored.ticket.same expiration.ticket &&
        stored.timedGeneration == some expiration.generation with
    | none =>
      apply hunchanged
      cases hstored : storage.stored expiration.pos expiration.ticket.key with
      | none => rfl
      | some found =>
        rw [stored, hat, KeyedList.find_eq_some_iff hdistinct] at hstored
        have hnot := List.findIdx?_eq_none_iff.mp hfind found hstored.1
        rw [ChunkTicket.same_iff.mpr hstored.2, Bool.true_and, beq_eq_false_iff_ne] at hnot
        exact if_neg hnot
    | some index =>
      obtain ⟨found, hfound, hmatch⟩ := find_of_findIdx? hfind
      rw [Bool.and_eq_true, beq_iff_eq] at hmatch
      have hkey : found.key = expiration.ticket.key := ChunkTicket.same_iff.mp hmatch.1
      have hstored : storage.stored expiration.pos expiration.ticket.key = some found := by
        rw [stored, hat, KeyedList.find_eq_some_iff hdistinct]
        exact ⟨List.mem_of_getElem? hfound, hkey⟩
      have haged : (tickets.modify index age)[index]? = some (age found) := by
        rw [List.getElem?_modify, hfound]
        simp
      obtain ⟨hdistinct', hfind'⟩ := KeyedList.modify hdistinct hfound (key_age found)
      dsimp only
      rw [haged, hstored, bind_some, expire, if_pos hmatch.2]
      dsimp only
      split_ifs with hexpired
      · refine ⟨?_, rfl⟩
        rw [← hkey, ← key_age]
        apply takeAt_stored h haged hdistinct'
        intro key hne
        rw [key_age] at hne
        rw [hfind', update_of_ne hne, stored, hat]
      · refine ⟨stored_of_ticketsAt h (ticketsAt_insert _) ⟨hdistinct', ?_⟩, rfl⟩
        rw [hfind', ← hkey, stored, hat]

def expireAll (expirations : List TimedTicketExpiration) (pos : ChunkPos) (key : TicketKey)
    (found : Option StoredChunkTicket) : Option StoredChunkTicket :=
  (expirations.filter fun expiration => expiration.pos = pos ∧ expiration.ticket.key = key).foldl
    (fun found expiration => found.bind (expire expiration.generation)) found

theorem tickTimedTickets_stored (h : storage.Canonical)
    (expirations : List TimedTicketExpiration) :
    (storage.tickTimedTickets expirations).1.Canonical ∧
    (∀ pos key, (storage.tickTimedTickets expirations).1.stored pos key =
      expireAll expirations pos key (storage.stored pos key)) ∧
    (storage.tickTimedTickets expirations).1.timedGeneration = storage.timedGeneration := by
  have hfold : ∀ changes, (expirations.foldl tickTimedTicket (storage, changes)).1.Canonical ∧
      (∀ pos key, (expirations.foldl tickTimedTicket (storage, changes)).1.stored pos key =
        expireAll expirations pos key (storage.stored pos key)) ∧
      (expirations.foldl tickTimedTicket (storage, changes)).1.timedGeneration =
        storage.timedGeneration := by
    induction expirations generalizing storage with
    | nil => exact fun _ => ⟨h, fun _ _ => rfl, rfl⟩
    | cons expiration rest ih =>
      intro changes
      obtain ⟨⟨hcanonical, hstored⟩, hcounter⟩ := tickTimedTicket_stored h changes expiration
      obtain ⟨hcanonical', hstored', hcounter'⟩ :=
        ih hcanonical (tickTimedTicket (storage, changes) expiration).2
      rw [List.foldl_cons]
      refine ⟨hcanonical', ?_, hcounter'.trans hcounter⟩
      intro pos key
      rw [hstored' pos key, hstored]
      unfold expireAll
      rw [List.filter_cons]
      by_cases hpos : pos = expiration.pos
      · subst hpos
        rw [update_self]
        by_cases hkey : key = expiration.ticket.key
        · subst hkey
          simp [update_self]
        · rw [update_of_ne hkey]
          simp [Ne.symm hkey]
      · rw [update_of_ne hpos]
        simp [Ne.symm hpos]
  exact hfold {}

end ChunkTicketStorage

end Steel

import Steel.Proof.TicketSlots

/-!
# Expiry passes over stale snapshots

A pass may use a snapshot of the timed tickets that was taken long before. The run records when each
snapshot was taken and when each ticket was last added, refreshed or removed; a ticket that was
touched after a snapshot has a generation that the snapshot cannot have.
-/

namespace Steel

open List Option Function

namespace ChunkTicketStorage

def slotOf (expiration : TimedTicketExpiration) : ChunkPos × TicketKey :=
  (expiration.pos, expiration.ticket.key)

section Snapshot

variable {order : HashMap.IterationOrder ChunkPos (List StoredChunkTicket)}
  {storage : ChunkTicketStorage}

theorem mem_timedTicketExpirations {expiration : TimedTicketExpiration} :
    expiration ∈ storage.timedTicketExpirations order ↔
      ∃ found ∈ storage.ticketsAt expiration.pos, found.ticket = expiration.ticket ∧
        found.timedGeneration = some expiration.generation := by
  unfold timedTicketExpirations
  rw [mem_mergeSort, mem_flatMap]
  constructor
  · rintro ⟨⟨pos, tickets⟩, hentry, hmem⟩
    obtain ⟨found, hfound, hexpiration⟩ := mem_filterMap.mp hmem
    obtain ⟨generation, hgeneration, rfl⟩ := map_eq_some_iff.mp hexpiration
    have hlookup := ((order.iterates storage.tickets).mem_iff pos tickets).mp hentry
    refine ⟨found, ?_, rfl, hgeneration⟩
    rw [ticketsAt, hlookup]
    exact hfound
  · rintro ⟨found, hfound, hticket, hgeneration⟩
    cases hlookup : storage.tickets.lookup expiration.pos with
    | none =>
      rw [ticketsAt, hlookup] at hfound
      cases hfound
    | some tickets =>
      rw [ticketsAt, hlookup] at hfound
      refine ⟨(expiration.pos, tickets),
        ((order.iterates storage.tickets).mem_iff _ _).mpr hlookup, ?_⟩
      refine mem_filterMap.mpr ⟨found, hfound, ?_⟩
      rw [hgeneration, map_some, hticket]

theorem nodup_timedTicketExpirations (h : storage.Canonical) :
    ((storage.timedTicketExpirations order).map slotOf).Nodup := by
  have hperm : ((storage.timedTicketExpirations order).map slotOf).Perm
      (((order.toList storage.tickets).flatMap fun entry =>
        entry.2.filterMap fun stored => stored.timedGeneration.map fun generation =>
          { pos := entry.1, ticket := stored.ticket, generation : TimedTicketExpiration }).map
            slotOf) :=
    (mergeSort_perm _ _).map _
  have hiterates := order.iterates storage.tickets
  rw [hperm.nodup_iff, map_flatMap, nodup_flatMap]
  constructor
  · rintro ⟨pos, tickets⟩ hentry
    have hdistinct := h pos
    rw [ticketsAt, (hiterates.mem_iff pos tickets).mp hentry, getD_some,
      KeyedList.Distinct, List.Nodup, pairwise_map] at hdistinct
    rw [List.Nodup, pairwise_map, pairwise_filterMap]
    refine hdistinct.imp ?_
    intro first second hne left hleft right hright heq
    obtain ⟨_, -, rfl⟩ := map_eq_some_iff.mp hleft
    obtain ⟨_, -, rfl⟩ := map_eq_some_iff.mp hright
    exact hne (Prod.mk.inj heq).2
  · have hnodup := hiterates.nodup
    rw [List.Nodup, pairwise_map] at hnodup
    refine hnodup.imp ?_
    intro first second hne slot hfirst hsecond
    -- the entries of two positions differ in the position
    have hpos : ∀ {entry : ChunkPos × List StoredChunkTicket}, slot ∈
        ((entry.2.filterMap fun stored => stored.timedGeneration.map fun generation =>
          { pos := entry.1, ticket := stored.ticket, generation : TimedTicketExpiration }).map
            slotOf) → slot.1 = entry.1 := by
      intro entry hmem
      obtain ⟨expiration, hexpiration, rfl⟩ := mem_map.mp hmem
      obtain ⟨found, -, hfound⟩ := mem_filterMap.mp hexpiration
      obtain ⟨generation, -, rfl⟩ := map_eq_some_iff.mp hfound
      rfl
    exact hne ((hpos hfirst).symm.trans (hpos hsecond))

end Snapshot

structure ExpirySnapshot where
  taken : ℕ
  expirations : List TimedTicketExpiration

/-- A storage, the snapshots taken of it, and when each ticket was last added, refreshed or
removed. -/
structure ExpirySystem where
  storage : ChunkTicketStorage
  snapshots : List ExpirySnapshot
  clock : ℕ
  touched : ChunkPos → TicketKey → ℕ

namespace ExpirySystem

def initial : ExpirySystem :=
  { storage := .new, snapshots := [], clock := 0, touched := fun _ _ => 0 }

def touch (system : ExpirySystem) (storage : ChunkTicketStorage) (pos : ChunkPos)
    (key : TicketKey) : ExpirySystem :=
  { system with
    storage
    clock := system.clock + 1
    touched := Function.update system.touched pos
      (Function.update (system.touched pos) key (system.clock + 1)) }

/-- Interleavings of the operations. The statics say which ticket type lives at an address. -/
inductive Reached (statics : ℕ → TicketType) : ExpirySystem → Prop where
  | initial : Reached statics initial
  /-- A ticket is added or refreshed. -/
  | addTicket {system : ExpirySystem} (h : Reached statics system) (pos : ChunkPos)
      (ticket : ChunkTicket) (hstatic : statics ticket.ticketType.address = ticket.ticketType)
      {storage : ChunkTicketStorage} {changes : SourceProjectionChanges}
      (hadd : system.storage.addTicket pos ticket = some (storage, changes)) :
      Reached statics (system.touch storage pos ticket.key)
  | removeTicket {system : ExpirySystem} (h : Reached statics system) (pos : ChunkPos)
      (ticket : ChunkTicket) :
      Reached statics (system.touch (system.storage.removeTicket pos ticket).1 pos ticket.key)
  | timedTicketExpirations {system : ExpirySystem} (h : Reached statics system)
      (order : HashMap.IterationOrder ChunkPos (List StoredChunkTicket)) :
      Reached statics { system with
        clock := system.clock + 1
        snapshots := ⟨system.clock + 1, system.storage.timedTicketExpirations order⟩ ::
          system.snapshots }
  /-- A pass runs with a snapshot from any earlier point. -/
  | tickTimedTickets {system : ExpirySystem} (h : Reached statics system)
      {snapshot : ExpirySnapshot} (hsnapshot : snapshot ∈ system.snapshots) :
      Reached statics { system with
        clock := system.clock + 1
        storage := (system.storage.tickTimedTickets snapshot.expirations).1 }

/-- What a snapshot says about the tickets that are stored now. -/
structure SnapshotSound (storage : ChunkTicketStorage) (clock : ℕ)
    (touched : ChunkPos → TicketKey → ℕ) (snapshot : ExpirySnapshot) : Prop where
  taken_le : snapshot.taken ≤ clock
  nodup : (snapshot.expirations.map slotOf).Nodup
  generation_le : ∀ expiration ∈ snapshot.expirations,
    expiration.generation ≤ storage.timedGeneration
  /-- A ticket touched since has another generation. -/
  fresh : ∀ pos key found, storage.stored pos key = some found → snapshot.taken < touched pos key →
    ∀ expiration ∈ snapshot.expirations, found.timedGeneration ≠ some expiration.generation
  /-- A timed ticket not touched since is in the snapshot. -/
  seen : ∀ pos key found generation, storage.stored pos key = some found →
    found.timedGeneration = some generation → touched pos key ≤ snapshot.taken →
    ∃ expiration ∈ snapshot.expirations, slotOf expiration = (pos, key) ∧
      expiration.generation = generation

structure Sound (statics : ℕ → TicketType) (system : ExpirySystem) : Prop where
  canonical : system.storage.Canonical
  typed : ∀ pos key found, system.storage.stored pos key = some found →
    statics found.ticket.ticketType.address = found.ticket.ticketType ∧
      (found.timedGeneration.isSome = found.ticket.ticketType.hasTimeout)
  generation_le : ∀ pos key found generation, system.storage.stored pos key = some found →
    found.timedGeneration = some generation → generation ≤ system.storage.timedGeneration
  touched_le : ∀ pos key, system.touched pos key ≤ system.clock
  snapshots : ∀ snapshot ∈ system.snapshots,
    SnapshotSound system.storage system.clock system.touched snapshot

namespace Sound

variable {statics : ℕ → TicketType} {system : ExpirySystem}

theorem initial : Sound statics ExpirySystem.initial where
  canonical := canonical_new
  typed := fun _ _ _ hfound => nomatch hfound
  generation_le := fun _ _ _ _ hfound => nomatch hfound
  touched_le := fun _ _ => le_rfl
  snapshots := fun _ hsnapshot => nomatch hsnapshot

theorem touch (h : Sound statics system) {storage : ChunkTicketStorage} {pos : ChunkPos}
    {key : TicketKey} {value : Option StoredChunkTicket}
    (hupdate : storage.Canonical ∧ storage.stored = Function.update system.storage.stored pos
      (Function.update (system.storage.stored pos) key value))
    (hcounter : system.storage.timedGeneration ≤ storage.timedGeneration)
    (htyped : ∀ found ∈ value, statics found.ticket.ticketType.address = found.ticket.ticketType ∧
      (found.timedGeneration.isSome = found.ticket.ticketType.hasTimeout))
    (hgeneration : ∀ found ∈ value, ∀ generation, found.timedGeneration = some generation →
      system.storage.timedGeneration < generation ∧ generation ≤ storage.timedGeneration) :
    Sound statics (system.touch storage pos key) := by
  have hcases : ∀ p k found, storage.stored p k = some found →
      (value = some found ∧ (system.touch storage pos key).touched p k = system.clock + 1) ∨
      (system.storage.stored p k = some found ∧
        (system.touch storage pos key).touched p k = system.touched p k) := by
    intro p k found hfound
    rw [hupdate.2] at hfound
    unfold ExpirySystem.touch
    dsimp only
    by_cases hp : p = pos
    · subst hp
      rw [update_self] at hfound ⊢
      by_cases hk : k = key
      · subst hk
        rw [update_self] at hfound ⊢
        exact Or.inl ⟨hfound, rfl⟩
      · rw [update_of_ne hk] at hfound ⊢
        exact Or.inr ⟨hfound, rfl⟩
    · rw [update_of_ne hp] at hfound ⊢
      exact Or.inr ⟨hfound, rfl⟩
  refine ⟨hupdate.1, ?_, ?_, ?_, ?_⟩
  · intro p k found hfound
    rcases hcases p k found hfound with ⟨hvalue, -⟩ | ⟨hold, -⟩
    · exact htyped found hvalue
    · exact h.typed p k found hold
  · intro p k found generation hfound hgen
    rcases hcases p k found hfound with ⟨hvalue, -⟩ | ⟨hold, -⟩
    · exact (hgeneration found hvalue generation hgen).2
    · exact (h.generation_le p k found generation hold hgen).trans hcounter
  · intro p k
    unfold ExpirySystem.touch
    dsimp only
    rw [update_apply]
    split_ifs with hp
    · rw [update_apply]
      split_ifs
      · exact le_rfl
      · exact (h.touched_le pos k).trans (Nat.le_succ _)
    · exact (h.touched_le p k).trans (Nat.le_succ _)
  · intro snapshot hsnapshot
    have hsound := h.snapshots snapshot hsnapshot
    refine ⟨hsound.taken_le.trans (Nat.le_succ _), hsound.nodup,
      fun expiration hexpiration => (hsound.generation_le expiration hexpiration).trans hcounter,
      ?_, ?_⟩
    · intro p k found hfound htouched expiration hexpiration hgen
      rcases hcases p k found hfound with ⟨hvalue, -⟩ | ⟨hold, heq⟩
      · have := (hgeneration found hvalue _ hgen).1
        have := hsound.generation_le expiration hexpiration
        omega
      · rw [heq] at htouched
        exact hsound.fresh p k found hold htouched expiration hexpiration hgen
    · intro p k found generation hfound hgen htouched
      rcases hcases p k found hfound with ⟨-, heq⟩ | ⟨hold, heq⟩
      · have := hsound.taken_le
        omega
      · rw [heq] at htouched
        exact hsound.seen p k found generation hold hgen htouched

theorem addTicket (h : Sound statics system) {pos : ChunkPos} {ticket : ChunkTicket}
    (hstatic : statics ticket.ticketType.address = ticket.ticketType) {storage : ChunkTicketStorage}
    {changes : SourceProjectionChanges}
    (hadd : system.storage.addTicket pos ticket = some (storage, changes)) :
    Sound statics (system.touch storage pos ticket.key) := by
  obtain ⟨hupdate, hcounter⟩ := addTicket_stored h.canonical hadd
  -- the stored ticket has the type of the added one, and the generation it was given
  have hadded : (system.storage.added pos ticket).ticket.ticketType = ticket.ticketType ∧
      (system.storage.added pos ticket).timedGeneration =
        system.storage.nextGeneration ticket.ticketType := by
    unfold added
    cases hfound : system.storage.stored pos ticket.key with
    | none => exact ⟨rfl, rfl⟩
    | some found =>
      refine ⟨?_, rfl⟩
      have hkey := key_of_stored h.canonical hfound
      have haddress : found.ticket.ticketType.address = ticket.ticketType.address :=
        congrArg Prod.fst hkey
      change found.ticket.ticketType = _
      rw [← (h.typed pos _ found hfound).1, haddress, hstatic]
  apply h.touch hupdate
  · rw [hcounter, nextGeneration]
    split_ifs
    · exact Nat.le_succ _
    · exact le_rfl
  · intro found hfound
    cases hfound
    rw [hadded.1, hadded.2, nextGeneration]
    refine ⟨hstatic, ?_⟩
    split_ifs with htimeout
    · rw [htimeout]
      rfl
    · rw [Bool.not_eq_true] at htimeout
      rw [htimeout]
      rfl
  · intro found hfound generation hgeneration
    cases hfound
    rw [hadded.2] at hgeneration
    rw [hcounter, hgeneration]
    unfold nextGeneration at hgeneration
    split_ifs at hgeneration
    cases hgeneration
    exact ⟨Nat.lt_succ_self _, le_rfl⟩

theorem removeTicket (h : Sound statics system) (pos : ChunkPos) (ticket : ChunkTicket) :
    Sound statics (system.touch (system.storage.removeTicket pos ticket).1 pos ticket.key) := by
  obtain ⟨hupdate, hcounter⟩ := removeTicket_stored h.canonical pos ticket
  exact h.touch hupdate hcounter.ge (fun _ hfound => nomatch hfound) fun _ hfound => nomatch hfound

theorem timedTicketExpirations (h : Sound statics system)
    (order : HashMap.IterationOrder ChunkPos (List StoredChunkTicket)) :
    Sound statics { system with
      clock := system.clock + 1
      snapshots := ⟨system.clock + 1, system.storage.timedTicketExpirations order⟩ ::
        system.snapshots } := by
  refine ⟨h.canonical, h.typed, h.generation_le,
    fun pos key => (h.touched_le pos key).trans (Nat.le_succ _), ?_⟩
  intro snapshot hsnapshot
  rcases mem_cons.mp hsnapshot with rfl | hold
  · refine ⟨le_rfl, nodup_timedTicketExpirations h.canonical, ?_, ?_, ?_⟩
    · intro expiration hexpiration
      obtain ⟨found, hfound, -, hgeneration⟩ := mem_timedTicketExpirations.mp hexpiration
      exact h.generation_le _ _ found _ ((mem_ticketsAt_iff h.canonical).mp hfound) hgeneration
    · intro pos key found _ htouched
      exact absurd htouched (not_lt.mpr ((h.touched_le pos key).trans (Nat.le_succ _)))
    · intro pos key found generation hfound hgeneration _
      have hkey := key_of_stored h.canonical hfound
      refine ⟨⟨pos, found.ticket, generation⟩, mem_timedTicketExpirations.mpr
        ⟨found, ?_, rfl, hgeneration⟩, ?_, rfl⟩
      · rw [mem_ticketsAt_iff h.canonical, hkey]
        exact hfound
      · rw [slotOf, ← hkey]
        rfl
  · have hsound := h.snapshots snapshot hold
    exact ⟨hsound.taken_le.trans (Nat.le_succ _), hsound.nodup, hsound.generation_le, hsound.fresh,
      hsound.seen⟩

end Sound

variable {expirations : List TimedTicketExpiration} {pos : ChunkPos} {key : TicketKey}

theorem expireAll_eq_some {found : Option StoredChunkTicket} {left : StoredChunkTicket}
    (h : expireAll expirations pos key found = some left) :
    ∃ old, found = some old ∧ left.timedGeneration = old.timedGeneration ∧
      left.ticket.ticketType = old.ticket.ticketType := by
  unfold expireAll at h
  generalize (expirations.filter fun expiration =>
    decide (expiration.pos = pos ∧ expiration.ticket.key = key)) = applied at h
  induction applied generalizing found with
  | nil => exact ⟨left, h, rfl, rfl⟩
  | cons expiration rest ih =>
    obtain ⟨middle, hmiddle, hgeneration, htype⟩ := ih h
    obtain ⟨old, rfl, hold⟩ := bind_eq_some_iff.mp hmiddle
    refine ⟨old, rfl, ?_⟩
    unfold expire at hold
    split_ifs at hold
    · cases hold
      refine ⟨hgeneration, htype.trans ?_⟩
      unfold age ChunkTicket.decreaseTicksLeft
      split_ifs <;> rfl
    · cases hold
      exact ⟨hgeneration, htype⟩

variable {system : ExpirySystem} {statics : ℕ → TicketType}

theorem Sound.tickTimedTickets
    (h : Sound statics system) (expirations : List TimedTicketExpiration) :
    Sound statics { system with
      clock := system.clock + 1
      storage := (system.storage.tickTimedTickets expirations).1 } := by
  obtain ⟨hcanonical, hstored, hcounter⟩ := tickTimedTickets_stored h.canonical expirations
  have hold : ∀ pos key left, (system.storage.tickTimedTickets expirations).1.stored pos key =
      some left → ∃ old, system.storage.stored pos key = some old ∧
        left.timedGeneration = old.timedGeneration ∧
        left.ticket.ticketType = old.ticket.ticketType := by
    intro pos key left hleft
    rw [hstored] at hleft
    exact expireAll_eq_some hleft
  refine ⟨hcanonical, ?_, ?_, fun pos key => (h.touched_le pos key).trans (Nat.le_succ _), ?_⟩
  · intro pos key left hleft
    obtain ⟨old, hfound, hgeneration, htype⟩ := hold pos key left hleft
    rw [htype, hgeneration]
    exact h.typed pos key old hfound
  · intro pos key left generation hleft hgen
    obtain ⟨old, hfound, hgeneration, -⟩ := hold pos key left hleft
    rw [hcounter]
    exact h.generation_le pos key old generation hfound (hgeneration.symm.trans hgen)
  · intro snapshot hsnapshot
    have hsound := h.snapshots snapshot hsnapshot
    refine ⟨hsound.taken_le.trans (Nat.le_succ _), hsound.nodup, ?_, ?_, ?_⟩
    · rw [hcounter]
      exact hsound.generation_le
    · intro pos key left hleft htouched expiration hexpiration
      obtain ⟨old, hfound, hgeneration, -⟩ := hold pos key left hleft
      rw [hgeneration]
      exact hsound.fresh pos key old hfound htouched expiration hexpiration
    · intro pos key left generation hleft hgen htouched
      obtain ⟨old, hfound, hgeneration, -⟩ := hold pos key left hleft
      exact hsound.seen pos key old generation hfound (hgeneration.symm.trans hgen) htouched

theorem Reached.sound (h : Reached statics system) : Sound statics system := by
  induction h with
  | initial => exact .initial
  | addTicket _ pos ticket hstatic hadd ih => exact ih.addTicket hstatic hadd
  | removeTicket _ pos ticket ih => exact ih.removeTicket pos ticket
  | timedTicketExpirations _ order ih => exact ih.timedTicketExpirations order
  | tickTimedTickets _ hsnapshot ih => exact ih.tickTimedTickets _

/-! ### One pass -/

variable {found : StoredChunkTicket}

theorem expireAll_of_fresh
    (h : ∀ expiration ∈ expirations, found.timedGeneration ≠ some expiration.generation) :
    expireAll expirations pos key (some found) = some found := by
  unfold expireAll
  induction expirations with
  | nil => rfl
  | cons expiration rest ih =>
    have hrest := ih fun other hother => h other (mem_cons_of_mem _ hother)
    rw [filter_cons]
    split_ifs
    · rw [foldl_cons, bind_some, expire, if_neg (h expiration mem_cons_self)]
      exact hrest
    · exact hrest

theorem expireAll_of_seen (hnodup : (expirations.map slotOf).Nodup)
    {expiration : TimedTicketExpiration} (hmem : expiration ∈ expirations)
    (hslot : slotOf expiration = (pos, key))
    (hgeneration : found.timedGeneration = some expiration.generation) :
    expireAll expirations pos key (some found) =
      if (age found).ticket.isTimedOut then none else some (age found) := by
  have hfilter : (expirations.filter fun other => other.pos = pos ∧ other.ticket.key = key) =
      [expiration] := by
    cases hslot
    have hsingle := KeyedList.Distinct.filter_eq hnodup hmem
    simp only [slotOf, Prod.mk.injEq] at hsingle
    exact hsingle
  rw [expireAll, hfilter, foldl_cons, foldl_nil, bind_some, expire,
    if_pos hgeneration]

theorem age_of_hasTimeout
    (h : found.ticket.ticketType.hasTimeout = true) :
    age found = { found with
      ticket := { found.ticket with ticksLeft := wrapI64 (found.ticket.ticksLeft - 1) } } ∧
    ((age found).ticket.isTimedOut = true ↔ wrapI64 (found.ticket.ticksLeft - 1) < 0) := by
  have hage : age found = { found with
      ticket := { found.ticket with ticksLeft := wrapI64 (found.ticket.ticksLeft - 1) } } := by
    rw [age, ChunkTicket.decreaseTicksLeft, if_pos h]
  refine ⟨hage, ?_⟩
  rw [hage, ChunkTicket.isTimedOut]
  simp [h]

/-- At each position there is at most one ticket of a type and level. A pass with any earlier
snapshot leaves a ticket alone that was added, refreshed or added again after the snapshot was
taken, or that has no timeout. It ages every other one by one tick, and removes it exactly if its
ticks are then below zero. No other ticket appears. -/
theorem reached_expiryPass {statics : ℕ → TicketType} {system : ExpirySystem}
    (h : Reached statics system) :
    (∀ pos, ((system.storage.ticketsAt pos).map fun found =>
      (found.ticket.ticketType.address, found.ticket.ticketLevel)).Nodup) ∧
    ∀ snapshot ∈ system.snapshots, ∀ pos,
      (∀ found ∈ system.storage.ticketsAt pos,
        (snapshot.taken < system.touched pos found.key ∨
          found.ticket.ticketType.hasTimeout = false →
          found ∈ (system.storage.tickTimedTickets snapshot.expirations).1.ticketsAt pos) ∧
        (system.touched pos found.key ≤ snapshot.taken →
          found.ticket.ticketType.hasTimeout = true →
          (0 ≤ wrapI64 (found.ticket.ticksLeft - 1) →
            { found with ticket := { found.ticket with
                ticksLeft := wrapI64 (found.ticket.ticksLeft - 1) } } ∈
              (system.storage.tickTimedTickets snapshot.expirations).1.ticketsAt pos) ∧
          (wrapI64 (found.ticket.ticksLeft - 1) < 0 →
            ∀ left ∈ (system.storage.tickTimedTickets snapshot.expirations).1.ticketsAt pos,
              left.ticket.same found.ticket = false))) ∧
      ∀ left ∈ (system.storage.tickTimedTickets snapshot.expirations).1.ticketsAt pos,
        ∃ found ∈ system.storage.ticketsAt pos, left.ticket.same found.ticket = true := by
  have hsound := h.sound
  refine ⟨hsound.canonical, ?_⟩
  intro snapshot hsnapshot pos
  have hsnap := hsound.snapshots snapshot hsnapshot
  obtain ⟨hcanonical, hstored, -⟩ :=
    tickTimedTickets_stored hsound.canonical snapshot.expirations
  constructor
  · intro found hfound
    rw [mem_ticketsAt_iff hsound.canonical] at hfound
    constructor
    · intro huntouched
      rw [mem_ticketsAt_iff hcanonical, hstored, hfound]
      apply expireAll_of_fresh
      rcases huntouched with htouched | huntimed
      · exact hsnap.fresh pos _ found hfound htouched
      · intro expiration _ hgeneration
        have htyped := (hsound.typed pos _ found hfound).2
        rw [huntimed, hgeneration] at htyped
        cases htyped
    · intro htouched htimed
      have hsome := (hsound.typed pos _ found hfound).2
      rw [htimed] at hsome
      obtain ⟨generation, hgeneration⟩ := isSome_iff_exists.mp hsome
      obtain ⟨expiration, hmem, hslot, rfl⟩ :=
        hsnap.seen pos _ found generation hfound hgeneration htouched
      have hafter := expireAll_of_seen hsnap.nodup hmem hslot hgeneration
      rw [← hfound, ← hstored] at hafter
      obtain ⟨hage, hexpired⟩ := age_of_hasTimeout htimed
      constructor
      · intro hleft
        rw [if_neg fun hout => not_lt.mpr hleft (hexpired.mp hout), hage] at hafter
        rw [mem_ticketsAt_iff hcanonical]
        exact hafter
      · intro hout left hleft
        rw [if_pos (hexpired.mpr hout)] at hafter
        rw [mem_ticketsAt_iff hcanonical] at hleft
        rw [← Bool.not_eq_true, ChunkTicket.same_iff]
        intro hsame
        change left.key = found.key at hsame
        rw [hsame, hafter] at hleft
        cases hleft
  · intro left hleft
    rw [mem_ticketsAt_iff hcanonical, hstored] at hleft
    obtain ⟨old, hold, -⟩ := expireAll_eq_some hleft
    have hkey := key_of_stored hsound.canonical hold
    refine ⟨old, ?_, ChunkTicket.same_iff.mpr hkey.symm⟩
    rw [mem_ticketsAt_iff hsound.canonical, hkey]
    exact hold

/-- A portal ticket that is in the snapshot is left with one tick less. -/
theorem reached_expiryPass_portal : ∃ system : ExpirySystem,
    Reached (fun _ => .portal) system ∧ ∃ snapshot ∈ system.snapshots,
      (⟨portalTicket, some 1⟩ : StoredChunkTicket) ∈ system.storage.ticketsAt ⟨0, 0⟩ ∧
      (⟨{ portalTicket with ticksLeft := 299 }, some 1⟩ : StoredChunkTicket) ∈
        (system.storage.tickTimedTickets snapshot.expirations).1.ticketsAt ⟨0, 0⟩ := by
  obtain ⟨order⟩ : Nonempty (HashMap.IterationOrder ChunkPos (List StoredChunkTicket)) :=
    inferInstance
  have hinitial : Reached (fun _ => .portal) initial := .initial
  have hadd : new.addTicket ⟨0, 0⟩ portalTicket = some
      (⟨(∅ : HashMap ChunkPos (List StoredChunkTicket)).insert ⟨0, 0⟩ [⟨portalTicket, some 1⟩], 1⟩,
        .forTicket ⟨0, 0⟩ portalTicket) := rfl
  have hreached := (hinitial.addTicket ⟨0, 0⟩ portalTicket rfl hadd).timedTicketExpirations order
  have hmem : (⟨portalTicket, some 1⟩ : StoredChunkTicket) ∈ (ChunkTicketStorage.mk
      ((∅ : HashMap ChunkPos (List StoredChunkTicket)).insert ⟨0, 0⟩ [⟨portalTicket, some 1⟩])
      1).ticketsAt ⟨0, 0⟩ := by decide
  refine ⟨_, hreached, _, mem_cons_self, hmem, ?_⟩
  obtain ⟨-, haged⟩ := ((reached_expiryPass hreached).2 _ mem_cons_self ⟨0, 0⟩).1
    ⟨portalTicket, some 1⟩ hmem
  exact (haged (Nat.le_succ 1) (by decide)).1 (by decide)

end ExpirySystem

end ChunkTicketStorage

end Steel

import Steel.World.PlayerAreaMap

/-!
# Concurrent calls on the player area map

Calls for one player follow each other; those for different players interleave at every map
operation. What a player's remaining operations will leave is settled as soon as the call starts,
unless an insertion fails because another player inserted the same chunk first.
-/

namespace Steel

open List Function

/-- The map and the remaining operations of each player's call. -/
structure AreaSystem where
  map : PlayerAreaMap
  calls : Int → List AreaOperation

inductive AreaEvent where
  | join (entityId : Int) (view : List ChunkPos)
  | viewChange (entityId : Int) (addedChunks removedChunks : List ChunkPos)
  | leave (entityId : Int)
  | perform (entityId : Int) (iteration : Finset ChunkPos → List ChunkPos)

namespace AreaSystem

def initial : AreaSystem := { map := PlayerAreaMap.new, calls := fun _ => [] }

variable (system : AreaSystem)

def begin (entityId : Int) (operations : List AreaOperation) : AreaSystem :=
  { system with calls := Function.update system.calls entityId operations }

def next (entityId : Int) (iteration : Finset ChunkPos → List ChunkPos) (operation : AreaOperation)
    (rest : List AreaOperation) : AreaSystem :=
  { map := (system.map.perform entityId iteration operation).2
    calls := Function.update system.calls entityId
      ((system.map.perform entityId iteration operation).1 ++ rest) }

/-- Calls start when the player's last call is finished, and any player's call may go on. -/
inductive Step : AreaSystem → AreaEvent → AreaSystem → Prop
  | join {system : AreaSystem} {entityId : Int} (view : List ChunkPos)
      (hidle : system.calls entityId = []) :
      Step system (.join entityId view) (system.begin entityId (PlayerAreaMap.onPlayerJoin view))
  | viewChange {system : AreaSystem} {entityId : Int} (addedChunks removedChunks : List ChunkPos)
      (hidle : system.calls entityId = []) :
      Step system (.viewChange entityId addedChunks removedChunks)
        (system.begin entityId (PlayerAreaMap.onPlayerViewChange addedChunks removedChunks))
  | leave {system : AreaSystem} {entityId : Int} (hidle : system.calls entityId = []) :
      Step system (.leave entityId) (system.begin entityId PlayerAreaMap.onPlayerLeave)
  | perform {system : AreaSystem} {entityId : Int} {iteration : Finset ChunkPos → List ChunkPos}
      {operation : AreaOperation} {rest : List AreaOperation}
      (hiteration : ∀ chunks chunk, chunk ∈ iteration chunks ↔ chunk ∈ chunks)
      (hnext : system.calls entityId = operation :: rest) :
      Step system (.perform entityId iteration) (system.next entityId iteration operation rest)

inductive Reached (condition : AreaSystem → AreaEvent → AreaSystem → Prop) : AreaSystem → Prop
  | initial : Reached condition initial
  | step {system after : AreaSystem} {event : AreaEvent} (h : Reached condition system)
      (hstep : Step system event after) (hcondition : condition system event after) :
      Reached condition after

/-- Players join while they are not registered and change their view while they are. -/
def InOrder : AreaEvent → AreaSystem → Prop
  | .join entityId _, _ => system.map.playerChunks.lookup entityId = none
  | .viewChange entityId _ _, _ => system.map.playerChunks.lookup entityId ≠ none
  | _, _ => True

/-- A player is between the failed update of a chunk and its insertion. -/
def Inserting (entityId : Int) (chunk : ChunkPos) : Prop :=
  (system.calls entityId).head? = some (.addInsert chunk)

def NoOverlap : Prop :=
  ∀ first second chunk, system.Inserting first chunk → system.Inserting second chunk →
    first = second

/-- Calls are made in order, and no two players insert the same chunk at once. -/
def Orderly (event : AreaEvent) (after : AreaSystem) : Prop :=
  InOrder system event after ∧ NoOverlap after

end AreaSystem

/-! ### What a call will leave -/

namespace PlayerAreaMap

def tracked (map : PlayerAreaMap) (entityId : Int) : Set ChunkPos :=
  { chunk | entityId ∈ map.getTrackingPlayers chunk }

/-- A player as the map has it: where it is tracked, and the recorded chunks. -/
abbrev PlayerView := Set ChunkPos × Option (Finset ChunkPos)

def view (map : PlayerAreaMap) (entityId : Int) : PlayerView :=
  (map.tracked entityId, map.playerChunks.lookup entityId)

/-- What an operation is meant to do to its player. -/
def intended : AreaOperation → PlayerView → PlayerView
  | .addUpdate chunk, (tracked, record) => (insert chunk tracked, record)
  | .addInsert chunk, (tracked, record) => (insert chunk tracked, record)
  | .removeUpdate chunk, (tracked, record) => (tracked \ {chunk}, record)
  | .removeIfEmpty _, (tracked, record) => (tracked, record)
  | .insertPlayer chunks, (tracked, record) => (tracked, some (record.getD chunks))
  | .removePlayer, (tracked, record) => (tracked \ (record.getD ∅ : Finset ChunkPos), none)
  | .updatePlayer added removed, (tracked, record) =>
    (tracked, record.map fun set => (set \ removed.toFinset) ∪ added.toFinset)

def settle (operations : List AreaOperation) (player : PlayerView) : PlayerView :=
  operations.foldl (fun player operation => intended operation player) player

def Agrees (player : PlayerView) : Prop := player.1 = (player.2.getD ∅ : Finset ChunkPos)

theorem settle_append (first second : List AreaOperation) (player : PlayerView) :
    settle (first ++ second) player = settle second (settle first player) :=
  foldl_append

theorem settle_adds (chunks : List ChunkPos) (player : PlayerView) :
    settle (chunks.map .addUpdate) player = (player.1 ∪ chunks.toFinset, player.2) := by
  induction chunks generalizing player with
  | nil => simp [settle]
  | cons chunk rest ih =>
    have hstep : settle ((chunk :: rest).map .addUpdate) player =
        settle (rest.map .addUpdate) (insert chunk player.1, player.2) := rfl
    rw [hstep, ih, toFinset_cons, Finset.coe_insert, Set.insert_union, Set.union_insert]

theorem settle_removes (chunks : List ChunkPos) (player : PlayerView) :
    settle (chunks.map .removeUpdate) player = (player.1 \ chunks.toFinset, player.2) := by
  induction chunks generalizing player with
  | nil => simp [settle]
  | cons chunk rest ih =>
    have hstep : settle ((chunk :: rest).map .removeUpdate) player =
        settle (rest.map .removeUpdate) (player.1 \ {chunk}, player.2) := rfl
    rw [hstep, ih, toFinset_cons, Finset.coe_insert, Set.sdiff_sdiff, Set.singleton_union]

variable {player : PlayerView} {map : PlayerAreaMap} {chunk : ChunkPos} {set : Finset Int}
  {entityId : Int} {iteration : Finset ChunkPos → List ChunkPos} {operation : AreaOperation}

theorem agrees_join (h : Agrees player) (hnew : player.2 = none) (view : List ChunkPos) :
    Agrees (settle (onPlayerJoin view) player) := by
  obtain ⟨tracked, record⟩ := player
  obtain rfl : record = none := hnew
  obtain rfl : tracked = ∅ := by simpa [Agrees] using h
  rw [onPlayerJoin, settle_append, settle_adds]
  simp [settle, intended, Agrees]

theorem agrees_leave (h : Agrees player) : Agrees (settle onPlayerLeave player) := by
  obtain ⟨tracked, record⟩ := player
  obtain rfl : tracked = (record.getD ∅ : Finset ChunkPos) := h
  simp [onPlayerLeave, settle, intended, Agrees]

theorem agrees_viewChange (h : Agrees player) (hknown : player.2 ≠ none)
    (added removed : List ChunkPos) :
    Agrees (settle (onPlayerViewChange added removed) player) := by
  unfold onPlayerViewChange
  split_ifs
  · exact h
  · obtain ⟨tracked, record⟩ := player
    obtain ⟨set, rfl⟩ := Option.ne_none_iff_exists'.mp hknown
    obtain rfl : tracked = (set : Set ChunkPos) := h
    rw [settle_append, settle_append, settle_removes, settle_adds]
    simp [settle, intended, Agrees]

/-! ### What an operation does -/

theorem mem_tracked_insert (map : PlayerAreaMap) (chunk other : ChunkPos) (set : Finset Int)
    (entityId : Int) :
    other ∈ tracked { map with chunks := map.chunks.insert chunk set } entityId ↔
      if other = chunk then entityId ∈ set else other ∈ map.tracked entityId := by
  unfold tracked getTrackingPlayers
  rw [Set.mem_ofPred_eq, HashMap.lookup_insert_ite]
  split_ifs
  · rfl
  · rfl

theorem mem_tracked_of_lookup (h : map.chunks.lookup chunk = some set) (entityId : Int) :
    chunk ∈ map.tracked entityId ↔ entityId ∈ set := by
  rw [tracked, Set.mem_ofPred_eq, getTrackingPlayers, h]
  rfl

theorem notMem_tracked_of_lookup (h : map.chunks.lookup chunk = none) (entityId : Int) :
    chunk ∉ map.tracked entityId := by
  rw [tracked, Set.mem_ofPred_eq, getTrackingPlayers, h]
  exact Finset.notMem_empty entityId

/-- A set that is put under a key changes where a player is tracked at that chunk only. -/
theorem tracked_insert (map : PlayerAreaMap) (chunk : ChunkPos) (set : Finset Int)
    (entityId : Int) :
    tracked { map with chunks := map.chunks.insert chunk set } entityId =
      if entityId ∈ set then insert chunk (map.tracked entityId)
      else map.tracked entityId \ {chunk} := by
  ext other
  rw [mem_tracked_insert]
  split_ifs with hother hmem hmem
  · simp [hother, hmem]
  · simp [hother, hmem]
  · simp [hother]
  · simp [hother]

/-- An emptied set can be removed. -/
theorem tracked_erase (h : map.chunks.lookup chunk = some ∅) (entityId : Int) :
    tracked { map with chunks := map.chunks.erase chunk } entityId = map.tracked entityId := by
  ext other
  unfold tracked getTrackingPlayers
  rw [Set.mem_ofPred_eq, Set.mem_ofPred_eq, HashMap.lookup_erase_ite]
  split_ifs with hother
  · rw [hother, h]
    rfl
  · rfl

/-- An operation does what is intended, and leaves the rest to the operations that follow from it.
Only an insertion needs the chunk to be absent. -/
theorem settle_perform (hiteration : ∀ chunks chunk, chunk ∈ iteration chunks ↔ chunk ∈ chunks)
    (habsent : ∀ chunk, operation = .addInsert chunk → map.chunks.lookup chunk = none) :
    settle (map.perform entityId iteration operation).1
        ((map.perform entityId iteration operation).2.view entityId) =
      intended operation (map.view entityId) := by
  cases operation with
  | addUpdate chunk =>
    cases hlookup : map.chunks.lookup chunk with
    | some set =>
      simp only [perform, hlookup]
      have htracked := tracked_insert map chunk (insert entityId set) entityId
      rw [if_pos (Finset.mem_insert_self _ _)] at htracked
      exact Prod.ext htracked rfl
    | none =>
      simp only [perform, hlookup]
      rfl
  | addInsert chunk =>
    simp only [perform, habsent chunk rfl]
    have htracked := tracked_insert map chunk {entityId} entityId
    rw [if_pos (Finset.mem_singleton_self _)] at htracked
    exact Prod.ext htracked rfl
  | removeUpdate chunk =>
    cases hlookup : map.chunks.lookup chunk with
    | some set =>
      simp only [perform, hlookup]
      have htracked := tracked_insert map chunk (set.erase entityId) entityId
      rw [if_neg (Finset.notMem_erase _ _)] at htracked
      split_ifs
      · exact Prod.ext htracked rfl
      · exact Prod.ext htracked rfl
    | none =>
      simp only [perform, hlookup]
      exact Prod.ext (Set.sdiff_singleton_eq_self (notMem_tracked_of_lookup hlookup entityId)).symm
        rfl
  | removeIfEmpty chunk =>
    cases hlookup : map.chunks.lookup chunk with
    | some set =>
      simp only [perform, hlookup]
      split_ifs with hempty
      · subst hempty
        exact Prod.ext (tracked_erase hlookup entityId) rfl
      · rfl
    | none =>
      simp only [perform, hlookup]
      rfl
  | insertPlayer chunks =>
    cases hlookup : map.playerChunks.lookup entityId with
    | some set =>
      simp only [perform, hlookup, view, intended]
      rfl
    | none =>
      simp only [perform, hlookup, view, intended]
      exact Prod.ext rfl (Finmap.lookup_insert _)
  | removePlayer =>
    cases hlookup : map.playerChunks.lookup entityId with
    | some set =>
      simp only [perform, hlookup, settle_removes, view, intended]
      have hset : (iteration set).toFinset = set := by
        ext chunk
        rw [mem_toFinset, hiteration]
      rw [hset]
      exact Prod.ext rfl (Finmap.lookup_erase _ _)
    | none =>
      simp only [perform, hlookup, view, intended]
      simp [settle]
  | updatePlayer added removed =>
    cases hlookup : map.playerChunks.lookup entityId with
    | some set =>
      simp only [perform, hlookup, view, intended]
      exact Prod.ext rfl (Finmap.lookup_insert _)
    | none =>
      simp only [perform, hlookup, view, intended]
      rfl

/-- A set that says the same about a player leaves it tracked where it was. -/
theorem tracked_insert_of_iff (h : entityId ∈ set ↔ chunk ∈ map.tracked entityId) :
    tracked { map with chunks := map.chunks.insert chunk set } entityId = map.tracked entityId := by
  ext other
  rw [mem_tracked_insert]
  split_ifs with hother
  · rw [h, hother]
  · rfl

/-- An operation of one player does not change what the map has for another. -/
theorem view_perform_of_ne {other : Int} (hne : other ≠ entityId)
    (iteration : Finset ChunkPos → List ChunkPos) (operation : AreaOperation) :
    (map.perform entityId iteration operation).2.view other = map.view other := by
  cases operation with
  | addUpdate chunk =>
    cases hlookup : map.chunks.lookup chunk with
    | some set =>
      simp only [perform, hlookup]
      refine Prod.ext (tracked_insert_of_iff ?_) rfl
      rw [Finset.mem_insert, mem_tracked_of_lookup hlookup, or_iff_right hne]
    | none => simp only [perform, hlookup]
  | addInsert chunk =>
    cases hlookup : map.chunks.lookup chunk with
    | some set => simp only [perform, hlookup]
    | none =>
      simp only [perform, hlookup]
      refine Prod.ext (tracked_insert_of_iff ?_) rfl
      rw [Finset.mem_singleton, iff_false_intro hne,
        iff_false_intro (notMem_tracked_of_lookup hlookup other)]
  | removeUpdate chunk =>
    cases hlookup : map.chunks.lookup chunk with
    | some set =>
      simp only [perform, hlookup]
      refine Prod.ext (tracked_insert_of_iff ?_) rfl
      rw [Finset.mem_erase, mem_tracked_of_lookup hlookup, and_iff_right hne]
    | none => simp only [perform, hlookup]
  | removeIfEmpty chunk =>
    cases hlookup : map.chunks.lookup chunk with
    | some set =>
      simp only [perform, hlookup]
      split_ifs with hempty
      · subst hempty
        exact Prod.ext (tracked_erase hlookup other) rfl
      · rfl
    | none => simp only [perform, hlookup]
  | insertPlayer chunks =>
    cases hlookup : map.playerChunks.lookup entityId with
    | some set => simp only [perform, hlookup]
    | none =>
      simp only [perform, hlookup]
      exact Prod.ext rfl (Finmap.lookup_insert_of_ne _ hne)
  | removePlayer =>
    cases hlookup : map.playerChunks.lookup entityId with
    | some set =>
      simp only [perform, hlookup]
      exact Prod.ext rfl (Finmap.lookup_erase_ne hne)
    | none => simp only [perform, hlookup]
  | updatePlayer added removed =>
    cases hlookup : map.playerChunks.lookup entityId with
    | some set =>
      simp only [perform, hlookup]
      exact Prod.ext rfl (Finmap.lookup_insert_of_ne _ hne)
    | none => simp only [perform, hlookup]

/-- Only an insertion makes a chunk present. -/
theorem lookup_perform_eq_none (h : map.chunks.lookup chunk = none)
    (hoperation : operation ≠ .addInsert chunk) :
    (map.perform entityId iteration operation).2.chunks.lookup chunk = none := by
  have hinsert : ∀ {other : ChunkPos} {set : Finset Int}, other ≠ chunk →
      (map.chunks.insert other set).lookup chunk = none := by
    intro other set hother
    rw [HashMap.lookup_insert_ite, if_neg hother.symm, h]
  have hpresent : ∀ {other : ChunkPos} {set : Finset Int},
      map.chunks.lookup other = some set → other ≠ chunk := by
    rintro other set hother rfl
    exact Option.some_ne_none _ (hother.symm.trans h)
  cases operation with
  | addUpdate other =>
    cases hlookup : map.chunks.lookup other with
    | some set =>
      simp only [perform, hlookup]
      exact hinsert (hpresent hlookup)
    | none => simpa only [perform, hlookup] using h
  | addInsert other =>
    cases hlookup : map.chunks.lookup other with
    | some set => simpa only [perform, hlookup] using h
    | none =>
      simp only [perform, hlookup]
      exact hinsert fun heq => hoperation (heq ▸ rfl)
  | removeUpdate other =>
    cases hlookup : map.chunks.lookup other with
    | some set =>
      simp only [perform, hlookup]
      exact hinsert (hpresent hlookup)
    | none => simpa only [perform, hlookup] using h
  | removeIfEmpty other =>
    cases hlookup : map.chunks.lookup other with
    | some set =>
      simp only [perform, hlookup]
      split_ifs
      · rw [HashMap.lookup_erase_ite]
        split_ifs
        · rfl
        · exact h
      · exact h
    | none => simpa only [perform, hlookup] using h
  | insertPlayer chunks =>
    cases hlookup : map.playerChunks.lookup entityId <;> simpa only [perform, hlookup] using h
  | removePlayer =>
    cases hlookup : map.playerChunks.lookup entityId <;> simpa only [perform, hlookup] using h
  | updatePlayer added removed =>
    cases hlookup : map.playerChunks.lookup entityId <;> simpa only [perform, hlookup] using h

/-- An insertion follows only from the update that found the chunk absent. -/
theorem mem_perform_addInsert
    (h : .addInsert chunk ∈ (map.perform entityId iteration operation).1) :
    (map.perform entityId iteration operation).1 = [.addInsert chunk] ∧
      (map.perform entityId iteration operation).2.chunks.lookup chunk = none := by
  cases operation with
  | addUpdate other =>
    cases hlookup : map.chunks.lookup other with
    | some set => simp [perform, hlookup] at h
    | none =>
      simp only [perform, hlookup, mem_singleton, AreaOperation.addInsert.injEq] at h ⊢
      subst h
      exact ⟨rfl, hlookup⟩
  | addInsert other =>
    cases hlookup : map.chunks.lookup other <;> simp [perform, hlookup] at h
  | removeUpdate other =>
    cases hlookup : map.chunks.lookup other with
    | some set =>
      simp only [perform, hlookup] at h
      split_ifs at h
      · simp at h
      · simp at h
    | none => simp [perform, hlookup] at h
  | removeIfEmpty other =>
    cases hlookup : map.chunks.lookup other <;> simp [perform, hlookup] at h
  | insertPlayer chunks =>
    cases hlookup : map.playerChunks.lookup entityId <;> simp [perform, hlookup] at h
  | removePlayer =>
    cases hlookup : map.playerChunks.lookup entityId <;> simp [perform, hlookup] at h
  | updatePlayer added removed =>
    cases hlookup : map.playerChunks.lookup entityId <;> simp [perform, hlookup] at h

end PlayerAreaMap

/-! ### Whole runs -/

namespace AreaSystem

open PlayerAreaMap

/-- Every player's call will leave it tracked where it is recorded. -/
structure Settled (system : AreaSystem) : Prop where
  agrees : ∀ entityId, Agrees (settle (system.calls entityId) (system.map.view entityId))
  inserts_first : ∀ entityId chunk, .addInsert chunk ∉ (system.calls entityId).tail
  absent : ∀ entityId chunk, system.Inserting entityId chunk →
    system.map.chunks.lookup chunk = none

theorem initial_settled : Settled initial where
  agrees entityId := by
    have htracked : new.tracked entityId = ∅ := by
      ext chunk
      exact iff_false_intro (notMem_tracked_of_lookup (Finmap.lookup_empty chunk) entityId)
    have hrecord : new.playerChunks.lookup entityId = none := Finmap.lookup_empty entityId
    change new.tracked entityId = ((new.playerChunks.lookup entityId).getD ∅ : Finset ChunkPos)
    rw [htracked, hrecord]
    simp
  inserts_first entityId chunk := not_mem_nil
  absent entityId chunk h := absurd h (Option.some_ne_none _).symm

variable {system : AreaSystem} {entityId : Int}

/-- A call that starts agrees if its operations would lead to agreement. -/
theorem Settled.begin (h : Settled system) {operations : List AreaOperation}
    (hagrees : Agrees (settle operations (system.map.view entityId)))
    (hoperations : ∀ chunk, .addInsert chunk ∉ operations) :
    Settled (system.begin entityId operations) := by
  have hcalls : ∀ other, other ≠ entityId →
      (system.begin entityId operations).calls other = system.calls other :=
    fun other hother => update_of_ne hother _ _
  have hown : (system.begin entityId operations).calls entityId = operations :=
    update_self _ _ _
  refine ⟨fun other => ?_, fun other chunk => ?_, fun other chunk hinserting => ?_⟩
  · by_cases hother : other = entityId
    · subst hother
      rw [hown]
      exact hagrees
    · rw [hcalls other hother]
      exact h.agrees other
  · by_cases hother : other = entityId
    · subst hother
      rw [hown]
      exact fun hmem => hoperations chunk (mem_of_mem_tail hmem)
    · rw [hcalls other hother]
      exact h.inserts_first other chunk
  · by_cases hother : other = entityId
    · subst hother
      rw [Inserting, hown] at hinserting
      exact absurd (mem_of_head? hinserting) (hoperations chunk)
    · rw [Inserting, hcalls other hother] at hinserting
      exact h.absent other chunk hinserting

/-- A step of one call leaves the other players as they are. -/
theorem Settled.next (h : Settled system) (hoverlap : system.NoOverlap)
    {iteration : Finset ChunkPos → List ChunkPos} {operation : AreaOperation}
    {rest : List AreaOperation}
    (hiteration : ∀ chunks chunk, chunk ∈ iteration chunks ↔ chunk ∈ chunks)
    (hnext : system.calls entityId = operation :: rest) :
    Settled (system.next entityId iteration operation rest) := by
  have hcalls : ∀ other, other ≠ entityId →
      (system.next entityId iteration operation rest).calls other = system.calls other :=
    fun other hother => update_of_ne hother _ _
  have hown : (system.next entityId iteration operation rest).calls entityId =
      (system.map.perform entityId iteration operation).1 ++ rest := update_self _ _ _
  have hrest : ∀ chunk, .addInsert chunk ∉ rest := by
    intro chunk hmem
    have hfirst := h.inserts_first entityId chunk
    rw [hnext] at hfirst
    exact hfirst hmem
  have habsent : ∀ chunk, operation = .addInsert chunk →
      system.map.chunks.lookup chunk = none := by
    rintro chunk rfl
    refine h.absent entityId chunk ?_
    rw [Inserting, hnext]
    rfl
  refine ⟨fun other => ?_, fun other chunk => ?_, fun other chunk hinserting => ?_⟩
  · by_cases hother : other = entityId
    · subst hother
      have hagrees := h.agrees other
      rw [hnext] at hagrees
      rw [hown, settle_append]
      exact (settle_perform hiteration habsent).symm ▸ hagrees
    · rw [hcalls other hother]
      have hview : (system.next entityId iteration operation rest).map.view other =
          system.map.view other := view_perform_of_ne hother iteration operation
      rw [hview]
      exact h.agrees other
  · by_cases hother : other = entityId
    · subst hother
      rw [hown]
      intro hmem
      by_cases hnew : .addInsert chunk ∈ (system.map.perform other iteration operation).1
      · rw [(mem_perform_addInsert hnew).1] at hmem
        exact hrest chunk hmem
      · rcases mem_append.mp (mem_of_mem_tail hmem) with hfirst | hlater
        · exact hnew hfirst
        · exact hrest chunk hlater
    · rw [hcalls other hother]
      exact h.inserts_first other chunk
  · by_cases hother : other = entityId
    · subst hother
      rw [Inserting, hown] at hinserting
      rcases mem_append.mp (mem_of_head? hinserting) with hfirst | hlater
      · exact (mem_perform_addInsert hfirst).2
      · exact absurd hlater (hrest chunk)
    · rw [Inserting, hcalls other hother] at hinserting
      refine lookup_perform_eq_none (h.absent other chunk hinserting) ?_
      -- Two players would be about to insert the chunk.
      rintro rfl
      have hboth : system.Inserting entityId chunk := by
        rw [Inserting, hnext]
        rfl
      exact hother (hoverlap other entityId chunk hinserting hboth)

theorem Reached.noOverlap (h : Reached Orderly system) : system.NoOverlap := by
  cases h with
  | initial => exact fun first second chunk hfirst => absurd hfirst (Option.some_ne_none _).symm
  | step _ _ hcondition => exact hcondition.2

theorem onPlayerJoin_inserts (view : List ChunkPos) (chunk : ChunkPos) :
    .addInsert chunk ∉ onPlayerJoin view := by
  simp [onPlayerJoin]

theorem onPlayerViewChange_inserts (added removed : List ChunkPos) (chunk : ChunkPos) :
    .addInsert chunk ∉ onPlayerViewChange added removed := by
  unfold onPlayerViewChange
  split_ifs <;> simp

theorem Reached.settled (h : Reached Orderly system) : Settled system := by
  induction h with
  | initial => exact initial_settled
  | @step system after event hreached hstep hcondition ih =>
    have hidleAgrees : ∀ {entityId : Int}, system.calls entityId = [] →
        Agrees (system.map.view entityId) := by
      intro entityId hidle
      have hagrees := ih.agrees entityId
      rwa [hidle] at hagrees
    cases hstep with
    | join view hidle =>
      exact ih.begin (agrees_join (hidleAgrees hidle) hcondition.1 view)
        (onPlayerJoin_inserts view)
    | viewChange added removed hidle =>
      exact ih.begin (agrees_viewChange (hidleAgrees hidle) hcondition.1 added removed)
        (onPlayerViewChange_inserts added removed)
    | leave hidle =>
      exact ih.begin (agrees_leave (hidleAgrees hidle)) (by simp [onPlayerLeave])
    | perform hiteration hnext => exact ih.next hreached.noOverlap hiteration hnext

/-- When calls are made in order and no two players insert the same chunk at once, a player is
tracked in exactly its recorded chunks whenever all calls are finished. -/
theorem reached_tracking {system : AreaSystem} (h : Reached Orderly system)
    (hfinished : ∀ entityId, system.calls entityId = []) (entityId : Int) (chunk : ChunkPos) :
    entityId ∈ system.map.getTrackingPlayers chunk ↔
      chunk ∈ system.map.recordedChunks entityId := by
  have hagrees := h.settled.agrees entityId
  rw [hfinished entityId] at hagrees
  have htracked : system.map.tracked entityId =
      (system.map.recordedChunks entityId : Set ChunkPos) :=
    hagrees
  have hmem : chunk ∈ system.map.tracked entityId ↔ chunk ∈ system.map.recordedChunks entityId := by
    rw [htracked, Finset.mem_coe]
  exact hmem

/-! ### Two players that join at once -/

section JoinTogether

def spawnChunk : ChunkPos := ⟨0, 0⟩

noncomputable def anyOrder (chunks : Finset ChunkPos) : List ChunkPos := chunks.toList

theorem mem_anyOrder (chunks : Finset ChunkPos) (chunk : ChunkPos) :
    chunk ∈ anyOrder chunks ↔ chunk ∈ chunks := Finset.mem_toList

def bothJoining : AreaSystem :=
  (initial.begin 1 (onPlayerJoin [spawnChunk])).begin 2 (onPlayerJoin [spawnChunk])

noncomputable def bothInserting : AreaSystem :=
  (bothJoining.next 1 anyOrder (.addUpdate spawnChunk) [.insertPlayer {spawnChunk}]).next 2
    anyOrder (.addUpdate spawnChunk) [.insertPlayer {spawnChunk}]

noncomputable def bothInserted : AreaSystem :=
  (bothInserting.next 1 anyOrder (.addInsert spawnChunk) [.insertPlayer {spawnChunk}]).next 2
    anyOrder (.addInsert spawnChunk) [.insertPlayer {spawnChunk}]

noncomputable def bothJoined : AreaSystem :=
  (bothInserted.next 1 anyOrder (.insertPlayer {spawnChunk}) []).next 2
    anyOrder (.insertPlayer {spawnChunk}) []

theorem joinTogether_losesPlayer :
    ∃ system, Reached InOrder system ∧ (∀ entityId, system.calls entityId = []) ∧
      ∃ entityId chunk, chunk ∈ system.map.recordedChunks entityId ∧
        entityId ∉ system.map.getTrackingPlayers chunk := by
  have hjoining : Reached InOrder bothJoining :=
    (Reached.initial.step (Step.join [spawnChunk] rfl) rfl).step (Step.join [spawnChunk] rfl) rfl
  have hinserting : Reached InOrder bothInserting :=
    (hjoining.step (Step.perform mem_anyOrder rfl) trivial).step
      (Step.perform mem_anyOrder rfl) trivial
  have hinserted : Reached InOrder bothInserted :=
    (hinserting.step (Step.perform mem_anyOrder rfl) trivial).step
      (Step.perform mem_anyOrder rfl) trivial
  have hjoined : Reached InOrder bothJoined :=
    (hinserted.step (Step.perform mem_anyOrder rfl) trivial).step
      (Step.perform mem_anyOrder rfl) trivial
  refine ⟨bothJoined, hjoined, fun entityId => ?_, 2, spawnChunk, ?_, ?_⟩
  · by_cases hfirst : entityId = 1
    · subst hfirst
      rfl
    · by_cases hsecond : entityId = 2
      · subst hsecond
        rfl
      · simp [bothJoined, bothInserted, bothInserting, bothJoining, next, begin, initial, hfirst,
          hsecond]
  · have hrecorded : bothJoined.map.recordedChunks 2 = {spawnChunk} := rfl
    rw [hrecorded]
    exact Finset.mem_singleton_self spawnChunk
  · have htracking : bothJoined.map.getTrackingPlayers spawnChunk = {1} := rfl
    rw [htracking]
    decide

/-- Nobody but the first player is about to insert a chunk. -/
def OnlyFirst (system : AreaSystem) : Prop :=
  ∀ other, other ≠ 1 → ∀ chunk, ¬ system.Inserting other chunk

theorem OnlyFirst.noOverlap {system : AreaSystem} (h : system.OnlyFirst) : system.NoOverlap := by
  have honly : ∀ entityId chunk, system.Inserting entityId chunk → entityId = 1 :=
    fun entityId chunk hinserting => by_contra fun hother => h entityId hother chunk hinserting
  intro first second chunk hfirst hsecond
  rw [honly first chunk hfirst, honly second chunk hsecond]

theorem OnlyFirst.update {system : AreaSystem} (h : system.OnlyFirst) {map : PlayerAreaMap}
    {entityId : Int} {operations : List AreaOperation}
    (hhead : entityId = 1 ∨ ∀ chunk, operations.head? ≠ some (.addInsert chunk)) :
    OnlyFirst ⟨map, Function.update system.calls entityId operations⟩ := by
  intro other hother chunk hinserting
  change (Function.update system.calls entityId operations other).head? = _ at hinserting
  by_cases hsame : other = entityId
  · subst hsame
    rw [update_self] at hinserting
    exact hhead.resolve_left hother chunk hinserting
  · rw [update_of_ne hsame] at hinserting
    exact h other hother chunk hinserting

noncomputable def firstInserting : AreaSystem :=
  bothJoining.next 1 anyOrder (.addUpdate spawnChunk) [.insertPlayer {spawnChunk}]

noncomputable def firstInserted : AreaSystem :=
  firstInserting.next 1 anyOrder (.addInsert spawnChunk) [.insertPlayer {spawnChunk}]

noncomputable def secondAdded : AreaSystem :=
  firstInserted.next 2 anyOrder (.addUpdate spawnChunk) [.insertPlayer {spawnChunk}]

noncomputable def firstJoined : AreaSystem :=
  secondAdded.next 1 anyOrder (.insertPlayer {spawnChunk}) []

noncomputable def bothTracked : AreaSystem :=
  firstJoined.next 2 anyOrder (.insertPlayer {spawnChunk}) []

theorem reached_tracking_bothTracked :
    Reached Orderly bothTracked ∧ 1 ∈ bothTracked.map.getTrackingPlayers spawnChunk ∧
      2 ∈ bothTracked.map.getTrackingPlayers spawnChunk := by
  have hinitial : OnlyFirst initial := fun _ _ _ h => nomatch h
  have hfirst : OnlyFirst (initial.begin 1 (onPlayerJoin [spawnChunk])) :=
    hinitial.update (.inl rfl)
  have hjoining : OnlyFirst bothJoining := hfirst.update (.inr fun _ h => nomatch h)
  have hinserting : OnlyFirst firstInserting := hjoining.update (.inl rfl)
  have hinserted : OnlyFirst firstInserted := hinserting.update (.inl rfl)
  have hadded : OnlyFirst secondAdded := hinserted.update (.inr fun _ h => nomatch h)
  have hjoined : OnlyFirst firstJoined := hadded.update (.inl rfl)
  have htracked : OnlyFirst bothTracked := hjoined.update (.inr fun _ h => nomatch h)
  have hreached : Reached Orderly bothTracked :=
    ((((((Reached.initial.step (Step.join [spawnChunk] rfl) ⟨rfl, hfirst.noOverlap⟩).step
      (Step.join [spawnChunk] rfl) ⟨rfl, hjoining.noOverlap⟩).step
      (Step.perform mem_anyOrder rfl) ⟨trivial, hinserting.noOverlap⟩).step
      (Step.perform mem_anyOrder rfl) ⟨trivial, hinserted.noOverlap⟩).step
      (Step.perform mem_anyOrder rfl) ⟨trivial, hadded.noOverlap⟩).step
      (Step.perform mem_anyOrder rfl) ⟨trivial, hjoined.noOverlap⟩).step
      (Step.perform mem_anyOrder rfl) ⟨trivial, htracked.noOverlap⟩
  have hfinished : ∀ entityId, bothTracked.calls entityId = [] := by
    intro entityId
    by_cases hfirst : entityId = 1
    · subst hfirst
      rfl
    · by_cases hsecond : entityId = 2
      · subst hsecond
        rfl
      · simp [bothTracked, firstJoined, secondAdded, firstInserted, firstInserting,
          bothJoining, next, begin, initial, hfirst, hsecond]
  exact ⟨hreached,
    (reached_tracking hreached hfinished 1 spawnChunk).mpr (Finset.mem_singleton_self _),
    (reached_tracking hreached hfinished 2 spawnChunk).mpr (Finset.mem_singleton_self _)⟩

end JoinTogether

end AreaSystem

end Steel

import Steel.World.PlayerMap

/-!
# Both indexes lead to the same slots

A change is one of three, and each keeps the indexes and the order in step. A slot keeps its keys
for as long as it is registered.
-/

namespace Steel.PlayerMap

open List

variable {P U : Type} [DecidableEq U] {keys : PlayerKeys P U} {map after : PlayerMap P U}
  {changes : List (Change P U)} {change : Change P U}

/-! ### What a call can do -/

inductive Made (keys : PlayerKeys P U) (map : PlayerMap P U) : Change P U → PlayerMap P U → Prop
  | inserted (player : P) (huuid : map.byUuid.lookup (keys.uuid player) = none)
      (hentityId : map.byEntityId.lookup (keys.entityId player) = none) :
      Made keys map (.inserted player)
        { slots := map.slots ++ [player]
          byUuid := map.byUuid.insert (keys.uuid player) map.slots.length
          byEntityId := map.byEntityId.insert (keys.entityId player) map.slots.length
          order := map.order ++ [keys.uuid player] }
  | removed (uuid : U) (slot : ℕ) (player : P) (hlookup : map.byUuid.lookup uuid = some slot)
      (hslot : map.slots[slot]? = some player) :
      Made keys map (.removed uuid) (map.unregister keys uuid slot player)
  | replaced (expected replacement : P) (slot : ℕ)
      (huuid : keys.uuid replacement = keys.uuid expected)
      (hentityId : keys.entityId replacement = keys.entityId expected)
      (hlookup : map.byUuid.lookup (keys.uuid expected) = some slot)
      (hslot : map.slots[slot]? = some expected) :
      Made keys map (.replaced expected replacement)
        { map with slots := map.slots.set slot replacement }

variable {player expected replacement : P} {removed : Option P} {uuid : U}

theorem insert_cases {inserted : Bool} (h : map.insert keys player = some (inserted, after)) :
    (inserted = false ∧ after = map) ∨
      (inserted = true ∧ Made keys map (.inserted player) after) := by
  unfold insert at h
  split_ifs at h with huuid hentityId
  · cases h
    exact .inl ⟨rfl, rfl⟩
  · cases h
    rw [Finmap.mem_iff, ← Option.ne_none_iff_exists', not_not] at huuid hentityId
    exact .inr ⟨rfl, .inserted player huuid hentityId⟩

theorem removeSync_cases (h : map.removeSync keys uuid = (removed, after)) :
    (removed = none ∧ after = map) ∨
      (removed.isSome = true ∧ Made keys map (.removed uuid) after) := by
  unfold removeSync at h
  split at h
  case h_1 =>
    cases h
    exact .inl ⟨rfl, rfl⟩
  case h_2 slot hlookup =>
    split at h
    case h_1 =>
      cases h
      exact .inl ⟨rfl, rfl⟩
    case h_2 player hslot =>
      cases h
      exact .inr ⟨rfl, .removed uuid slot player hlookup hslot⟩

/-! ### The indexes -/

/-- Each index leads to slots that the other leads to as well. -/
structure Indexed (keys : PlayerKeys P U) (map : PlayerMap P U) : Prop where
  of_uuid : ∀ uuid slot, map.byUuid.lookup uuid = some slot → ∃ player,
    map.slots[slot]? = some player ∧ keys.uuid player = uuid ∧
      map.byEntityId.lookup (keys.entityId player) = some slot
  of_entityId : ∀ entityId slot, map.byEntityId.lookup entityId = some slot → ∃ player,
    map.slots[slot]? = some player ∧ keys.entityId player = entityId ∧
      map.byUuid.lookup (keys.uuid player) = some slot

theorem Made.indexed (hmade : Made keys map change after) (h : Indexed keys map) :
    Indexed keys after := by
  cases hmade with
  | inserted player huuid hentityId =>
    have hnew : (map.slots ++ [player])[map.slots.length]? = some player := getElem?_concat_length
    have hold : ∀ {slot : ℕ} {other : P}, map.slots[slot]? = some other →
        (map.slots ++ [player])[slot]? = some other := fun hslot => by
      rw [getElem?_append_left (List.getElem?_eq_some_iff.mp hslot).1, hslot]
    constructor
    · intro uuid slot hlookup
      simp only [HashMap.lookup_insert_ite] at hlookup ⊢
      split_ifs at hlookup with heq
      · cases hlookup
        exact ⟨player, hnew, heq.symm, if_pos rfl⟩
      · obtain ⟨other, hslot, hkey, hother⟩ := h.of_uuid uuid slot hlookup
        refine ⟨other, hold hslot, hkey, ?_⟩
        rw [if_neg, hother]
        intro heq
        rw [heq, hentityId] at hother
        cases hother
    · intro entityId slot hlookup
      simp only [HashMap.lookup_insert_ite] at hlookup ⊢
      split_ifs at hlookup with heq
      · cases hlookup
        exact ⟨player, hnew, heq.symm, if_pos rfl⟩
      · obtain ⟨other, hslot, hkey, hother⟩ := h.of_entityId entityId slot hlookup
        refine ⟨other, hold hslot, hkey, ?_⟩
        rw [if_neg, hother]
        intro heq
        rw [heq, huuid] at hother
        cases hother
  | removed uuid slot player hlookup hslot =>
    obtain ⟨player', hslot', rfl, hentity⟩ := h.of_uuid uuid slot hlookup
    obtain rfl := Option.some.inj (hslot'.symm.trans hslot)
    constructor
    · intro uuid other hother
      simp only [unregister, if_pos hentity, HashMap.lookup_erase_ite] at hother ⊢
      split_ifs at hother with hne
      obtain ⟨player, hplayer, hkey, hindex⟩ := h.of_uuid uuid other hother
      refine ⟨player, hplayer, hkey, ?_⟩
      rw [if_neg, hindex]
      intro heq
      rw [heq, hentity] at hindex
      cases hindex
      exact hne (hkey.symm.trans (congrArg keys.uuid (Option.some.inj (hplayer.symm.trans hslot))))
    · intro entityId other hother
      simp only [unregister, if_pos hentity, HashMap.lookup_erase_ite] at hother ⊢
      split_ifs at hother with hne
      obtain ⟨player, hplayer, hkey, hindex⟩ := h.of_entityId entityId other hother
      refine ⟨player, hplayer, hkey, ?_⟩
      rw [if_neg, hindex]
      intro heq
      rw [heq, hlookup] at hindex
      cases hindex
      exact hne
        (hkey.symm.trans (congrArg keys.entityId (Option.some.inj (hplayer.symm.trans hslot))))
  | replaced expected replacement slot huuid hentityId hlookup hslot =>
    have hset : ∀ {other : ℕ} {player : P}, map.slots[other]? = some player →
        ∃ player', (map.slots.set slot replacement)[other]? = some player' ∧
          keys.uuid player' = keys.uuid player ∧
            keys.entityId player' = keys.entityId player := by
      intro other player hplayer
      by_cases heq : slot = other
      · subst heq
        obtain rfl := Option.some.inj (hplayer.symm.trans hslot)
        refine ⟨replacement, ?_, huuid, hentityId⟩
        rw [getElem?_set_self (List.getElem?_eq_some_iff.mp hslot).1]
      · exact ⟨player, by rw [getElem?_set_ne heq, hplayer], rfl, rfl⟩
    constructor
    · intro uuid other hother
      obtain ⟨player, hplayer, hkey, hindex⟩ := h.of_uuid uuid other hother
      obtain ⟨player', hplayer', huuid', hentityId'⟩ := hset hplayer
      exact ⟨player', hplayer', huuid'.trans hkey, by rw [hentityId', hindex]⟩
    · intro entityId other hother
      obtain ⟨player, hplayer, hkey, hindex⟩ := h.of_entityId entityId other hother
      obtain ⟨player', hplayer', huuid', hentityId'⟩ := hset hplayer
      exact ⟨player', hplayer', hentityId'.trans hkey, by rw [huuid', hindex]⟩

theorem getByUuid_eq_some : map.getByUuid uuid = some player ↔
      ∃ slot, map.byUuid.lookup uuid = some slot ∧ map.slots[slot]? = some player := by
  rw [getByUuid, Option.bind_eq_some_iff]

/-- Who is found by the one key is found by the other. -/
theorem Indexed.getByEntityId_eq (h : Indexed keys map)
    (hplayer : map.getByUuid (keys.uuid player) = some player) :
    map.getByEntityId (keys.entityId player) = some player := by
  obtain ⟨slot, hlookup, hslot⟩ := getByUuid_eq_some.mp hplayer
  obtain ⟨found, hfound, -, hindex⟩ := h.of_uuid _ slot hlookup
  obtain rfl := Option.some.inj (hfound.symm.trans hslot)
  rw [getByEntityId, hindex, Option.bind_some, hslot]

/-! ### The order -/

theorem dedup_concat (uuids : List U) (uuid : U) :
    (uuids ++ [uuid]).dedup = uuids.dedup.filter (· ≠ uuid) ++ [uuid] := by
  induction uuids with
  | nil => rfl
  | cons first rest ih =>
    by_cases heq : first = uuid
    · have hmem : first ∈ rest ++ [uuid] := by simp [heq]
      rw [cons_append, dedup_cons_of_mem hmem, ih]
      by_cases hrest : first ∈ rest
      · rw [dedup_cons_of_mem hrest]
      · rw [dedup_cons_of_notMem hrest, filter_cons_of_neg (by simpa using heq)]
    · by_cases hrest : first ∈ rest
      · rw [cons_append, dedup_cons_of_mem (mem_append_left _ hrest), dedup_cons_of_mem hrest, ih]
      · have hmem : first ∉ rest ++ [uuid] := by simp [hrest, heq]
        rw [cons_append, dedup_cons_of_notMem hmem, dedup_cons_of_notMem hrest,
          filter_cons_of_pos (by simpa using heq), ih, cons_append]

omit [DecidableEq U] in
theorem insertions_append (changes : List (Change P U)) (change : Change P U) :
    insertions keys (changes ++ [change]) =
      insertions keys changes ++ insertions keys [change] := filterMap_append

/-- The order is that of the last insertions of the keys that are present. -/
structure Ordered (keys : PlayerKeys P U) (changes : List (Change P U)) (map : PlayerMap P U) :
    Prop where
  order : map.order = (insertions keys changes).dedup.filter (· ∈ map.byUuid)
  inserted : ∀ uuid ∈ map.byUuid, uuid ∈ insertions keys changes

/-- Every change keeps the order of the last insertions. -/
theorem Made.ordered (hmade : Made keys map change after) (h : Ordered keys changes map) :
    Ordered keys (changes ++ [change]) after := by
  obtain ⟨horder, hinserted⟩ := h
  cases hmade with
  | inserted player huuid hentityId =>
    have hinsertions : insertions keys (changes ++ [.inserted player]) =
        insertions keys changes ++ [keys.uuid player] := insertions_append _ _
    constructor
    · change map.order ++ [keys.uuid player] =
        (insertions keys (changes ++ [.inserted player])).dedup.filter
          (· ∈ map.byUuid.insert (keys.uuid player) map.slots.length)
      rw [hinsertions, dedup_concat, filter_append, filter_filter, horder]
      congr 1
      · refine filter_congr fun uuid _ => ?_
        have hnew : keys.uuid player ∉ map.byUuid := by
          rw [Finmap.mem_iff, huuid]
          simp
        simp only [Finmap.mem_insert]
        by_cases heq : uuid = keys.uuid player <;> simp [heq, hnew]
      · simp
    · intro uuid hmem
      rw [hinsertions, mem_append, mem_singleton]
      exact (Finmap.mem_insert.mp hmem).symm.imp_left (hinserted uuid)
  | removed uuid slot player hlookup hslot =>
    have hinsertions : insertions keys (changes ++ [.removed uuid]) = insertions keys changes := by
      rw [insertions_append]
      exact append_nil _
    constructor
    · rw [hinsertions, unregister, horder, filter_filter]
      refine filter_congr fun other _ => ?_
      simp only [Finmap.mem_erase, Bool.decide_and]
    · intro other hmem
      rw [hinsertions]
      exact hinserted other (Finmap.mem_erase.mp hmem).2
  | replaced expected replacement slot huuid hentityId hlookup hslot =>
    have hinsertions : insertions keys (changes ++ [.replaced expected replacement]) =
        insertions keys changes := by
      rw [insertions_append]
      exact append_nil _
    exact ⟨by rw [hinsertions]; exact horder, by rw [hinsertions]; exact hinserted⟩

/-! ### Registered players -/

theorem Made.registered (hmade : Made keys map (.replaced expected replacement) after) :
    map.getByUuid (keys.uuid expected) = some expected := by
  cases hmade with
  | replaced _ _ slot huuid hentityId hlookup hslot =>
    exact getByUuid_eq_some.mpr ⟨slot, hlookup, hslot⟩

theorem Made.not_registered (hmade : Made keys map (.replaced expected replacement) after)
    (hne : replacement ≠ expected) : after.getByUuid (keys.uuid expected) ≠ some expected := by
  cases hmade with
  | replaced _ _ slot huuid hentityId hlookup hslot =>
    rw [getByUuid, hlookup, Option.bind_some,
      getElem?_set_self (List.getElem?_eq_some_iff.mp hslot).1]
    exact fun heq => hne (Option.some.inj heq)

/-- Who is not registered stays so until a change registers them. -/
theorem Made.keeps_out (hmade : Made keys map change after) (h : Indexed keys map)
    (hchange : ¬ change.Registers player) (hout : map.getByUuid (keys.uuid player) ≠ some player) :
    after.getByUuid (keys.uuid player) ≠ some player := by
  refine fun hin => hout ?_
  obtain ⟨slot, hlookup, hslot⟩ := getByUuid_eq_some.mp hin
  cases hmade with
  | inserted other huuid hentityId =>
    rw [HashMap.lookup_insert_ite] at hlookup
    split_ifs at hlookup with heq
    · cases hlookup
      rw [getElem?_concat_length] at hslot
      exact absurd (Option.some.inj hslot) hchange
    · obtain ⟨found, hfound, -, -⟩ := h.of_uuid _ slot hlookup
      rw [getElem?_append_left (List.getElem?_eq_some_iff.mp hfound).1] at hslot
      exact getByUuid_eq_some.mpr ⟨slot, hlookup, hslot⟩
  | removed uuid other removed hother hremoved =>
    rw [unregister, HashMap.lookup_erase_ite] at hlookup
    split_ifs at hlookup with heq
    exact getByUuid_eq_some.mpr ⟨slot, hlookup, hslot⟩
  | replaced expected replacement other huuid hentityId hother hexpected =>
    rw [getElem?_set] at hslot
    split_ifs at hslot with heq
    · exact absurd (Option.some.inj hslot) hchange
    · exact getByUuid_eq_some.mpr ⟨slot, hlookup, hslot⟩

/-! ### Runs -/

variable [DecidableEq P]

/-- Only the player of the handle is removed. -/
theorem removePlayerSync_cases (h : map.removePlayerSync keys player = (removed, after)) :
    (removed = none ∧ after = map) ∨
      (removed = some player ∧ map.getByUuid (keys.uuid player) = some player ∧
        Made keys map (.removed (keys.uuid player)) after) := by
  unfold removePlayerSync at h
  split at h
  case h_1 =>
    cases h
    exact .inl ⟨rfl, rfl⟩
  case h_2 slot hlookup =>
    split_ifs at h with hslot
    · cases h
      refine .inr ⟨rfl, ?_, .removed _ slot player hlookup hslot⟩
      rw [getByUuid, hlookup, Option.bind_some, hslot]
    · cases h
      exact .inl ⟨rfl, rfl⟩

theorem replacePlayer_cases {replaced : Bool}
    (h : map.replacePlayer keys expected replacement = (replaced, after)) :
    (replaced = false ∧ after = map) ∨
      (replaced = true ∧ Made keys map (.replaced expected replacement) after) := by
  unfold replacePlayer replaceSlot at h
  split_ifs at h with hkeys
  · cases h
    exact .inl ⟨rfl, rfl⟩
  split at h
  case h_1 =>
    cases h
    exact .inl ⟨rfl, rfl⟩
  case h_2 slot hlookup =>
    split_ifs at h with hentity hslot
    · cases h
      rw [not_or, not_not, not_not] at hkeys
      exact .inr ⟨rfl, .replaced expected replacement slot hkeys.1 hkeys.2 hlookup hslot⟩
    · cases h
      exact .inl ⟨rfl, rfl⟩
    · cases h
      exact .inl ⟨rfl, rfl⟩

/-- A rule for runs: what holds at first and is kept by every change. -/
theorem Reached.induct {motive : List (Change P U) → PlayerMap P U → Prop}
    (hnew : motive [] PlayerMap.new)
    (hmade : ∀ changes map change after, Reached keys changes map → motive changes map →
      Made keys map change after → motive (changes ++ [change]) after)
    (h : Reached keys changes map) : motive changes map := by
  induction h with
  | new => exact hnew
  | insert hreached hinsert ih =>
    obtain ⟨rfl, rfl⟩ | ⟨rfl, hchange⟩ := insert_cases hinsert
    · simpa using ih
    · exact hmade _ _ _ _ hreached ih hchange
  | remove hreached hremove ih =>
    obtain ⟨rfl, rfl⟩ | ⟨hsome, hchange⟩ := removeSync_cases hremove
    · simpa using ih
    · rw [if_pos hsome]
      exact hmade _ _ _ _ hreached ih hchange
  | removePlayer hreached hremove ih =>
    obtain ⟨rfl, rfl⟩ | ⟨rfl, -, hchange⟩ := removePlayerSync_cases hremove
    · simpa using ih
    · exact hmade _ _ _ _ hreached ih hchange
  | replace hreached hreplace ih =>
    obtain ⟨rfl, rfl⟩ | ⟨rfl, hchange⟩ := replacePlayer_cases hreplace
    · simpa using ih
    · exact hmade _ _ _ _ hreached ih hchange

theorem Reached.indexed (h : Reached keys changes map) : Indexed keys map := by
  refine h.induct ⟨fun _ _ hlookup => ?_, fun _ _ hlookup => ?_⟩ fun _ _ _ _ _ ih hmade =>
    hmade.indexed ih
  · cases hlookup
  · cases hlookup

theorem Reached.ordered (h : Reached keys changes map) : Ordered keys changes map :=
  h.induct ⟨rfl, fun _ hmem => absurd hmem Finmap.notMem_empty⟩ fun _ _ _ _ _ ih hmade =>
    hmade.ordered ih

/-- A stale handle does not remove the player that took its place. -/
theorem Indexed.removePlayerSync_keeps (h : Indexed keys map) {other : P}
    (hother : map.getByUuid (keys.uuid other) = some other) (hne : other ≠ player) :
    (map.removePlayerSync keys player).2.getByUuid (keys.uuid other) = some other ∧
      (map.removePlayerSync keys player).2.getByEntityId (keys.entityId other) = some other := by
  obtain ⟨-, heq⟩ | ⟨-, hplayer, hmade⟩ :=
    removePlayerSync_cases (Prod.mk.eta (p := map.removePlayerSync keys player)).symm
  · rw [heq]
    exact ⟨hother, h.getByEntityId_eq hother⟩
  · have hkept : (map.removePlayerSync keys player).2.getByUuid (keys.uuid other) = some other := by
      have huuid : keys.uuid other ≠ keys.uuid player := fun heq => by
        rw [heq, hplayer] at hother
        exact hne (Option.some.inj hother).symm
      generalize (map.removePlayerSync keys player).2 = after at hmade ⊢
      cases hmade
      rw [getByUuid, unregister, HashMap.lookup_erase_ite, if_neg huuid]
      exact hother
    exact ⟨hkept, (hmade.indexed h).getByEntityId_eq hkept⟩

theorem Reached.last (h : Reached keys changes after) {prior : List (Change P U)}
    (hlast : changes = prior ++ [change]) :
    ∃ map, Reached keys prior map ∧ Made keys map change after := by
  refine h.induct (motive := fun changes after => changes = prior ++ [change] →
    ∃ map, Reached keys prior map ∧ Made keys map change after) ?_ ?_ hlast
  · exact fun hlast => absurd hlast.symm (append_ne_nil_of_right_ne_nil _ (cons_ne_nil _ _))
  · intro changes map last after hreached _ hmade hlast
    obtain ⟨rfl, hsame⟩ := append_inj' hlast rfl
    cases hsame
    exact ⟨map, hreached, hmade⟩

/-- A replaced player is out until a change registers it again. -/
theorem Reached.replaced_out (h : Reached keys changes map) {before between : List (Change P U)}
    (hne : replacement ≠ expected)
    (hchanges : changes = before ++ .replaced expected replacement :: between)
    (hbetween : ∀ change ∈ between, ¬ change.Registers expected) :
    map.getByUuid (keys.uuid expected) ≠ some expected := by
  induction between using reverseRecOn generalizing changes map with
  | nil =>
    obtain ⟨_, -, hmade⟩ := h.last hchanges
    exact hmade.not_registered hne
  | append_singleton between change ih =>
    rw [← cons_append, ← append_assoc] at hchanges
    obtain ⟨earlier, hreached, hmade⟩ := h.last hchanges
    have hout := ih hreached rfl fun other hother =>
      hbetween other (mem_append_left _ hother)
    exact hmade.keeps_out hreached.indexed (hbetween change mem_concat_self) hout

/-- **The players of a world.** Both indexes hold the same slots under the keys of their players,
and the order lists the present keys once each, by insertion. A stale handle removes nobody else,
and a player is replaced a second time only if registered again in between. -/
theorem reached_registered (h : Reached keys changes map) :
    (∀ uuid slot, map.byUuid.lookup uuid = some slot → ∃ player,
      map.slots[slot]? = some player ∧ keys.uuid player = uuid ∧
        map.byEntityId.lookup (keys.entityId player) = some slot) ∧
    (∀ entityId slot, map.byEntityId.lookup entityId = some slot → ∃ player,
      map.slots[slot]? = some player ∧ keys.entityId player = entityId ∧
        map.byUuid.lookup (keys.uuid player) = some slot) ∧
    map.order.Nodup ∧ (∀ uuid, uuid ∈ map.order ↔ uuid ∈ map.byUuid) ∧
    map.order = (insertions keys changes).dedup.filter (· ∈ map.byUuid) ∧
    (∀ player other, other ≠ player → map.getByUuid (keys.uuid other) = some other →
      (map.removePlayerSync keys player).2.getByUuid (keys.uuid other) = some other ∧
      (map.removePlayerSync keys player).2.getByEntityId (keys.entityId other) = some other) ∧
    ∀ before between expected first second,
      changes = before ++ .replaced expected first :: between ++ [.replaced expected second] →
      first = expected ∨ ∃ change ∈ between, change.Registers expected := by
  have hindexed := h.indexed
  obtain ⟨horder, hinserted⟩ := h.ordered
  refine ⟨hindexed.of_uuid, hindexed.of_entityId, ?_, ?_, horder, ?_, ?_⟩
  · rw [horder]
    exact (nodup_dedup _).filter _
  · intro uuid
    rw [horder, mem_filter, mem_dedup, decide_eq_true_eq]
    exact and_iff_right_of_imp (hinserted uuid)
  · exact fun player other hne hother => hindexed.removePlayerSync_keeps hother hne
  · intro before between expected first second hchanges
    by_contra hnone
    rw [not_or, not_exists] at hnone
    obtain ⟨earlier, hreached, hmade⟩ := h.last hchanges
    refine hreached.replaced_out hnone.1 rfl (fun change hmem hregisters => ?_) hmade.registered
    exact hnone.2 change ⟨hmem, hregisters⟩

/-- Players with a handle, a key and an entity id. -/
def plainKeys : PlayerKeys (ℕ × ℕ × ℤ) ℕ :=
  { uuid := fun player => player.2.1, entityId := fun player => player.2.2 }

def onePlayer : PlayerMap (ℕ × ℕ × ℤ) ℕ :=
  { slots := [(0, 7, 3)]
    byUuid := Finmap.insert 7 0 ∅
    byEntityId := Finmap.insert 3 0 ∅
    order := [7] }

theorem reached_onePlayer : Reached plainKeys [.inserted (0, 7, 3)] onePlayer :=
  Reached.new.insert rfl

/-- The first player has been replaced, if so, and a second one has come in. -/
def twoPlayers (first : ℕ) : PlayerMap (ℕ × ℕ × ℤ) ℕ :=
  { slots := [(first, 7, 3), (1, 8, 4)]
    byUuid := (Finmap.insert 7 0 ∅).insert 8 1
    byEntityId := (Finmap.insert 3 0 ∅).insert 4 1
    order := [7, 8] }

theorem reached_registered_replaced :
    Reached plainKeys ([.inserted (0, 7, 3)] ++ [.inserted (1, 8, 4)] ++
        [.replaced (0, 7, 3) (2, 7, 3)]) (twoPlayers 2) ∧
      (twoPlayers 2).order.Nodup ∧
      ((twoPlayers 2).removePlayerSync plainKeys (0, 7, 3)).2.getByUuid 7 = some (2, 7, 3) := by
  have hinsert : onePlayer.insert plainKeys (1, 8, 4) = some (true, twoPlayers 0) := rfl
  have hreplace : (twoPlayers 0).replacePlayer plainKeys (0, 7, 3) (2, 7, 3) =
      (true, twoPlayers 2) := rfl
  have hreached := (reached_onePlayer.insert hinsert).replace hreplace
  obtain ⟨-, -, hnodup, -, -, hstale, -⟩ := reached_registered hreached
  exact ⟨hreached, hnodup, (hstale (0, 7, 3) (2, 7, 3) (by decide) rfl).1⟩

/-- A player that takes its own place can be replaced by any number of calls. -/
theorem reached_replacedTwice :
    Reached plainKeys ([.inserted (0, 7, 3)] ++ .replaced (0, 7, 3) (0, 7, 3) :: [] ++
      [.replaced (0, 7, 3) (0, 7, 3)]) onePlayer :=
  have hreplace : onePlayer.replacePlayer plainKeys (0, 7, 3) (0, 7, 3) = (true, onePlayer) := rfl
  (reached_onePlayer.replace hreplace).replace hreplace

end Steel.PlayerMap

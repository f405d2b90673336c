import Mathlib.Algebra.GroupWithZero.Nat
import Mathlib.Algebra.Order.BigOperators.Group.Multiset
import Steel.Proof.TicketSlots

/-!
# A request ticket exists while a lease needs it

Every lease adds one to the count of each of its positions and takes it away when it is dropped. The
ticket is added with the first of these and removed with the last, whatever the order.
-/

namespace Steel

open List Function

namespace ChunkTicketStorage

/-- How many tickets of a type and level there are at a position. -/
def ticketCount (storage : ChunkTicketStorage) (pos : ChunkPos) (key : TicketKey) : ℕ :=
  (storage.ticketsAt pos).countP fun found => found.key = key

variable {storage : ChunkTicketStorage} {pos : ChunkPos} {tickets : List StoredChunkTicket}
  {ticket : ChunkTicket}

theorem ticketCount_pos_iff {key : TicketKey} :
    0 < storage.ticketCount pos key ↔ ∃ found ∈ storage.ticketsAt pos, found.key = key := by
  simp [ticketCount, countP_pos_iff]

theorem countP_key_modify {index : ℕ} {found : StoredChunkTicket}
    (hfound : tickets[index]? = some found) {f : StoredChunkTicket → StoredChunkTicket}
    (hf : (f found).key = found.key) (key : TicketKey) :
    (tickets.modify index f).countP (fun stored => stored.key = key) =
      tickets.countP fun stored => stored.key = key := by
  obtain ⟨before, after, hsplit, -, hmodify⟩ := Vec.exists_split hfound
  rw [hmodify, hsplit]
  simp only [countP_append, countP_cons, hf]

theorem ticketCount_eq_zero {key : TicketKey} (h : storage.stored pos key = none) :
    storage.ticketCount pos key = 0 := by
  rw [ticketCount, countP_eq_zero]
  intro stored hstored
  rw [decide_eq_true_eq]
  exact KeyedList.find_eq_none_iff.mp h stored hstored

theorem addTicket_ticketCount {storage' : ChunkTicketStorage} {changes : SourceProjectionChanges}
    (hadd : storage.addTicket pos ticket = some (storage', changes)) (p : ChunkPos)
    (key : TicketKey) : storage'.ticketCount p key =
      if p = pos ∧ key = ticket.key then max 1 (storage.ticketCount p key)
      else storage.ticketCount p key := by
  obtain ⟨after, hafter, -, hcases⟩ := addTicket_ticketsAt hadd
  rw [ticketCount, hafter]
  by_cases hp : p = pos
  · subst hp
    rw [update_self]
    rcases hcases with ⟨index, found, hfound, hsame, rfl⟩ | ⟨hnone, rfl⟩
    · rw [countP_key_modify hfound rfl, ← ticketCount]
      split_ifs with hkey
      · have hpos : 0 < storage.ticketCount p key := ticketCount_pos_iff.mpr
          ⟨found, mem_of_getElem? hfound, hsame.trans hkey.2.symm⟩
        omega
      · rfl
    · have hself : ∀ generation, StoredChunkTicket.key ⟨ticket, generation⟩ = ticket.key :=
        fun _ => rfl
      rw [countP_append, countP_singleton, hself, ← ticketCount]
      by_cases hkey : key = ticket.key
      · subst hkey
        simp [ticketCount_eq_zero hnone]
      · simp [hkey, Ne.symm hkey]
  · rw [update_of_ne hp, if_neg fun heq => hp heq.1, ticketCount]

theorem removeTicket_ticketCount (storage : ChunkTicketStorage) (pos : ChunkPos)
    (ticket : ChunkTicket) (p : ChunkPos) (key : TicketKey) :
    (storage.removeTicket pos ticket).1.ticketCount p key =
      if p = pos ∧ key = ticket.key then storage.ticketCount p key - 1
      else storage.ticketCount p key := by
  obtain ⟨heq, hnone⟩ | ⟨index, found, hfound, hsame, heq⟩ := storage.removeTicket_eq pos ticket
  · rw [heq]
    split_ifs with hkey
    · rw [hkey.1, hkey.2, ticketCount_eq_zero hnone]
    · rfl
  · rw [heq, ticketCount, ticketsAt_takeAt]
    by_cases hp : p = pos
    · subst hp
      have hperm := (Vec.swapRemove_perm hfound).countP_eq fun stored => stored.key = key
      rw [update_self, ticketCount, ← hperm, countP_cons, hsame]
      by_cases hkey : key = ticket.key
      · simp [hkey]
      · simp [hkey, Ne.symm hkey]
    · rw [update_of_ne hp, if_neg fun heq => hp heq.1, ticketCount]

end ChunkTicketStorage

namespace TicketOperationIngress

def requestKey (level : ChunkTicketLevel) : TicketKey := (TicketType.chunkRequest.address, level)

/-- The lease counts, and a ticket wherever they are not zero. -/
structure Tallied (counts : ChunkPos × ChunkTicketLevel → ℕ) (ingress : TicketOperationIngress) :
    Prop where
  leases : ∀ key, ingress.chunkRequestLeases.lookup key =
    if counts key = 0 then none else some (counts key)
  tickets : ∀ pos level, ingress.storage.ticketCount pos (requestKey level) =
    if counts (pos, level) = 0 then 0 else 1

variable {counts : ChunkPos × ChunkTicketLevel → ℕ} {ingress ingress' : TicketOperationIngress}
  {level : ChunkTicketLevel} {pos : ChunkPos}

theorem requestKey_iff {p : ChunkPos} {level' : ChunkTicketLevel} :
    (p = pos ∧ requestKey level' = (ChunkTicket.new .chunkRequest level).key) ↔
      (p, level') = (pos, level) := by
  simp [requestKey, ChunkTicket.key, ChunkTicket.new]

theorem Tallied.congr {counts' : ChunkPos × ChunkTicketLevel → ℕ} (h : Tallied counts ingress)
    (hcounts : ∀ key, counts key = counts' key) : Tallied counts' ingress :=
  funext hcounts ▸ h

theorem Tallied.leaseCount (h : Tallied counts ingress) :
    (ingress.chunkRequestLeases.lookup (pos, level)).getD 0 = counts (pos, level) := by
  rw [h.leases]
  split_ifs with hzero
  · exact hzero.symm
  · rfl

/-- The first lease adds the ticket. -/
theorem Tallied.acquireLease (h : Tallied counts ingress) (hroom : counts (pos, level) ≠ usizeMax) :
    ∃ next, acquireLease level ingress pos = some next ∧
      next.latestReceipt = ingress.latestReceipt ∧
      Tallied (update counts (pos, level) (counts (pos, level) + 1)) next := by
  have hleases : ∀ key, (ingress.chunkRequestLeases.insert (pos, level)
      (counts (pos, level) + 1)).lookup key =
        if update counts (pos, level) (counts (pos, level) + 1) key = 0 then none
        else some (update counts (pos, level) (counts (pos, level) + 1) key) := by
    intro key
    rw [HashMap.lookup_insert_ite, update_apply, h.leases]
    by_cases hkey : key = (pos, level)
    · simp [hkey]
    · simp [hkey]
  simp only [TicketOperationIngress.acquireLease, h.leaseCount, if_neg hroom]
  by_cases hzero : counts (pos, level) = 0
  · rw [if_pos hzero, addTicket]
    have htimeout : (ChunkTicket.new .chunkRequest level).ticketType.hasTimeout = false := rfl
    obtain ⟨⟨storage, changes⟩, hadd⟩ : ∃ added, ingress.storage.addTicket pos
        (.new .chunkRequest level) = some added :=
      Option.isSome_iff_exists.mp (ChunkTicketStorage.addTicket_isSome pos htimeout)
    dsimp only
    rw [hadd]
    refine ⟨_, rfl, rfl, hleases, fun p level' => ?_⟩
    refine (ChunkTicketStorage.addTicket_ticketCount hadd p (requestKey level')).trans ?_
    rw [h.tickets, update_apply]
    by_cases hkey : (p, level') = (pos, level)
    · rw [if_pos (requestKey_iff.mpr hkey), if_pos hkey, hkey, if_pos hzero,
        if_neg (Nat.succ_ne_zero _)]
      rfl
    · rw [if_neg (mt requestKey_iff.mp hkey), if_neg hkey]
  · rw [if_neg hzero]
    refine ⟨_, rfl, rfl, hleases, fun p level' => ?_⟩
    dsimp only
    rw [h.tickets, update_apply]
    by_cases hkey : (p, level') = (pos, level)
    · rw [if_pos hkey, hkey, if_neg hzero, if_neg (Nat.succ_ne_zero _)]
    · rw [if_neg hkey]

/-- The last lease takes the ticket away. -/
theorem Tallied.releaseLease (h : Tallied counts ingress) (howned : counts (pos, level) ≠ 0) :
    ∃ next, releaseLease level ingress pos = some next ∧
      next.latestReceipt = ingress.latestReceipt ∧
      Tallied (update counts (pos, level) (counts (pos, level) - 1)) next := by
  simp only [TicketOperationIngress.releaseLease, h.leases, if_neg howned]
  by_cases hone : counts (pos, level) = 1
  · rw [if_pos hone]
    refine ⟨_, rfl, rfl, fun key => ?_, fun p level' => ?_⟩
    · refine (HashMap.lookup_erase_ite _ _ _).trans ?_
      rw [update_apply, h.leases]
      by_cases hkey : key = (pos, level)
      · simp [hkey, hone]
      · simp [hkey]
    · refine (ChunkTicketStorage.removeTicket_ticketCount _ _ _ p (requestKey level')).trans ?_
      rw [h.tickets, update_apply]
      by_cases hkey : (p, level') = (pos, level)
      · rw [if_pos (requestKey_iff.mpr hkey), if_pos hkey, hkey, if_neg howned, hone]
        rfl
      · rw [if_neg (mt requestKey_iff.mp hkey), if_neg hkey]
  · rw [if_neg hone]
    refine ⟨_, rfl, rfl, fun key => ?_, fun p level' => ?_⟩
    · dsimp only
      rw [HashMap.lookup_insert_ite, update_apply, h.leases]
      by_cases hkey : key = (pos, level)
      · have hmore : counts (pos, level) - 1 ≠ 0 := by omega
        simp [hkey, hmore]
      · simp [hkey]
    · dsimp only
      rw [h.tickets, update_apply]
      by_cases hkey : (p, level') = (pos, level)
      · rw [if_pos hkey, hkey, if_neg howned, if_neg (by omega)]
      · rw [if_neg hkey]

/-! ### Leases -/

structure RequestLease where
  positions : List ChunkPos
  ticketLevel : ChunkTicketLevel

def RequestLease.share (lease : RequestLease) (key : ChunkPos × ChunkTicketLevel) : ℕ :=
  if lease.ticketLevel = key.2 then lease.positions.count key.1 else 0

def outstanding (leases : Multiset RequestLease) (key : ChunkPos × ChunkTicketLevel) : ℕ :=
  (leases.map fun lease => lease.share key).sum

theorem share_cons (pos : ChunkPos) (positions : List ChunkPos) (level : ChunkTicketLevel)
    (key : ChunkPos × ChunkTicketLevel) :
    RequestLease.share ⟨pos :: positions, level⟩ key =
      RequestLease.share ⟨positions, level⟩ key + if key = (pos, level) then 1 else 0 := by
  obtain ⟨p, level'⟩ := key
  simp only [RequestLease.share, count_cons, Prod.mk.injEq, beq_iff_eq]
  by_cases hlevel : level = level'
  · simp [hlevel, eq_comm]
  · simp [hlevel, Ne.symm hlevel]

variable {positions : List ChunkPos}

theorem share_nil (key : ChunkPos × ChunkTicketLevel) : RequestLease.share ⟨[], level⟩ key = 0 := by
  simp [RequestLease.share]

theorem Tallied.room_of_acquireLease (h : Tallied counts ingress)
    (hacquire : TicketOperationIngress.acquireLease level ingress pos = some ingress') :
    counts (pos, level) ≠ usizeMax := by
  intro hfull
  rw [TicketOperationIngress.acquireLease, h.leaseCount, if_pos hfull] at hacquire
  cases hacquire

theorem Tallied.acquireAll (h : Tallied counts ingress)
    (hacquire : positions.foldlM (TicketOperationIngress.acquireLease level) ingress =
      some ingress') :
    Tallied (fun key => counts key + RequestLease.share ⟨positions, level⟩ key) ingress' := by
  induction positions generalizing counts ingress with
  | nil =>
    cases hacquire
    simp only [share_nil, Nat.add_zero]
    exact h
  | cons pos positions ih =>
    rw [foldlM_cons] at hacquire
    obtain ⟨next, hnext, hrest⟩ := Option.bind_eq_some_iff.mp hacquire
    obtain ⟨_, hsame, -, htallied⟩ := h.acquireLease (h.room_of_acquireLease hnext)
    obtain rfl := Option.some.inj (hsame.symm.trans hnext)
    refine (ih htallied hrest).congr fun key => ?_
    rw [share_cons, update_apply]
    by_cases hkey : key = (pos, level)
    · simp only [hkey, if_true]
      omega
    · simp [hkey]

theorem Tallied.releaseAll (h : Tallied counts ingress) (lease : RequestLease)
    (howned : ∀ key, lease.share key ≤ counts key) :
    ∃ next, lease.positions.foldlM (TicketOperationIngress.releaseLease lease.ticketLevel) ingress =
        some next ∧
      next.latestReceipt = ingress.latestReceipt ∧
      Tallied (fun key => counts key - lease.share key) next := by
  obtain ⟨positions, level⟩ := lease
  induction positions generalizing counts ingress with
  | nil =>
    simp only [share_nil, Nat.sub_zero]
    exact ⟨ingress, rfl, rfl, h⟩
  | cons pos positions ih =>
    simp only [share_cons] at howned ⊢
    have hfirst := howned (pos, level)
    rw [if_pos rfl] at hfirst
    have hpos : counts (pos, level) ≠ 0 := by omega
    obtain ⟨next, hnext, hreceipt, htallied⟩ := h.releaseLease hpos
    obtain ⟨last, hlast, hreceipt', hcounts⟩ := ih htallied fun key => by
      have hkey := howned key
      rw [update_apply]
      by_cases heq : key = (pos, level)
      · rw [if_pos heq]
        rw [heq] at hkey ⊢
        omega
      · rw [if_neg heq] at hkey ⊢
        omega
    refine ⟨last, ?_, hreceipt'.trans hreceipt, hcounts.congr fun key => ?_⟩
    · rw [foldlM_cons, hnext]
      exact hlast
    · rw [update_apply]
      by_cases heq : key = (pos, level)
      · simp only [heq, if_true]
        omega
      · simp [heq]

/-- The leases that are held and what has come of the calls that have taken and dropped leases, from
a storage without request tickets on. -/
inductive Leased : Multiset RequestLease → TicketOperationIngress → Prop
  | new {storage : ChunkTicketStorage}
      (hstorage : ∀ pos level, storage.ticketCount pos (requestKey level) = 0) :
      Leased 0 (.new storage)
  | acquire {leases : Multiset RequestLease} {ingress next : TicketOperationIngress}
      {lease : RequestLease} {receipt : Option ChunkTicketReceipt} (h : Leased leases ingress)
      (hacquire : ingress.acquireChunkRequestLeases lease.positions lease.ticketLevel =
        some (next, receipt)) : Leased (lease ::ₘ leases) next
  | release {leases : Multiset RequestLease} {ingress next : TicketOperationIngress}
      {lease : RequestLease} {receipt : Option ChunkTicketReceipt}
      (h : Leased (lease ::ₘ leases) ingress)
      (hrelease : ingress.releaseChunkRequestLeases lease.positions lease.ticketLevel =
        some (next, receipt)) : Leased leases next

theorem outstanding_cons (lease : RequestLease) (leases : Multiset RequestLease)
    (key : ChunkPos × ChunkTicketLevel) :
    outstanding (lease ::ₘ leases) key = lease.share key + outstanding leases key := by
  simp [outstanding]

variable {step : TicketOperationIngress → ChunkPos → Option TicketOperationIngress}

theorem Tallied.submitAll {receipt : Option ChunkTicketReceipt}
    (hsubmit : ingress.submitAll step positions = some (ingress', receipt))
    (hstep : ∀ last, positions.foldlM step ingress = some last → Tallied counts last) :
    Tallied counts ingress' := by
  rw [TicketOperationIngress.submitAll] at hsubmit
  split_ifs at hsubmit with hempty
  · cases hsubmit
    rw [isEmpty_iff.mp hempty] at hstep
    exact hstep ingress rfl
  · obtain ⟨last, hlast, hrest⟩ := Option.bind_eq_some_iff.mp hsubmit
    obtain ⟨⟨allocated, issued⟩, hallocate, hreturn⟩ := Option.bind_eq_some_iff.mp hrest
    cases hreturn
    have htallied := hstep last hlast
    rw [allocateReceipt] at hallocate
    split_ifs at hallocate
    cases hallocate
    exact ⟨htallied.leases, htallied.tickets⟩

variable {leases : Multiset RequestLease}

theorem Leased.tallied (h : Leased leases ingress) : Tallied (outstanding leases) ingress := by
  induction h with
  | new hstorage =>
    refine ⟨fun key => ?_, fun pos level => ?_⟩
    · simp [outstanding, TicketOperationIngress.new]
    · rw [if_pos (by simp [outstanding])]
      exact hstorage pos level
  | @acquire leases ingress next lease receipt h hacquire ih =>
    refine Tallied.submitAll hacquire fun last hlast => (ih.acquireAll hlast).congr fun key => ?_
    rw [outstanding_cons, Nat.add_comm]
  | @release leases ingress next lease receipt h hrelease ih =>
    refine Tallied.submitAll hrelease fun last hlast => ?_
    obtain ⟨_, hsame, -, htallied⟩ := ih.releaseAll lease fun key => by
      rw [outstanding_cons]
      exact Nat.le_add_right _ _
    obtain rfl := Option.some.inj (hsame.symm.trans hlast)
    refine htallied.congr fun key => ?_
    rw [outstanding_cons, Nat.add_sub_cancel_left]

theorem submitAll_eq_none_iff
    {last : TicketOperationIngress} (hlast : positions.foldlM step ingress = some last) :
    ingress.submitAll step positions = none ↔ positions ≠ [] ∧ last.latestReceipt = u64Max := by
  rw [TicketOperationIngress.submitAll, hlast]
  cases positions with
  | nil => simp
  | cons pos positions =>
    by_cases hexhausted : last.latestReceipt = u64Max
    · simp [allocateReceipt, hexhausted]
    · simp [allocateReceipt, hexhausted]

theorem Leased.release_eq_none_iff (h : Leased leases ingress) {lease : RequestLease}
    (hlease : lease ∈ leases) :
    ingress.releaseChunkRequestLeases lease.positions lease.ticketLevel = none ↔
      lease.positions ≠ [] ∧ ingress.latestReceipt = u64Max := by
  obtain ⟨others, rfl⟩ := Multiset.exists_cons_of_mem hlease
  obtain ⟨last, hlast, hreceipt, -⟩ := h.tallied.releaseAll lease fun key => by
    rw [outstanding_cons]
    exact Nat.le_add_right _ _
  rw [releaseChunkRequestLeases, submitAll_eq_none_iff hlast, hreceipt]

/-! ### Running out of receipts -/

def oneLease : RequestLease := { positions := [⟨0, 0⟩], ticketLevel := .maxLevel }

theorem outstanding_replicate (n : ℕ) :
    outstanding (Multiset.replicate n oneLease) (⟨0, 0⟩, .maxLevel) = n := by
  simp [outstanding, RequestLease.share, oneLease]

/-- The same lease can be taken until there are no receipts left. -/
theorem exists_leased {n : ℕ} (hn : n ≤ u64Max) :
    ∃ ingress, Leased (Multiset.replicate n oneLease) ingress ∧ ingress.latestReceipt = n := by
  induction n with
  | zero => exact ⟨.new .new, .new fun _ _ => rfl, rfl⟩
  | succ n ih =>
    obtain ⟨ingress, hleased, hreceipt⟩ := ih (Nat.le_of_succ_le hn)
    have hroom : outstanding (Multiset.replicate n oneLease) (⟨0, 0⟩, .maxLevel) ≠ usizeMax := by
      rw [outstanding_replicate]
      exact (Nat.lt_of_succ_le hn).ne
    obtain ⟨next, hnext, hreceipt', -⟩ := hleased.tallied.acquireLease hroom
    have hleft : next.latestReceipt ≠ u64Max := by
      rw [hreceipt', hreceipt]
      exact (Nat.lt_of_succ_le hn).ne
    have hacquire : ingress.acquireChunkRequestLeases oneLease.positions oneLease.ticketLevel =
        some ({ next with latestReceipt := next.latestReceipt + 1 },
          some (next.latestReceipt + 1)) := by
      simp [acquireChunkRequestLeases, submitAll, oneLease, hnext, allocateReceipt, hleft]
    refine ⟨_, Multiset.replicate_succ oneLease n ▸ hleased.acquire hacquire, ?_⟩
    dsimp only
    rw [hreceipt', hreceipt]

/-- The last receipt has been taken for the last lease, and none of the leases can be released. -/
theorem release_exhausted :
    ∃ leases ingress lease, Leased leases ingress ∧ lease ∈ leases ∧
      ingress.releaseChunkRequestLeases lease.positions lease.ticketLevel = none := by
  obtain ⟨ingress, hleased, hreceipt⟩ := exists_leased (le_refl u64Max)
  have hmem : oneLease ∈ Multiset.replicate u64Max oneLease :=
    Multiset.mem_replicate.mpr ⟨by decide, rfl⟩
  exact ⟨_, ingress, oneLease, hleased, hmem,
    (hleased.release_eq_none_iff hmem).mpr ⟨by decide, hreceipt⟩⟩

/-- A request ticket exists where a lease is outstanding, and a lease that is held can be released,
unless there is no receipt left for it. -/
theorem Leased.ticket_iff_outstanding (h : Leased leases ingress) :
    (∀ pos level, (∃ found ∈ ingress.storage.ticketsAt pos, found.key = requestKey level) ↔
      0 < outstanding leases (pos, level)) ∧
    ∀ lease ∈ leases,
      ingress.releaseChunkRequestLeases lease.positions lease.ticketLevel = none ↔
        lease.positions ≠ [] ∧ ingress.latestReceipt = u64Max := by
  refine ⟨fun pos level => ?_, fun lease hlease => ?_⟩
  · rw [← ChunkTicketStorage.ticketCount_pos_iff, h.tallied.tickets]
    split_ifs with hzero
    · rw [hzero]
    · exact iff_of_true Nat.one_pos (Nat.pos_of_ne_zero hzero)
  · exact h.release_eq_none_iff hlease

/-- One of two leases is released, and the ticket they share stays. -/
theorem ticket_iff_outstanding_twoLeases :
    ∃ ingress next receipt, Leased (Multiset.replicate 2 oneLease) ingress ∧
      ingress.releaseChunkRequestLeases oneLease.positions oneLease.ticketLevel =
        some (next, receipt) ∧
      ∃ found ∈ next.storage.ticketsAt ⟨0, 0⟩, found.key = requestKey .maxLevel := by
  obtain ⟨ingress, hleased, hreceipt⟩ := exists_leased (show 2 ≤ u64Max by decide)
  have hreleased := (hleased.ticket_iff_outstanding.2 oneLease (by simp)).not.mpr
    fun hexhausted => absurd (hreceipt.symm.trans hexhausted.2) (by decide)
  obtain ⟨⟨next, receipt⟩, hrelease⟩ := Option.ne_none_iff_exists'.mp hreleased
  have hnext : Leased (Multiset.replicate 1 oneLease) next :=
    (Multiset.replicate_succ oneLease 1 ▸ hleased).release hrelease
  refine ⟨ingress, next, receipt, hleased, hrelease,
    (hnext.ticket_iff_outstanding.1 ⟨0, 0⟩ .maxLevel).mpr ?_⟩
  rw [outstanding_replicate]
  exact Nat.one_pos

end TicketOperationIngress

end Steel

import Steel.Lib.Displacement
import Steel.Spec.ChatClient

/-!
# Two signature caches in lock step

Both sides displace the same values. The server builds a new list and the client writes into its
slots, so the two can only differ in slots that were not reached; a message with a new signature
reaches all the slots that are taken.
-/

namespace Steel

open List

namespace MessageCache

/-- The slots that the client has for a list of signatures, from slot `i` on. -/
def slotsFrom (fullCache : List Signature) (rounds i : ℕ) : List (Option Signature) :=
  (List.range' i rounds).map (fullCache[·]?)

theorem putBack_eq (pushSet : Finset Signature) (slot : Option Signature) (deque : List Signature) :
    putBack pushSet slot deque =
      (slot.filter fun value => !decide (value ∈ pushSet)).toList ++ deque := by
  cases slot with
  | none => rfl
  | some old => by_cases hold : old ∈ pushSet <;> simp [putBack, hold, Option.filter]

theorem pushRounds_eq (fullCache : List Signature) (pushSet : Finset Signature) (rounds i : ℕ)
    (deque newCache : List Signature) :
    pushRounds fullCache pushSet rounds i deque newCache =
      newCache ++ (displace (fun value => decide (value ∈ pushSet)) (slotsFrom fullCache rounds i)
        deque).1 := by
  induction rounds generalizing i deque newCache with
  | zero => exact (append_nil newCache).symm
  | succ rounds ih =>
    have hslots : slotsFrom fullCache (rounds + 1) i =
        fullCache[i]? :: slotsFrom fullCache rounds (i + 1) := rfl
    rcases eq_nil_or_concat deque with rfl | ⟨front, value, rfl⟩
    · rw [displace_nil, append_nil]
      rfl
    · rw [concat_eq_append, hslots, displace_cons, pushRounds]
      simp only [List.getLast?_append, List.getLast?_singleton, Option.some_or,
        dropLast_concat]
      rw [putBack_eq, ih, append_assoc, singleton_append]

end MessageCache

namespace ClientSignatureCache

theorem pushRounds_eq (pushSet : Finset Signature) (deque : List Signature)
    (before after : List (Option Signature)) :
    pushRounds pushSet after.length before.length deque (before ++ after) =
      before ++ ((displace (fun value => decide (value ∈ pushSet)) after deque).1.map some ++
        after.drop (displace (fun value => decide (value ∈ pushSet)) after deque).1.length) := by
  induction after generalizing before deque with
  | nil => simp [pushRounds, displace]
  | cons slot after ih =>
    rcases eq_nil_or_concat deque with rfl | ⟨front, value, rfl⟩
    · rw [displace_nil]
      rfl
    · rw [concat_eq_append, displace_cons, length_cons, pushRounds]
      simp only [List.getLast?_append, List.getLast?_singleton, Option.some_or,
        dropLast_concat]
      have hslot : (before ++ slot :: after).getD before.length none = slot := by
        simp
      have hset : (before ++ slot :: after).set before.length (some value) =
          (before ++ [some value]) ++ after := by
        simp
      have hlength : before.length + 1 = (before ++ [some value]).length := by
        simp
      rw [hslot, hset, MessageCache.putBack_eq, hlength, ih]
      simp

end ClientSignatureCache

namespace ChatExchange

variable {PublicKey : Type} {exchange : ChatExchange PublicKey}

open MessageCache

theorem slotsFrom_eq {fullCache : List Signature} (h : fullCache.length ≤ maxCachedSignatures) :
    slotsFrom fullCache maxCachedSignatures 0 =
      padded fullCache (maxCachedSignatures - fullCache.length) := by
  apply ext_getElem?
  intro i
  rw [slotsFrom, padded, List.getElem?_map, List.getElem?_append, length_map]
  by_cases hi : i < fullCache.length
  · rw [if_pos hi, List.getElem?_range' (by omega)]
    simp [hi]
  · rw [if_neg hi, List.getElem?_replicate]
    by_cases hroom : i < maxCachedSignatures
    · rw [List.getElem?_range' hroom, if_pos (by omega)]
      simp [hi]
    · rw [if_neg (by omega), List.getElem?_eq_none (by simpa using hroom)]
      rfl

/-- The slots of the client hold the cache of the server. -/
structure InStep (exchange : ChatExchange PublicKey) : Prop where
  slots : exchange.client.entries =
    padded exchange.chat.signatureCache.fullCache
      (maxCachedSignatures - exchange.chat.signatureCache.fullCache.length)
  length_le : exchange.chat.signatureCache.fullCache.length ≤ maxCachedSignatures
  nodup : exchange.chat.signatureCache.fullCache.Nodup

theorem inStep_new : InStep (new : ChatExchange PublicKey) where
  slots := rfl
  length_le := Nat.zero_le _
  nodup := nodup_nil

/-! ### Decoding -/

theorem toInt_id {index : ℕ} (h : index < maxCachedSignatures) :
    (1 + Int32.ofNat index).toInt = index + 1 := by
  have hall : ∀ i : Fin 128, (1 + Int32.ofNat i).toInt = i + 1 := by decide
  exact hall ⟨index, h⟩

theorem InStep.unpack (h : exchange.InStep) (signature : Signature) :
    exchange.client.unpack (exchange.chat.signatureCache.indexPreviousMessage signature) =
      some signature := by
  unfold indexPreviousMessage
  split
  · next index hindex =>
      obtain ⟨hlt, hget, -⟩ := List.idxOf?_eq_some_iff.mp hindex
      have hid := toInt_id (lt_of_lt_of_le hlt h.length_le)
      have hne : (1 + Int32.ofNat index) ≠ 0 := by
        intro hzero
        rw [hzero] at hid
        have hpos : (0 : ℤ) = index + 1 := hid
        omega
      rw [ClientSignatureCache.unpack, if_neg hne, hid, h.slots, add_sub_cancel_right,
        Int.toNat_natCast, getD_eq_getElem?_getD, getElem?_padded hlt,
        List.getElem?_eq_getElem hlt, hget]
      rfl
  · rfl

theorem InStep.mapM_unpack (h : exchange.InStep) (lastSeen : LastSeen) :
    (exchange.chat.signatureCache.indexPreviousMessages lastSeen).mapM exchange.client.unpack =
      some lastSeen := by
  rw [indexPreviousMessages]
  induction lastSeen with
  | nil => rfl
  | cons signature lastSeen ih =>
    rw [map_cons, mapM_cons, h.unpack, ih]
    rfl

/-! ### Pushing -/

def pushed (lastSeen : LastSeen) (signature value : Signature) : Bool :=
  decide (value ∈ (lastSeen ++ [signature]).toFinset)

theorem pushed_iff (lastSeen : LastSeen) (signature value : Signature) :
    pushed lastSeen signature value = true ↔ value ∈ lastSeen ++ [signature] := by
  rw [pushed, decide_eq_true_iff, mem_toFinset]

section Push

variable {fullCache lastSeen : List Signature} {signature : Signature}

theorem push_eq (hlength : fullCache.length ≤ maxCachedSignatures) (lastSeen : LastSeen)
    (signature : Signature) :
    ((⟨fullCache⟩ : MessageCache).push lastSeen (some signature)).fullCache =
      (displace (pushed lastSeen signature)
        (padded fullCache (maxCachedSignatures - fullCache.length))
          (lastSeen ++ [signature])).1 := by
  rw [push, MessageCache.pushRounds_eq, slotsFrom_eq hlength, nil_append]
  rfl

theorem length_push (hlength : fullCache.length ≤ maxCachedSignatures) (lastSeen : LastSeen)
    (signature : Signature) :
    ((⟨fullCache⟩ : MessageCache).push lastSeen (some signature)).fullCache.length ≤
      maxCachedSignatures := by
  rw [push_eq hlength]
  have hle := (displace_length (pushed lastSeen signature)
    (padded fullCache (maxCachedSignatures - fullCache.length)) (lastSeen ++ [signature])).1
  rwa [length_padded, Nat.add_sub_cancel' hlength] at hle

theorem mem_push {value : Signature} (hlength : fullCache.length ≤ maxCachedSignatures)
    (h : value ∈ ((⟨fullCache⟩ : MessageCache).push lastSeen (some signature)).fullCache) :
    value ∈ lastSeen ++ [signature] ∨ value ∈ fullCache := by
  rw [push_eq hlength] at h
  have hperm := displace_perm (pushed lastSeen signature)
    (padded fullCache (maxCachedSignatures - fullCache.length)) (lastSeen ++ [signature])
  rw [take_padded_reduceOption] at hperm
  rcases mem_append.mp (hperm.mem_iff.mp (mem_append_left _ h)) with hmem | hmem
  · exact Or.inl hmem
  · exact Or.inr (mem_of_mem_take (mem_filter.mp hmem).1)

theorem client_push (hlength : fullCache.length ≤ maxCachedSignatures) (hnodup : fullCache.Nodup)
    (hnew : signature ∉ fullCache) {client : ClientSignatureCache}
    (hclient : client.entries = padded fullCache (maxCachedSignatures - fullCache.length)) :
    (client.push lastSeen (some signature)).entries =
      padded ((⟨fullCache⟩ : MessageCache).push lastSeen (some signature)).fullCache
        (maxCachedSignatures -
          ((⟨fullCache⟩ : MessageCache).push lastSeen (some signature)).fullCache.length) := by
  have hreach := length_le_displace (pushed_iff lastSeen signature) hnodup
    (mem_append_right lastSeen (mem_singleton_self _)) hnew
    (maxCachedSignatures - fullCache.length)
  have hentries := ClientSignatureCache.pushRounds_eq (lastSeen ++ [signature]).toFinset
    (lastSeen ++ [signature]) [] client.entries
  rw [client.size, hclient, nil_append, nil_append] at hentries
  rw [push_eq hlength, padded]
  change ClientSignatureCache.pushRounds (lastSeen ++ [signature]).toFinset maxCachedSignatures 0
    (lastSeen ++ [signature]) client.entries = _
  rw [hclient]
  refine hentries.trans (congrArg _ ?_)
  refine (drop_padded hreach _).trans ?_
  rw [Nat.add_sub_cancel' hlength]

end Push

variable {delivery : ChatDelivery}

/-- A delivery moves both caches in the same way. -/
theorem InStep.deliver (h : exchange.InStep) (hlastSeen : delivery.lastSeen.Nodup)
    (hself : delivery.signature ∉ delivery.lastSeen)
    (hnew : delivery.signature ∉ exchange.chat.signatureCache.fullCache) :
    ∃ next, exchange.deliver delivery = some next ∧ next.InStep ∧
      next.decoded = exchange.decoded ++ [delivery.lastSeen] ∧
      ∀ value ∈ next.chat.signatureCache.fullCache,
        value ∈ delivery.lastSeen ++ [delivery.signature] ∨
          value ∈ exchange.chat.signatureCache.fullCache := by
  have hreceive : exchange.client.receive
      (broadcastChat exchange.chat delivery.packet delivery.lastSeen (some delivery.signature)).2 =
      some (delivery.lastSeen,
        exchange.client.push delivery.lastSeen (some delivery.signature)) := by
    rw [ClientSignatureCache.receive]
    simp only [broadcastChat, ChatState.getAndIncrementMessagesReceived, delivery.signed,
      h.mapM_unpack]
    rfl
  refine ⟨⟨(broadcastChat exchange.chat delivery.packet delivery.lastSeen
    (some delivery.signature)).1, exchange.client.push delivery.lastSeen (some delivery.signature),
    exchange.decoded ++ [delivery.lastSeen]⟩, ?_, ⟨?_, ?_, ?_⟩, rfl,
    fun value hmem => mem_push h.length_le hmem⟩
  · rw [ChatExchange.deliver]
    simp only [hreceive]
    rfl
  · exact client_push h.length_le h.nodup hnew h.slots
  · exact length_push h.length_le delivery.lastSeen delivery.signature
  · change (MessageCache.push _ _ _).fullCache.Nodup
    rw [push_eq h.length_le]
    have hdeque : (delivery.lastSeen ++ [delivery.signature]).Nodup :=
      nodup_append.mpr ⟨hlastSeen, nodup_singleton _, by
        intro value hmem other hother heq
        rw [heq, mem_singleton.mp hother] at hmem
        exact hself hmem⟩
    exact displace_nodup (pushed_iff _ _) h.nodup hdeque _

theorem InStep.deliveries {deliveries : List ChatDelivery} (h : exchange.InStep)
    (hdelivery : ∀ delivery ∈ deliveries,
      delivery.lastSeen.Nodup ∧ delivery.signature ∉ delivery.lastSeen)
    (hfresh : deliveries.Pairwise fun earlier later =>
      later.signature ∉ earlier.lastSeen ++ [earlier.signature])
    (hnew : ∀ delivery ∈ deliveries,
      delivery.signature ∉ exchange.chat.signatureCache.fullCache) :
    ∃ next, deliveries.foldlM ChatExchange.deliver exchange = some next ∧ next.InStep ∧
      next.decoded = exchange.decoded ++ deliveries.map (·.lastSeen) := by
  induction deliveries generalizing exchange with
  | nil => exact ⟨exchange, rfl, h, (append_nil _).symm⟩
  | cons delivery rest ih =>
    obtain ⟨⟨hlastSeen, hself⟩, hrest⟩ := forall_mem_cons.mp hdelivery
    obtain ⟨hlater, hpairwise⟩ := pairwise_cons.mp hfresh
    obtain ⟨hhead, htail⟩ := forall_mem_cons.mp hnew
    obtain ⟨middle, hdeliver, hmiddle, hdecoded, hmem⟩ := h.deliver hlastSeen hself hhead
    obtain ⟨next, hrun, hnext, hall⟩ := ih hmiddle hrest hpairwise (by
      intro later hlaterMem hcached
      rcases hmem later.signature hcached with hseen | hold
      · exact hlater later hlaterMem hseen
      · exact htail later hlaterMem hold)
    refine ⟨next, ?_, hnext, ?_⟩
    · rw [foldlM_cons, hdeliver]
      exact hrun
    · rw [hall, hdecoded, append_assoc]
      rfl

/-- Whatever signed messages are delivered one after another, each with a new signature: the client
decodes what every sender has seen, and its slots hold the cache of the server, which has no more
than 128 entries and none of them twice. -/
theorem foldlM_deliver_new (deliveries : List ChatDelivery)
    (hdelivery : ∀ delivery ∈ deliveries,
      delivery.lastSeen.Nodup ∧ delivery.signature ∉ delivery.lastSeen)
    (hfresh : deliveries.Pairwise fun earlier later =>
      later.signature ∉ earlier.lastSeen ++ [earlier.signature]) :
    ∃ exchange : ChatExchange PublicKey,
      deliveries.foldlM ChatExchange.deliver ChatExchange.new = some exchange ∧
      exchange.decoded = deliveries.map (·.lastSeen) ∧
      exchange.client.entries =
        exchange.chat.signatureCache.fullCache.map some ++
          List.replicate (128 - exchange.chat.signatureCache.fullCache.length) none ∧
      exchange.chat.signatureCache.fullCache.length ≤ 128 ∧
      exchange.chat.signatureCache.fullCache.Nodup := by
  obtain ⟨exchange, hrun, hinStep, hdecoded⟩ :=
    inStep_new.deliveries hdelivery hfresh (fun _ _ => not_mem_nil)
  exact ⟨exchange, hrun, hdecoded, hinStep.slots, hinStep.length_le, hinStep.nodup⟩

/-- A message with the given signature, and what its sender has seen. -/
def deliveryOf (signature : Signature) (lastSeen : LastSeen) : ChatDelivery where
  packet := ⟨0, 0, 0, some signature, "", 0, 0, []⟩
  lastSeen := lastSeen
  signature := signature
  signed := rfl

theorem foldlM_deliver_new_twice :
    ∃ exchange : ChatExchange Unit,
      [deliveryOf [1] [[7]], deliveryOf [2] [[7], [1]]].foldlM ChatExchange.deliver
        ChatExchange.new = some exchange ∧
      exchange.decoded = [[[7]], [[7], [1]]] ∧
      exchange.chat.signatureCache.fullCache = [[2], [1], [7]] := by
  have hresult : ∃ exchange : ChatExchange Unit, _ :=
    foldlM_deliver_new [deliveryOf [1] [[7]], deliveryOf [2] [[7], [1]]] (by decide) (by decide)
  obtain ⟨exchange, hrun, hdecoded, -⟩ := hresult
  refine ⟨exchange, hrun, hdecoded, ?_⟩
  cases hrun
  rfl

end ChatExchange

end Steel

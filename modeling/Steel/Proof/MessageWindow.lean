import Steel.Player.Chat.MessageChain

/-!
# The window of acknowledged messages

The tracked messages are the end of all messages so far, which are counted from the first. A message
in the window of an accepted update stays as the update left it, so a later update has the same bit
for it.
-/

namespace Steel

/-- The bits of an update, of which twenty are used. -/
abbrev AcknowledgedBits := Vector UInt8 3

open List

namespace LastSeenMessagesValidator

variable {acknowledged : AcknowledgedBits} {entries settled : List (Option TrackedEntry)}
  {signatures : List Signature}

/-- What an update does to each entry of its window, and what it returns. -/
theorem acknowledgeFrom_ok {start : ℕ}
    (h : acknowledgeFrom acknowledged start entries = (settled, .ok signatures)) :
    settled.length = entries.length ∧
      (∀ i < entries.length,
        (isAcknowledged acknowledged (start + i) = true →
          ∃ entry, entries[i]? = some (some entry) ∧ settled[i]? = some (some entry.acknowledge)) ∧
        (isAcknowledged acknowledged (start + i) = false →
          settled[i]? = some none ∧ ∀ signature, entries[i]? ≠ some (some ⟨signature, false⟩))) ∧
      signatures = (range entries.length).filterMap fun i =>
        if isAcknowledged acknowledged (start + i) then (entries[i]?.join).bind (·.signature)
        else none := by
  induction entries generalizing start settled signatures with
  | nil =>
    rw [acknowledgeFrom] at h
    obtain ⟨rfl, hok⟩ := Prod.mk.inj h
    cases hok
    simp
  | cons entry rest ih =>
    have hshift : ∀ i, start + 1 + i = start + (i + 1) := by omega
    have hrange : ∀ f : ℕ → Option Signature, (range (entry :: rest).length).filterMap f =
        (f 0).toList ++ (range rest.length).filterMap fun i => f (i + 1) := by
      intro f
      rw [length_cons, range_succ_eq_map, filterMap_cons, filterMap_map]
      cases f 0 <;> rfl
    generalize hrec : acknowledgeFrom acknowledged (start + 1) rest = result at *
    obtain ⟨restSettled, restResult⟩ := result
    rw [hrange]
    cases hbit : isAcknowledged acknowledged start with
    | true =>
      cases entry with
      | none => simp [acknowledgeFrom, hbit] at h
      | some entry =>
        simp only [acknowledgeFrom, hbit, if_true, hrec, Prod.mk.injEq] at h
        obtain ⟨rfl, hok⟩ := h
        cases restResult with
        | error error => cases hok
        | ok restSignatures =>
          obtain ⟨hlength, heach, rfl⟩ := ih hrec
          obtain rfl := Except.ok.inj hok
          refine ⟨by simp [hlength], ?_, ?_⟩
          · intro i hi
            cases i with
            | zero => simp [hbit]
            | succ i => simpa [hshift] using heach i (by simpa using hi)
          · simp only [if_true, hshift]
            rfl
    | false =>
      have hskip : (∀ signature, entry ≠ some ⟨signature, false⟩) ∧
          settled = none :: restSettled ∧ restResult = .ok signatures := by
        cases entry with
        | none => simpa [acknowledgeFrom, hbit, hrec, eq_comm] using h
        | some entry =>
          obtain ⟨signature, pending⟩ := entry
          cases pending with
          | false => simp [acknowledgeFrom, hbit] at h
          | true => simpa [acknowledgeFrom, hbit, hrec, eq_comm] using h
      obtain ⟨hentry, rfl, rfl⟩ := hskip
      obtain ⟨hlength, heach, rfl⟩ := ih hrec
      refine ⟨by simp [hlength], ?_, ?_⟩
      · intro i hi
        cases i with
        | zero => simpa [hbit] using hentry
        | succ i => simpa [hshift] using heach i (by simpa using hi)
      · simp only [hshift]
        rfl

end LastSeenMessagesValidator

/-! ### Histories -/

/-- An update that was accepted: where its window starts among all messages, its bits and what it
returned. -/
structure AcceptedUpdate where
  start : ℕ
  acknowledged : AcknowledgedBits
  signatures : List Signature

def AcceptedUpdate.isAcknowledged (update : AcceptedUpdate) (index : ℕ) : Bool :=
  LastSeenMessagesValidator.isAcknowledged update.acknowledged (index - update.start)

structure ValidatorHistory where
  validator : LastSeenMessagesValidator
  removed : ℕ
  sent : List (Option Signature)
  updates : List AcceptedUpdate

namespace ValidatorHistory

def messages (history : ValidatorHistory) : List (Option (Option Signature)) :=
  replicate LastSeenMessagesValidator.maxTrackedMessages none ++ history.sent.map some

inductive Accepted : ValidatorHistory → Prop
  | new : Accepted ⟨.new, 0, [], []⟩
  | addPending {history : ValidatorHistory} (h : Accepted history) (signature : Option Signature) :
      Accepted { history with
        validator := history.validator.addPending signature
        sent := if signature ≠ history.validator.lastPendingSignature then
          history.sent ++ [signature] else history.sent }
  | applyOffset {history : ValidatorHistory} (h : Accepted history) {offset : Int32}
      {next : LastSeenMessagesValidator} (hok : history.validator.applyOffset offset = .ok next) :
      Accepted { history with
        validator := next, removed := history.removed + offset.toInt.toNat }
  | applyUpdate {history : ValidatorHistory} (h : Accepted history)
      {acknowledged : AcknowledgedBits}
      {offset : Int32} {next : LastSeenMessagesValidator} {signatures : List Signature}
      (hok : history.validator.applyUpdate acknowledged offset = (next, .ok signatures)) :
      Accepted { history with
        validator := next
        removed := history.removed + offset.toInt.toNat
        updates := history.updates ++
          [⟨history.removed + offset.toInt.toNat, acknowledged, signatures⟩] }

/-- The tracked messages are the last of all, and those in the window of an update are as the update
left them. -/
structure Tracked (history : ValidatorHistory) : Prop where
  length_ge : 20 ≤ history.validator.trackedMessages.length
  length_eq : history.removed + history.validator.trackedMessages.length = history.messages.length
  entries : ∀ i entry, history.validator.trackedMessages[i]? = some (some entry) →
    history.messages[history.removed + i]? = some (some entry.signature)
  start_le : ∀ update ∈ history.updates, update.start ≤ history.removed
  acknowledged : ∀ update ∈ history.updates, ∀ i, history.removed + i < update.start + 20 →
    update.isAcknowledged (history.removed + i) = true →
      ∃ signature, history.validator.trackedMessages[i]? = some (some ⟨signature, false⟩)
  ignored : ∀ update ∈ history.updates, ∀ i, history.removed + i < update.start + 20 →
    update.isAcknowledged (history.removed + i) = false →
      history.validator.trackedMessages[i]? = some none
  returned : ∀ update ∈ history.updates, update.signatures =
    (range 20).filterMap fun i =>
      if update.isAcknowledged (update.start + i) then history.messages[update.start + i]?.join.join
      else none
  agree : history.updates.Pairwise fun earlier later => earlier.start ≤ later.start ∧
    ∀ index, later.start ≤ index → index < earlier.start + 20 →
      earlier.isAcknowledged index = later.isAcknowledged index

variable {history : ValidatorHistory}

theorem tracked_new : Tracked ⟨.new, 0, [], []⟩ where
  length_ge := Nat.le_refl _
  length_eq := rfl
  entries i entry hentry := by
    have hmem := mem_of_getElem? hentry
    cases eq_of_mem_replicate hmem
  start_le update hupdate := by cases hupdate
  acknowledged update hupdate := by cases hupdate
  ignored update hupdate := by cases hupdate
  returned update hupdate := by cases hupdate
  agree := Pairwise.nil

/-- A window ends before the messages do. -/
theorem Tracked.window_lt (h : Tracked history) {update : AcceptedUpdate}
    (hupdate : update ∈ history.updates) {i : ℕ} (hi : i < 20) :
    update.start + i < history.messages.length := by
  have hstart := h.start_le update hupdate
  have hge := h.length_ge
  have heq := h.length_eq
  omega

/-- Messages that were there stay when one is added. -/
theorem Tracked.push (h : Tracked history) (signature : Option Signature) :
    Tracked { history with
      validator :=
        { trackedMessages := history.validator.trackedMessages ++ [some ⟨signature, true⟩]
          lastPendingSignature := signature }
      sent := history.sent ++ [signature] } := by
  have hmessages : messages { history with sent := history.sent ++ [signature] } =
      history.messages ++ [some signature] := by
    simp [messages]
  have hge := h.length_ge
  have heq := h.length_eq
  have hinside : ∀ update ∈ history.updates, ∀ i, history.removed + i < update.start + 20 →
      i < history.validator.trackedMessages.length := by
    intro update hupdate i hi
    have hstart := h.start_le update hupdate
    omega
  refine ⟨?_, ?_, ?_, h.start_le, ?_, ?_, ?_, h.agree⟩
  · rw [length_append]
    omega
  · change _ = (messages { history with sent := history.sent ++ [signature] }).length
    rw [hmessages, length_append, length_append, length_singleton, length_singleton]
    dsimp only
    omega
  · intro i entry hentry
    change (messages { history with sent := history.sent ++ [signature] })[history.removed + i]? = _
    rw [hmessages]
    obtain hlt | hge := Nat.lt_or_ge i history.validator.trackedMessages.length
    · rw [getElem?_append_left hlt] at hentry
      rw [getElem?_append_left (by omega)]
      exact h.entries i entry hentry
    · rw [getElem?_append_right hge, List.getElem?_singleton] at hentry
      split_ifs at hentry with hlast
      obtain rfl := Option.some.inj (Option.some.inj hentry)
      rw [getElem?_append_right (by omega), List.getElem?_singleton, if_pos (by omega)]
  · intro update hupdate i hi hbit
    rw [getElem?_append_left (hinside update hupdate i hi)]
    exact h.acknowledged update hupdate i hi hbit
  · intro update hupdate i hi hbit
    rw [getElem?_append_left (hinside update hupdate i hi)]
    exact h.ignored update hupdate i hi hbit
  · intro update hupdate
    rw [h.returned update hupdate]
    refine filterMap_congr fun i hi => ?_
    have hmessage : (history.messages ++ [some signature])[update.start + i]? =
        history.messages[update.start + i]? :=
      getElem?_append_left (h.window_lt hupdate (mem_range.mp hi))
    rw [← hmessages] at hmessage
    exact congrArg (fun message : Option (Option (Option Signature)) =>
      if update.isAcknowledged (update.start + i) then message.join.join else none) hmessage.symm

/-- Only messages before the last twenty are dropped. -/
theorem applyOffset_ok {validator next : LastSeenMessagesValidator} {offset : Int32}
    (h : validator.applyOffset offset = .ok next) :
    offset.toInt.toNat ≤ validator.trackedMessages.length - 20 ∧
      next = { validator with
        trackedMessages := validator.trackedMessages.drop offset.toInt.toNat } := by
  rw [LastSeenMessagesValidator.applyOffset] at h
  split_ifs at h with hrefused
  refine ⟨?_, (Except.ok.inj h).symm⟩
  have hmax : LastSeenMessagesValidator.maxTrackedMessages = 20 := rfl
  omega

theorem Tracked.drop (h : Tracked history) {offset : ℕ}
    (hoffset : offset ≤ history.validator.trackedMessages.length - 20) :
    Tracked { history with
      validator := { history.validator with
        trackedMessages := history.validator.trackedMessages.drop offset }
      removed := history.removed + offset } := by
  have hge := h.length_ge
  have heq := h.length_eq
  refine ⟨?_, ?_, ?_, ?_, ?_, ?_, h.returned, h.agree⟩
  · rw [length_drop]
    omega
  · rw [length_drop]
    change history.removed + offset + _ = history.messages.length
    omega
  · intro i entry hentry
    rw [getElem?_drop] at hentry
    rw [Nat.add_assoc]
    exact h.entries (offset + i) entry hentry
  · intro update hupdate
    exact Nat.le_add_right_of_le (h.start_le update hupdate)
  · intro update hupdate i hi hbit
    rw [Nat.add_assoc] at hi hbit
    rw [getElem?_drop]
    exact h.acknowledged update hupdate (offset + i) hi hbit
  · intro update hupdate i hi hbit
    rw [Nat.add_assoc] at hi hbit
    rw [getElem?_drop]
    exact h.ignored update hupdate (offset + i) hi hbit

/-- An update goes through the window once more. It is accepted only if it has the same bits as the
updates before it for the messages that they have settled. -/
theorem Tracked.acknowledge (h : Tracked history) {acknowledged : AcknowledgedBits}
    {settled : List (Option TrackedEntry)} {signatures : List Signature}
    (hwindow : LastSeenMessagesValidator.acknowledgeFrom acknowledged 0
      (history.validator.trackedMessages.take 20) = (settled, .ok signatures)) :
    Tracked { history with
      validator := { history.validator with
        trackedMessages := settled ++ history.validator.trackedMessages.drop 20 }
      updates := history.updates ++ [⟨history.removed, acknowledged, signatures⟩] } := by
  have hge := h.length_ge
  have htake : (history.validator.trackedMessages.take 20).length = 20 := by
    rw [length_take]
    omega
  obtain ⟨hlength, heach, hreturned⟩ := LastSeenMessagesValidator.acknowledgeFrom_ok hwindow
  rw [htake] at hlength heach hreturned
  simp only [Nat.zero_add] at heach hreturned
  set tracked := history.validator.trackedMessages with htracked
  have hold : ∀ i < 20, (tracked.take 20)[i]? = tracked[i]? := fun i hi => getElem?_take_of_lt hi
  have hnew : ∀ i < 20, (settled ++ tracked.drop 20)[i]? = settled[i]? :=
    fun i hi => getElem?_append_left (by omega)
  have hinside : ∀ update ∈ history.updates, ∀ i, history.removed + i < update.start + 20 →
      i < 20 := by
    intro update hupdate i hi
    have hstart := h.start_le update hupdate
    omega
  -- The bits of an earlier update are the bits of this one.
  have hsame : ∀ update ∈ history.updates, ∀ i, history.removed + i < update.start + 20 →
      update.isAcknowledged (history.removed + i) =
        LastSeenMessagesValidator.isAcknowledged acknowledged i := by
    intro update hupdate i hi
    have hlt := hinside update hupdate i hi
    cases hbit : update.isAcknowledged (history.removed + i) with
    | true =>
      obtain ⟨signature, hentry⟩ := h.acknowledged update hupdate i hi hbit
      cases hthis : LastSeenMessagesValidator.isAcknowledged acknowledged i with
      | true => rfl
      | false => exact absurd ((hold i hlt).trans hentry) (((heach i hlt).2 hthis).2 signature)
    | false =>
      have hentry := h.ignored update hupdate i hi hbit
      cases hthis : LastSeenMessagesValidator.isAcknowledged acknowledged i with
      | false => rfl
      | true =>
        obtain ⟨entry, hsome, -⟩ := (heach i hlt).1 hthis
        rw [hold i hlt, hentry] at hsome
        cases hsome
  have hset : ∀ i < 20, LastSeenMessagesValidator.isAcknowledged acknowledged i = true →
      ∃ signature, (settled ++ tracked.drop 20)[i]? = some (some ⟨signature, false⟩) := by
    intro i hi hbit
    obtain ⟨entry, -, hentry⟩ := (heach i hi).1 hbit
    exact ⟨entry.signature, (hnew i hi).trans hentry⟩
  have hclear : ∀ i < 20, LastSeenMessagesValidator.isAcknowledged acknowledged i = false →
      (settled ++ tracked.drop 20)[i]? = some none :=
    fun i hi hbit => (hnew i hi).trans ((heach i hi).2 hbit).1
  have hself : ∀ i, AcceptedUpdate.isAcknowledged ⟨history.removed, acknowledged, signatures⟩
      (history.removed + i) = LastSeenMessagesValidator.isAcknowledged acknowledged i := by
    intro i
    rw [AcceptedUpdate.isAcknowledged, Nat.add_sub_cancel_left]
  refine ⟨?_, ?_, ?_, ?_, ?_, ?_, ?_, ?_⟩
  · rw [length_append, hlength]
    omega
  · have heq : history.removed + tracked.length = history.messages.length := h.length_eq
    rw [length_append, hlength, length_drop]
    change history.removed + _ = history.messages.length
    omega
  · intro i entry hentry
    obtain hlt | hge := Nat.lt_or_ge i 20
    · rw [hnew i hlt] at hentry
      cases hbit : LastSeenMessagesValidator.isAcknowledged acknowledged i with
      | true =>
        obtain ⟨before, hbefore, hafter⟩ := (heach i hlt).1 hbit
        rw [hafter] at hentry
        rw [← Option.some.inj (Option.some.inj hentry)]
        exact h.entries i before ((hold i hlt).symm.trans hbefore)
      | false =>
        rw [((heach i hlt).2 hbit).1] at hentry
        cases hentry
    · rw [getElem?_append_right (by omega), getElem?_drop, hlength, Nat.add_sub_cancel' hge]
        at hentry
      exact h.entries i entry hentry
  · intro update hupdate
    obtain hupdate | hlast := mem_append.mp hupdate
    · exact h.start_le update hupdate
    · rw [mem_singleton.mp hlast]
  · intro update hupdate i hi hbit
    obtain hupdate | hlast := mem_append.mp hupdate
    · exact hset i (hinside update hupdate i hi) ((hsame update hupdate i hi).symm.trans hbit)
    · rw [mem_singleton.mp hlast] at hi hbit
      exact hset i (Nat.lt_of_add_lt_add_left hi) ((hself i).symm.trans hbit)
  · intro update hupdate i hi hbit
    obtain hupdate | hlast := mem_append.mp hupdate
    · exact hclear i (hinside update hupdate i hi) ((hsame update hupdate i hi).symm.trans hbit)
    · rw [mem_singleton.mp hlast] at hi hbit
      exact hclear i (Nat.lt_of_add_lt_add_left hi) ((hself i).symm.trans hbit)
  · intro update hupdate
    obtain hupdate | hlast := mem_append.mp hupdate
    · exact h.returned update hupdate
    · rw [mem_singleton.mp hlast]
      refine hreturned.trans (filterMap_congr fun i hi => ?_)
      have hlt := mem_range.mp hi
      rw [hself]
      split_ifs with hbit
      · obtain ⟨entry, hentry, -⟩ := (heach i hlt).1 hbit
        have hmessage := h.entries i entry ((hold i hlt).symm.trans hentry)
        change _ = (history.messages[history.removed + i]?).join.join
        rw [hentry, hmessage]
        rfl
      · rfl
  · refine pairwise_append.mpr ⟨h.agree, pairwise_singleton _ _, ?_⟩
    intro earlier hearlier later hlater
    rw [mem_singleton.mp hlater]
    refine ⟨h.start_le earlier hearlier, fun index hindex hbefore => ?_⟩
    obtain ⟨i, rfl⟩ := Nat.exists_eq_add_of_le hindex
    rw [hself]
    exact hsame earlier hearlier i hbefore

theorem Accepted.tracked (h : Accepted history) : Tracked history := by
  induction h with
  | new => exact tracked_new
  | addPending h signature ih =>
    unfold LastSeenMessagesValidator.addPending
    split_ifs
    · exact ih.push signature
    · exact ih
  | applyOffset h hok ih =>
    obtain ⟨hoffset, rfl⟩ := applyOffset_ok hok
    exact ih.drop hoffset
  | @applyUpdate history h acknowledged offset next signatures hok ih =>
    rw [LastSeenMessagesValidator.applyUpdate] at hok
    cases hoffset : history.validator.applyOffset offset with
    | error error => simp [hoffset] at hok
    | ok validator =>
      obtain ⟨hle, rfl⟩ := applyOffset_ok hoffset
      simp only [hoffset, Prod.mk.injEq] at hok
      obtain ⟨rfl, hresult⟩ := hok
      exact (ih.drop hle).acknowledge (Prod.ext rfl hresult)

theorem mem_sent_of_messages {index : ℕ} {signature : Signature}
    (h : history.messages[index]?.join.join = some signature) : some signature ∈ history.sent := by
  have hmessage : history.messages[index]? = some (some (some signature)) := by
    simpa [Option.join_eq_some_iff] using h
  obtain hfirst | hsent := mem_append.mp (mem_of_getElem? hmessage)
  · cases eq_of_mem_replicate hfirst
  · simpa using hsent

/-- In a history of accepted calls the last twenty messages are tracked, an update returns the
signatures at its set bits, which were all sent, and two updates agree on the messages that are in
both of their windows. -/
theorem Accepted.window_sound (h : Accepted history) :
    20 ≤ history.validator.trackedMessages.length ∧
      (∀ update ∈ history.updates, update.signatures =
        (range 20).filterMap fun i =>
          if update.isAcknowledged (update.start + i) then
            history.messages[update.start + i]?.join.join
          else none) ∧
      (∀ update ∈ history.updates, ∀ signature ∈ update.signatures,
        some signature ∈ history.sent) ∧
      (history.updates.Pairwise fun earlier later => earlier.start ≤ later.start ∧
        ∀ index, later.start ≤ index → index < earlier.start + 20 →
          earlier.isAcknowledged index = later.isAcknowledged index) ∧
      ∀ offset next, history.validator.applyOffset offset = .ok next →
        history.validator.trackedMessages.drop
          (history.validator.trackedMessages.length - 20) <:+ next.trackedMessages := by
  have htracked := h.tracked
  refine ⟨htracked.length_ge, htracked.returned, ?_, htracked.agree, ?_⟩
  · intro update hupdate signature hsignature
    rw [htracked.returned update hupdate] at hsignature
    obtain ⟨i, -, hi⟩ := mem_filterMap.mp hsignature
    split_ifs at hi
    exact mem_sent_of_messages hi
  · intro offset next hok
    obtain ⟨hoffset, rfl⟩ := applyOffset_ok hok
    obtain ⟨more, hmore⟩ := Nat.exists_eq_add_of_le hoffset
    rw [hmore, ← drop_drop]
    exact drop_suffix _ _

theorem window_sound_second_update :
    ∃ history, Accepted history ∧
      history.updates.map AcceptedUpdate.signatures = [[[1]], [[1], [2]]] ∧
      20 ≤ history.validator.trackedMessages.length := by
  have hfirst := (Accepted.new.addPending (some [1])).applyUpdate
    (rfl : LastSeenMessagesValidator.applyUpdate _ #v[0, 0, 8] 1 = (_, .ok [[1]]))
  have hsecond := (hfirst.addPending (some [2])).applyUpdate
    (rfl : LastSeenMessagesValidator.applyUpdate _ #v[0, 0, 12] 1 = (_, .ok [[1], [2]]))
  exact ⟨_, hsecond, rfl, hsecond.window_sound.1⟩

end ValidatorHistory

end Steel

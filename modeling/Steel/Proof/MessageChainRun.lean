import Mathlib.Data.List.Pairwise
import Steel.Player.Chat.Session

/-!
# The chain over a session

A message moves the chain, breaks it, or leaves it alone. The chain moves before the signature is
checked, so a message with an invalid signature takes an index away and the session goes on.
-/

namespace Steel

open List

namespace ChatState

variable {PublicKey : Type} {server : ChatServer PublicKey} {chat : ChatState PublicKey}

/-- What a message can do to the chain. -/
inductive ChainEffect (before : Option SignedMessageChain) :
    Option SignedMessageChain → ChatVerdict → Prop
  | kept {error : ChatError} (hverdict : (ChatVerdict.rejected error).outOfOrder = false) :
      ChainEffect before before (.rejected error)
  | broken {chain : SignedMessageChain} (hbefore : before = some chain) :
      ChainEffect before (some chain.breakChain) (.rejected (.chain .outOfOrderChat))
  | failed {chain : SignedMessageChain} {link : SignedMessageLink} {timeStamp : SystemTime}
      {error : ChatError} (hbefore : before = some chain) (hlink : chain.nextLink = some link)
      (htime : chain.lastTimestamp ≤ timeStamp)
      (hverdict : (ChatVerdict.rejected error).signatureFailed = true) :
      ChainEffect before (some ⟨link.advance, timeStamp⟩) (.rejected error)
  | moved {chain : SignedMessageChain} {link : SignedMessageLink} {body : SignedMessageBody}
      (hbefore : before = some chain) (hlink : chain.nextLink = some link)
      (htime : chain.lastTimestamp ≤ body.timeStamp) :
      ChainEffect before (some ⟨link.advance, body.timeStamp⟩) (.accepted link body)

theorem verifySigned_effect (chat : ChatState PublicKey) (session : RemoteChatSession PublicKey)
    (signature : Signature) (body : SignedMessageBody) :
    ChainEffect chat.messageChain (chat.verifySigned server session signature body).1.messageChain
      (.ofResult (chat.verifySigned server session signature body).2) := by
  unfold verifySigned
  split
  · exact .kept rfl
  · next chain hchain =>
      unfold SignedMessageChain.validateAndAdvance
      cases hlink : chain.nextLink with
      | none =>
        rw [hchain]
        exact .kept rfl
      | some link =>
        by_cases htime : body.timeStamp < chain.lastTimestamp
        · simp only [if_pos htime]
          exact .broken hchain
        · simp only [if_neg htime]
          split
          · exact .failed hchain hlink (not_lt.mp htime) rfl
          · exact .moved hchain hlink (not_lt.mp htime)
          · exact .failed hchain hlink (not_lt.mp htime) rfl

theorem verifyChatSignature_effect (packet : SChat) (keyNow now : SystemTime) :
    ChainEffect chat.messageChain
      (chat.verifyChatSignature server packet keyNow now).1.messageChain
      (.ofResult (chat.verifyChatSignature server packet keyNow now).2) := by
  unfold verifyChatSignature
  split
  · exact .kept rfl
  · split
    · exact .kept rfl
    · split
      · exact .kept rfl
      · split
        · exact .kept rfl
        · split
          · exact .kept rfl
          · simp only
            split
            · exact .kept rfl
            · split
              · exact .kept rfl
              · exact verifySigned_effect
                  { chat with
                    messageValidator :=
                      (chat.messageValidator.applyUpdate packet.acknowledged packet.offset).1 }
                  _ _ _

/-- The validator accepts the link and the body of a message that moves the chain. -/
def Signed (server : ChatServer PublicKey) (chat : ChatState PublicKey) :
    ChatEvent PublicKey → Prop
  | .message packet keyNow now => ∀ session signature chain link lastSeen,
    chat.chatSession = some session → packet.signature = some signature →
    session.profilePublicKey.hasExpiredWithGrace expiryGracePeriod keyNow = false →
    chat.messageChain = some chain → chain.nextLink = some link →
    max (now - timestampOf packet) 0 ≤ messageExpiresAfterServer →
    (chat.messageValidator.applyUpdate packet.acknowledged packet.offset).2 = .ok lastSeen →
    chain.lastTimestamp ≤ timestampOf packet →
    server.validate session.profilePublicKey.key
      (messageSignatureBytes link (bodyOf packet lastSeen)) signature = .ok true
  | _ => True

theorem verifySigned_signatureFailed (chat : ChatState PublicKey)
    (session : RemoteChatSession PublicKey) (signature : Signature) (body : SignedMessageBody) :
    (ChatVerdict.ofResult (chat.verifySigned server session signature body).2).signatureFailed =
        false ↔
      ∀ chain link, chat.messageChain = some chain → chain.nextLink = some link →
        chain.lastTimestamp ≤ body.timeStamp →
        server.validate session.profilePublicKey.key (messageSignatureBytes link body) signature =
          .ok true := by
  unfold verifySigned SignedMessageChain.validateAndAdvance
  cases chat.messageChain with
  | none => exact iff_of_true rfl fun _ _ hchain => nomatch hchain
  | some chain =>
    cases hlink : chain.nextLink with
    | none =>
      simp only [hlink]
      refine iff_of_true rfl ?_
      rintro _ _ ⟨⟩ hsome
      cases hlink.symm.trans hsome
    | some link =>
      by_cases htime : body.timeStamp < chain.lastTimestamp
      · simp only [hlink, if_pos htime]
        refine iff_of_true rfl ?_
        rintro _ _ ⟨⟩ - hle
        exact absurd htime (not_lt.mpr hle)
      · simp only [hlink, if_neg htime]
        constructor
        · rintro h _ _ ⟨⟩ hlink' -
          cases hlink.symm.trans hlink'
          split at h
          · cases h
          · assumption
          · cases h
        · intro h
          rw [h chain link rfl hlink (not_lt.mp htime)]
          rfl

/-- Exactly the messages that are not signed are rejected for their signature. -/
theorem signed_message_iff (packet : SChat) (keyNow now : SystemTime) :
    Signed server chat (.message packet keyNow now) ↔
      (ChatVerdict.ofResult
        (chat.verifyChatSignature server packet keyNow now).2).signatureFailed = false := by
  constructor
  · intro h
    unfold verifyChatSignature
    split
    · rfl
    · next session hsession =>
      split
      · rfl
      · next signature hsignature =>
        split
        · rfl
        · next hkey =>
          split
          · rfl
          · next chain hchain =>
            split
            · rfl
            · simp only
              split
              · rfl
              · next hage =>
                split
                · rfl
                · next lastSeen hupdate =>
                  refine (verifySigned_signatureFailed _ _ _ _).mpr ?_
                  intro current link hcurrent hlink htime
                  exact h session signature current link lastSeen hsession hsignature
                    (Bool.eq_false_iff.mpr hkey) hcurrent hlink (not_lt.mp hage) hupdate htime
  · intro h session signature chain link lastSeen hsession hsignature hkey hchain hlink hage hupdate
      htime
    have hopen : chain.isBroken = false := by rw [SignedMessageChain.isBroken, hlink]; rfl
    simp only [verifyChatSignature, hsession, hsignature, hkey, hchain, hopen, hupdate,
      not_lt.mpr hage, if_false, Bool.false_eq_true] at h
    exact (verifySigned_signatureFailed _ _ _ _).mp h chain link rfl hlink htime

end ChatState

theorem SignedMessageLink.toInt_advance {link next : SignedMessageLink}
    (h : link.advance = some next) : next.index.toInt = link.index.toInt + 1 := by
  unfold advance at h
  split at h
  · cases h
  · next hne =>
      cases h
      have hlt : link.index.toInt ≠ 2147483647 := fun heq => hne (Int32.toInt_inj.mp heq)
      have hle := link.index.toInt_lt
      have hge := link.index.le_toInt
      rw [Int32.toInt_add, Int32.toInt_one]
      exact Int.bmod_eq_of_le (by omega) (by omega)

open ChatState

/-- The chain and the history of a session fit together. -/
structure Chained (chain : Option SignedMessageChain) (history : List ChatVerdict) : Prop where
  indices : (∀ verdict ∈ history, verdict.signatureFailed = false) →
    history.filterMap ChatVerdict.index? =
      (List.range (history.filterMap ChatVerdict.index?).length).map Int.ofNat
  next : (∀ verdict ∈ history, verdict.signatureFailed = false) →
    ∀ current link, chain = some current → current.nextLink = some link →
      link.index.toInt = (history.filterMap ChatVerdict.index?).length
  times : (history.filterMap ChatVerdict.timeStamp?).Pairwise (· ≤ ·)
  last : ∀ current, chain = some current →
    ∀ time ∈ history.filterMap ChatVerdict.timeStamp?, time ≤ current.lastTimestamp
  broken : ∀ verdict ∈ history, verdict.outOfOrder = true →
    ∀ current, chain = some current → current.nextLink = none
  stopped : history.Pairwise fun earlier later =>
    earlier.outOfOrder = true → later.index? = none

namespace Chained

variable {chain chain' : Option SignedMessageChain} {history : List ChatVerdict}
  {verdict : ChatVerdict}

theorem nil (hnext : ∀ current link, chain = some current → current.nextLink = some link →
    link.index = 0) : Chained chain [] where
  indices := fun _ => rfl
  next := fun _ current link hcurrent hlink => by
    rw [hnext current link hcurrent hlink]
    rfl
  times := List.Pairwise.nil
  last := fun _ _ _ hmem => nomatch hmem
  broken := fun _ hmem => nomatch hmem
  stopped := List.Pairwise.nil

theorem rejected {error : ChatError} (h : Chained chain history)
    (hnext : (ChatVerdict.rejected error).signatureFailed = false →
      ∀ current link, chain' = some current → current.nextLink = some link →
        ∃ before, chain = some before ∧ before.nextLink = some link)
    (hlast : ∀ current, chain' = some current →
      ∃ before, chain = some before ∧ before.lastTimestamp ≤ current.lastTimestamp)
    (hbroken : ∀ current, chain' = some current → current.nextLink ≠ none →
      (ChatVerdict.rejected error).outOfOrder = false ∧
        ∃ before, chain = some before ∧ before.nextLink ≠ none) :
    Chained chain' (history ++ [.rejected error]) := by
  have hindex : (history ++ [ChatVerdict.rejected error]).filterMap ChatVerdict.index? =
      history.filterMap ChatVerdict.index? := by simp [ChatVerdict.index?]
  have htime : (history ++ [ChatVerdict.rejected error]).filterMap ChatVerdict.timeStamp? =
      history.filterMap ChatVerdict.timeStamp? := by simp [ChatVerdict.timeStamp?]
  refine ⟨?_, ?_, ?_, ?_, ?_, ?_⟩
  · intro hvalid
    rw [hindex]
    exact h.indices fun verdict hmem => hvalid verdict (mem_append_left _ hmem)
  · intro hvalid current link hcurrent hlink
    rw [hindex]
    obtain ⟨before, hbefore, hsame⟩ :=
      hnext (hvalid _ (mem_append_right _ (mem_singleton_self _))) current link hcurrent
        hlink
    exact h.next (fun verdict hmem => hvalid verdict (mem_append_left _ hmem)) before link
      hbefore hsame
  · rw [htime]
    exact h.times
  · intro current hcurrent time hmem
    rw [htime] at hmem
    obtain ⟨before, hbefore, hle⟩ := hlast current hcurrent
    exact (h.last before hbefore time hmem).trans hle
  · intro verdict hmem hverdict current hcurrent
    by_contra hne
    obtain ⟨hkept, before, hbefore, hopen⟩ := hbroken current hcurrent hne
    rcases mem_append.mp hmem with hmem | hmem
    · exact hopen (h.broken verdict hmem hverdict before hbefore)
    · rw [mem_singleton.mp hmem, hkept] at hverdict
      cases hverdict
  · refine pairwise_append.mpr ⟨h.stopped, pairwise_singleton _ _, ?_⟩
    intro earlier _ later hlater _
    rw [mem_singleton.mp hlater]
    rfl

/-- An accepted message takes the next link and does not go back in time. -/
theorem accepted {current : SignedMessageChain} {link : SignedMessageLink}
    {body : SignedMessageBody} (h : Chained chain history) (hchain : chain = some current)
    (hlink : current.nextLink = some link) (htime : current.lastTimestamp ≤ body.timeStamp) :
    Chained (some ⟨link.advance, body.timeStamp⟩) (history ++ [.accepted link body]) := by
  have hindex : (history ++ [ChatVerdict.accepted link body]).filterMap ChatVerdict.index? =
      history.filterMap ChatVerdict.index? ++ [link.index.toInt] := by
    rw [filterMap_append]
    rfl
  have htimes : (history ++ [ChatVerdict.accepted link body]).filterMap ChatVerdict.timeStamp? =
      history.filterMap ChatVerdict.timeStamp? ++ [body.timeStamp] := by
    rw [filterMap_append]
    rfl
  have hbefore : ∀ time ∈ history.filterMap ChatVerdict.timeStamp?, time ≤ body.timeStamp :=
    fun time hmem => (h.last current hchain time hmem).trans htime
  refine ⟨?_, ?_, ?_, ?_, ?_, ?_⟩
  · intro hvalid
    have hold := fun verdict hmem => hvalid verdict (mem_append_left _ hmem)
    rw [hindex, length_append, length_singleton, range_succ, map_append,
      ← h.indices hold, h.next hold current link hchain hlink]
    rfl
  · intro hvalid next link' hnext hlink'
    cases hnext
    have hold := fun verdict hmem => hvalid verdict (mem_append_left _ hmem)
    rw [SignedMessageLink.toInt_advance hlink', h.next hold current link hchain hlink, hindex,
      length_append]
    rfl
  · rw [htimes]
    refine pairwise_append.mpr ⟨h.times, pairwise_singleton _ _, ?_⟩
    intro time hmem other hother
    rw [mem_singleton.mp hother]
    exact hbefore time hmem
  · intro next hnext time hmem
    cases hnext
    rw [htimes] at hmem
    rcases mem_append.mp hmem with hmem | hmem
    · exact hbefore time hmem
    · exact (mem_singleton.mp hmem).le
  · intro verdict hmem hverdict
    rcases mem_append.mp hmem with hmem | hmem
    · exact absurd (hlink.symm.trans (h.broken verdict hmem hverdict current hchain))
        (Option.some_ne_none link)
    · rw [mem_singleton.mp hmem] at hverdict
      cases hverdict
  · refine pairwise_append.mpr ⟨h.stopped, pairwise_singleton _ _, ?_⟩
    intro earlier hearlier later _ hverdict
    exact absurd (hlink.symm.trans (h.broken earlier hearlier hverdict current hchain))
      (Option.some_ne_none link)

theorem effect (h : Chained chain history) (heffect : ChainEffect chain chain' verdict) :
    Chained chain' (history ++ [verdict]) := by
  cases heffect with
  | kept hverdict =>
    exact h.rejected (fun _ current _ hcurrent hlink => ⟨current, hcurrent, hlink⟩)
      (fun current hcurrent => ⟨current, hcurrent, le_refl _⟩)
      (fun current hcurrent hopen => ⟨hverdict, current, hcurrent, hopen⟩)
  | @broken current hbefore =>
    refine h.rejected ?_ ?_ ?_
    · rintro - _ link ⟨⟩ hlink
      cases hlink
    · rintro _ ⟨⟩
      exact ⟨current, hbefore, le_refl _⟩
    · rintro _ ⟨⟩ hopen
      exact absurd rfl hopen
  | @failed current link timeStamp error hbefore hlink htime hverdict =>
    refine h.rejected ?_ ?_ ?_
    · intro hvalid
      rw [hverdict] at hvalid
      cases hvalid
    · rintro _ ⟨⟩
      exact ⟨current, hbefore, htime⟩
    · rintro _ ⟨⟩ -
      refine ⟨?_, current, hbefore, by rw [hlink]; exact Option.some_ne_none link⟩
      cases error <;> first | rfl | cases hverdict
  | moved hbefore hlink htime => exact h.accepted hbefore hlink htime

end Chained

namespace ChatRun

variable {PublicKey : Type} [DecidableEq PublicKey] {server : ChatServer PublicKey}
  {profileId : Uuid} {condition : ChatState PublicKey → ChatEvent PublicKey → Prop}
  {run : ChatRun PublicKey}

theorem apply_session (server : ChatServer PublicKey) (profileId : Uuid) (run : ChatRun PublicKey)
    (newSession : RemoteChatSession PublicKey) :
    run.apply server profileId (.session newSession) = run ∨
      ∃ session, run.apply server profileId (.session newSession) =
        ⟨run.chat.setChatSession profileId session, []⟩ := by
  have hupdate : run.chat.handleChatSessionUpdate server profileId newSession = (run.chat, false) ∨
      ∃ session, run.chat.handleChatSessionUpdate server profileId newSession =
        (run.chat.setChatSession profileId session, true) := by
    unfold ChatState.handleChatSessionUpdate
    split
    · exact .inr ⟨_, rfl⟩
    · exact .inl rfl
  simp only [apply]
  obtain hsame | ⟨session, hset⟩ := hupdate
  · rw [hsame]
    exact .inl rfl
  · rw [hset]
    exact .inr ⟨session, rfl⟩

theorem Reached.chained (h : Reached server profileId condition run) :
    Chained run.chat.messageChain run.history := by
  induction h with
  | new => exact Chained.nil fun _ _ hcurrent => nomatch hcurrent
  | @step run _ event _ ih =>
    cases event with
    | message packet keyNow now =>
      exact ih.effect (ChatState.verifyChatSignature_effect packet keyNow now)
    | deliver packet senderLastSeen messageSignature => cases messageSignature <;> exact ih
    | acknowledge offset =>
      simp only [apply, ChatState.handleChatAck]
      split <;> exact ih
    | session newSession =>
      obtain hsame | ⟨session, hset⟩ := apply_session server profileId run newSession
      · rwa [hsame]
      · rw [hset]
        exact Chained.nil (by
          rintro _ link ⟨⟩ hlink
          cases hlink
          rfl)

theorem Reached.signatureFailed_eq_false (h : Reached server profileId (Signed server) run) :
    ∀ verdict ∈ run.history, verdict.signatureFailed = false := by
  induction h with
  | new => exact forall_mem_nil _
  | @step run _ event hevent ih =>
    cases event with
    | message packet keyNow now =>
      exact forall_mem_append.mpr
        ⟨ih, forall_mem_singleton.mpr ((signed_message_iff packet keyNow now).mp hevent)⟩
    | deliver | acknowledge => exact ih
    | session newSession =>
      obtain hsame | ⟨session, hset⟩ := apply_session server profileId run newSession
      · rwa [hsame]
      · rw [hset]
        exact forall_mem_nil _

/-- As long as the validator accepts every message that moves the chain, none is rejected for its
signature, the accepted messages have the indices 0, 1, 2 and so on and times that do not go back,
and nothing is accepted after a message that was rejected for its order. -/
theorem reached_messageChain (h : Reached server profileId (Signed server) run) :
    (∀ verdict ∈ run.history, verdict.signatureFailed = false) ∧
      run.history.filterMap ChatVerdict.index? =
        (List.range (run.history.filterMap ChatVerdict.index?).length).map Int.ofNat ∧
      (run.history.filterMap ChatVerdict.timeStamp?).Pairwise (· ≤ ·) ∧
      run.history.Pairwise fun earlier later => earlier.outOfOrder = true → later.index? = none :=
  have hvalid := h.signatureFailed_eq_false
  ⟨hvalid, h.chained.indices hvalid, h.chained.times, h.chained.stopped⟩

/-- A server that takes one byte for a valid signature. -/
def lenientServer : ChatServer Unit where
  validate := fun _ _ signature => .ok (decide (signature = [1]))
  profileKeyValidator := some fun _ _ => .ok ()

def lenientSession : RemoteChatSession Unit := ⟨7, ⟨0, (), []⟩⟩

/-- A message at the given millisecond that acknowledges nothing. -/
def chatAt (millis : Int64) (signature : Signature) : SChat :=
  ⟨"", millis, 0, some signature, 0, #v[0, 0, 0]⟩

theorem reached_messageChain_twice :
    ∃ run : ChatRun Unit, Reached lenientServer 3 (Signed lenientServer) run ∧
      run.history =
        [.accepted ⟨0, 3, 7⟩ ⟨"", 5000000, 0, []⟩, .accepted ⟨1, 3, 7⟩ ⟨"", 6000000, 0, []⟩,
          .rejected (.chain .outOfOrderChat), .rejected .chainBroken] ∧
      run.history.filterMap ChatVerdict.index? = [0, 1] := by
  have h0 : Reached lenientServer 3 (Signed lenientServer) (new : ChatRun Unit) := .new
  have h1 := h0.step (.session lenientSession) trivial
  have h2 := h1.step (.message (chatAt 5 [1]) 0 0) ((signed_message_iff ..).mpr (by decide +kernel))
  have h3 := h2.step (.message (chatAt 6 [1]) 0 0) ((signed_message_iff ..).mpr (by decide +kernel))
  have h4 := h3.step (.message (chatAt 4 [1]) 0 0) ((signed_message_iff ..).mpr (by decide +kernel))
  have h5 := h4.step (.message (chatAt 9 [1]) 0 0) ((signed_message_iff ..).mpr (by decide +kernel))
  refine ⟨_, h5, by decide +kernel, ?_⟩
  exact (reached_messageChain h5).2.1.trans (by decide +kernel)

/-- A message with an invalid signature takes index 0 away, and the next message is accepted with
index 1. -/
theorem reached_after_invalidSignature :
    ∃ run : ChatRun Unit, Reached lenientServer 3 (fun _ _ => True) run ∧
      run.history =
        [.rejected .invalidSignature, .accepted ⟨1, 3, 7⟩ ⟨"", 6000000, 0, []⟩] := by
  have h0 : Reached lenientServer 3 (fun _ _ => True) (new : ChatRun Unit) := .new
  have h1 := h0.step (.session lenientSession) trivial
  have h2 := h1.step (.message (chatAt 5 [0]) 0 0) trivial
  have h3 := h2.step (.message (chatAt 6 [1]) 0 0) trivial
  exact ⟨_, h3, by decide +kernel⟩

end ChatRun

end Steel

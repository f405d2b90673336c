import Steel.Chunk.PlayerTracking

/-!
# The chunks of a player's view, of its sender and of its client

At every moment a chunk of the view is either pending or sent, and the client holds the chunks that
are sent. The client of a closed connection is no longer told to forget chunks, so only what was
sent is among the chunks it holds.
-/

namespace Steel

open List

variable {α : Type}

/-! ### The client -/

def ChunkPacket.receive (held : Finset ChunkPos) : ChunkPacket α → Finset ChunkPos
  | .levelChunkWithLight pos _ => insert pos held
  | .forgetLevelChunk pos => held.erase pos
  | _ => held

variable (packets : List (ChunkPacket α))

def clientChunks : Finset ChunkPos :=
  packets.foldl ChunkPacket.receive ∅

theorem clientChunks_concat (packet : ChunkPacket α) :
    clientChunks (packets ++ [packet]) = packet.receive (clientChunks packets) := by
  rw [clientChunks, foldl_append]
  rfl

def ForgetsHeld : Prop :=
  ∀ before pos after, packets = before ++ .forgetLevelChunk pos :: after →
    pos ∈ clientChunks before

theorem ForgetsHeld.concat {packets : List (ChunkPacket α)} {packet : ChunkPacket α}
    (h : ForgetsHeld packets)
    (hpacket : ∀ pos, packet = .forgetLevelChunk pos → pos ∈ clientChunks packets) :
    ForgetsHeld (packets ++ [packet]) := by
  intro before pos after heq
  cases after using List.reverseRec with
  | nil =>
    obtain ⟨rfl, hlast⟩ := append_inj' heq rfl
    exact hpacket pos (singleton_inj.mp hlast)
  | append_singleton after last _ =>
    rw [← cons_append, ← append_assoc] at heq
    exact h before pos after (append_inj' heq rfl).1

/-! ### Sender and client -/

/-- The sender's sets and the packets agree. `closed` tells whether the connection has closed. -/
structure Sends (closed : Bool) (sender : ChunkSender) (packets : List (ChunkPacket α)) : Prop where
  disjoint : Disjoint sender.pendingChunks sender.sentChunks
  sent_subset : sender.sentChunks ⊆ clientChunks packets
  held_subset : closed = false → clientChunks packets ⊆ sender.sentChunks
  forgets : ForgetsHeld packets

namespace Sends

variable {closed : Bool} {sender : ChunkSender} {packets : List (ChunkPacket α)} {pos : ChunkPos}

theorem empty : Sends closed .empty ([] : List (ChunkPacket α)) where
  disjoint := disjoint_bot_left
  sent_subset := Finset.Subset.refl _
  held_subset _ := Finset.Subset.refl _
  forgets before pos after h := by
    cases before <;> cases h

theorem mono {closed' : Bool} (h : Sends closed sender packets) (hclosed : closed → closed') :
    Sends closed' sender packets where
  disjoint := h.disjoint
  sent_subset := h.sent_subset
  held_subset hopen := h.held_subset (by
    cases closed with
    | false => rfl
    | true => exact absurd (hclosed rfl) (by simp [hopen]))
  forgets := h.forgets

theorem unrelated (h : Sends closed sender packets) {packet : ChunkPacket α}
    (hreceive : ∀ held, packet.receive held = held)
    (hforget : ∀ pos, packet ≠ .forgetLevelChunk pos) :
    Sends closed sender (packets ++ [packet]) where
  disjoint := h.disjoint
  sent_subset := by
    rw [clientChunks_concat, hreceive]
    exact h.sent_subset
  held_subset := by
    rw [clientChunks_concat, hreceive]
    exact h.held_subset
  forgets := h.forgets.concat fun pos heq => absurd heq (hforget pos)

theorem mark (h : Sends closed sender packets) (hpos : pos ∉ sender.sentChunks) :
    Sends closed (sender.markChunkPendingToSend pos) packets := by
  have hsent : (sender.markChunkPendingToSend pos).sentChunks = sender.sentChunks :=
    Finset.erase_eq_of_notMem hpos
  constructor
  case disjoint =>
    rw [hsent]
    exact Finset.disjoint_insert_left.mpr ⟨hpos, h.disjoint⟩
  case sent_subset =>
    rw [hsent]
    exact h.sent_subset
  case held_subset =>
    rw [hsent]
    exact h.held_subset
  case forgets => exact h.forgets

theorem drop (h : Sends closed sender packets) {closedNow : Bool} (hclosed : closedNow → closed) :
    Sends closed (sender.dropChunk closedNow pos : ChunkSender × List (ChunkPacket α)).1
      (packets ++ (sender.dropChunk closedNow pos).2) := by
  have hdisjoint : Disjoint (sender.pendingChunks.erase pos) (sender.sentChunks.erase pos) :=
    h.disjoint.mono (Finset.erase_subset _ _) (Finset.erase_subset _ _)
  unfold ChunkSender.dropChunk
  split
  case isTrue hforget =>
    constructor
    case disjoint => exact hdisjoint
    case sent_subset =>
      rw [clientChunks_concat]
      exact Finset.erase_subset_erase pos h.sent_subset
    case held_subset =>
      intro hopen
      rw [clientChunks_concat]
      exact Finset.erase_subset_erase pos (h.held_subset hopen)
    case forgets =>
      apply h.forgets.concat
      intro forgotten heq
      cases heq
      exact h.sent_subset hforget.1
  case isFalse hquiet =>
    rw [append_nil]
    constructor
    case disjoint => exact hdisjoint
    case sent_subset => exact (Finset.erase_subset _ _).trans h.sent_subset
    case held_subset =>
      -- On an open connection the packet is only left out for a chunk that was not sent.
      intro hopen
      have hnow : closedNow = false := by
        cases closedNow with
        | false => rfl
        | true => exact absurd (hclosed rfl) (by simp [hopen])
      have hunsent : pos ∉ sender.sentChunks := by simpa [hnow] using hquiet
      change clientChunks packets ⊆ sender.sentChunks.erase pos
      rw [Finset.erase_eq_of_notMem hunsent]
      exact h.held_subset hopen
    case forgets => exact h.forgets

theorem send (h : Sends closed sender packets) (contents : α) :
    Sends closed (sender.markSent pos) (packets ++ [.levelChunkWithLight pos contents]) where
  disjoint := by
    apply Finset.disjoint_insert_right.mpr
    exact ⟨Finset.notMem_erase _ _, h.disjoint.mono_left (Finset.erase_subset _ _)⟩
  sent_subset := by
    rw [clientChunks_concat]
    exact Finset.insert_subset_insert pos h.sent_subset
  held_subset hopen := by
    rw [clientChunks_concat]
    exact Finset.insert_subset_insert pos (h.held_subset hopen)
  forgets := h.forgets.concat fun _ heq => by cases heq

theorem sendAll (h : Sends closed sender packets) (encodedChunks : List (EncodedChunk α)) :
    Sends closed ((encodedChunks.map (·.pos)).foldl ChunkSender.markSent sender)
      (packets ++
        encodedChunks.map fun encoded => .levelChunkWithLight encoded.pos encoded.packet) := by
  induction encodedChunks generalizing sender packets with
  | nil => simpa using h
  | cons encoded rest ih => simpa using ih (h.send encoded.packet)

end Sends

/-! ### Following the view -/

namespace PlayerTracking

def viewChunks : Option PlayerChunkView → Finset ChunkPos
  | some view => view.forEach.toFinset
  | none => ∅

variable {pos : ChunkPos} {sender : ChunkSender} {newView : PlayerChunkView}
  {lastView : Option PlayerChunkView} {closedAfter : Bool} {packets : List (ChunkPacket α)}
  {tracking : PlayerTracking α}

theorem mem_viewChunks_some {view : PlayerChunkView} :
    pos ∈ viewChunks (some view) ↔ view.contains pos := by
  rw [viewChunks, mem_toFinset, PlayerChunkView.mem_forEach]

def known (sender : ChunkSender) : Finset ChunkPos := sender.pendingChunks ∪ sender.sentChunks

theorem known_mark (sender : ChunkSender) (pos : ChunkPos) :
    known (sender.markChunkPendingToSend pos) = insert pos (known sender) := by
  ext other
  simp only [known, ChunkSender.markChunkPendingToSend, Finset.mem_union, Finset.mem_insert,
    Finset.mem_erase]
  tauto

theorem known_markSent (hpos : pos ∈ known sender) :
    known (sender.markSent pos) = known sender := by
  ext other
  simp only [known, ChunkSender.markSent, Finset.mem_union, Finset.mem_insert, Finset.mem_erase]
    at hpos ⊢
  by_cases heq : other = pos
  · subst heq
    simpa using hpos
  · simp [heq]

theorem known_markSents {chunks : List ChunkPos} (h : ∀ pos ∈ chunks, pos ∈ known sender) :
    known (chunks.foldl ChunkSender.markSent sender) = known sender := by
  induction chunks generalizing sender with
  | nil => rfl
  | cons pos rest ih =>
    have hpos := known_markSent (h pos mem_cons_self)
    rw [foldl_cons, ih, hpos]
    intro other hother
    rw [hpos]
    exact h other (mem_cons_of_mem _ hother)

theorem known_marks (sender : ChunkSender) (chunks : List ChunkPos) :
    known (chunks.foldl ChunkSender.markChunkPendingToSend sender) =
      known sender ∪ chunks.toFinset := by
  induction chunks generalizing sender with
  | nil => simp
  | cons pos rest ih =>
    rw [foldl_cons, ih, known_mark, toFinset_cons, Finset.insert_union,
      Finset.union_insert]

theorem mem_known_applyChanges {closed : ChunkPos → Bool} (changes : List ViewChange)
    (sending : ChunkSender × List (ChunkPacket α))
    (hpos : ¬ (.added pos ∈ changes ∧ .removed pos ∈ changes)) :
    pos ∈ known (changes.foldl (applyChange closed) sending).1 ↔
      .added pos ∈ changes ∨ pos ∈ known sending.1 ∧ .removed pos ∉ changes := by
  induction changes generalizing sending with
  | nil => simp
  | cons change rest ih =>
    have hrest : ¬ (.added pos ∈ rest ∧ .removed pos ∈ rest) := fun h =>
      hpos ⟨mem_cons_of_mem _ h.1, mem_cons_of_mem _ h.2⟩
    rw [foldl_cons, ih _ hrest]
    cases change with
    | added changed =>
      have hknown : known (applyChange closed sending (.added changed)).1 =
          insert changed (known sending.1) := known_mark _ _
      rw [hknown, Finset.mem_insert]
      by_cases heq : pos = changed
      · subst heq
        have : .removed pos ∉ rest := fun h =>
          hpos ⟨mem_cons_self, mem_cons_of_mem _ h⟩
        simp [this]
      · simp [heq]
    | removed changed =>
      have hknown : known (applyChange closed sending (.removed changed)).1 =
          (known sending.1).erase changed :=
        (Finset.erase_union_distrib _ _ _).symm
      rw [hknown, Finset.mem_erase]
      by_cases heq : pos = changed
      · subst heq
        simp
      · simp [heq]

variable {sending : ChunkSender × List (ChunkPacket α)}

theorem known_updateSender {closed : ChunkPos → Bool} (h : known sending.1 = viewChunks lastView) :
    known (updateSender lastView newView closed sending).1 = viewChunks (some newView) := by
  cases lastView with
  | none =>
    have hmarked := known_marks sending.1 newView.forEach
    rw [h, viewChunks, Finset.empty_union] at hmarked
    exact hmarked
  | some lastView =>
    ext pos
    have hnotBoth : ¬ (.added pos ∈ lastView.difference newView ∧
        .removed pos ∈ lastView.difference newView) := by
      rw [PlayerChunkView.added_mem_difference, PlayerChunkView.removed_mem_difference]
      tauto
    rw [updateSender, mem_known_applyChanges _ _ hnotBoth, h, mem_viewChunks_some,
      mem_viewChunks_some, PlayerChunkView.added_mem_difference,
      PlayerChunkView.removed_mem_difference]
    tauto

theorem sends_applyChanges {closed : ChunkPos → Bool} (hclosed : ∀ pos, closed pos → closedAfter)
    (changes : List ViewChange) (h : Sends closedAfter sending.1 sending.2)
    (hadded : ∀ pos, .added pos ∈ changes → pos ∉ sending.1.sentChunks) :
    Sends closedAfter (changes.foldl (applyChange closed) sending).1
      (changes.foldl (applyChange closed) sending).2 := by
  induction changes generalizing sending with
  | nil => exact h
  | cons change rest ih =>
    rw [foldl_cons]
    -- A change only takes chunks away from those that were sent.
    have hrest : ∀ sent ⊆ sending.1.sentChunks, ∀ pos, .added pos ∈ rest → pos ∉ sent :=
      fun sent hsent pos hpos hmem => hadded pos (mem_cons_of_mem _ hpos) (hsent hmem)
    cases change with
    | added pos =>
      apply ih
      · exact h.mark (hadded pos mem_cons_self)
      · exact hrest _ (Finset.erase_subset _ _)
    | removed pos =>
      apply ih
      · exact h.drop (hclosed pos)
      · exact hrest _ (Finset.erase_subset _ _)

theorem sends_marks {closed : Bool} (chunks : List ChunkPos) (h : Sends closed sender packets)
    (hsent : sender.sentChunks = ∅) :
    Sends closed (chunks.foldl ChunkSender.markChunkPendingToSend sender) packets := by
  induction chunks generalizing sender with
  | nil => exact h
  | cons pos rest ih =>
    apply ih
    · exact h.mark (by simp [hsent])
    · simp [ChunkSender.markChunkPendingToSend, hsent]

theorem sends_center {closed : Bool} (h : Sends closed sender packets) (x z : Int) :
    Sends closed sender (packets ++ [.setChunkCenter x z]) :=
  h.unrelated (fun _ => rfl) (fun _ heq => by cases heq)

theorem sends_updateSender {closed : ChunkPos → Bool} (hclosed : ∀ pos, closed pos → closedAfter)
    (h : Sends closedAfter sending.1 sending.2) (hknown : known sending.1 = viewChunks lastView) :
    Sends closedAfter (updateSender lastView newView closed sending).1
      (updateSender lastView newView closed sending).2 := by
  have hsent : sending.1.sentChunks ⊆ viewChunks lastView := by
    rw [← hknown]
    exact Finset.subset_union_right
  cases lastView with
  | none =>
    apply sends_marks newView.forEach
    · exact sends_center h _ _
    · exact Finset.subset_empty.mp hsent
  | some lastView =>
    apply sends_applyChanges hclosed
    · dsimp only
      split
      · exact sends_center h _ _
      · exact h
    · intro pos hadded hmem
      rw [PlayerChunkView.added_mem_difference] at hadded
      exact hadded.2 (mem_viewChunks_some.mp (hsent hmem))

/-! ### Committing -/

theorem mem_resolveValidChunks {pending : Finset ChunkPos} {readings : ChunkPos → HolderReading}
    {prepared : List PreparedChunk} {encodedChunks : List (EncodedChunk α)}
    {encoded : EncodedChunk α}
    (h : encoded ∈ ChunkSender.resolveValidChunks pending readings prepared encodedChunks) :
    encoded.pos ∈ pending := by
  induction encodedChunks generalizing prepared with
  | nil => cases h
  | cons first rest ih =>
    unfold ChunkSender.resolveValidChunks at h
    split at h
    case isTrue => exact ih h
    case isFalse hpending =>
      split at h
      case h_1 => exact ih h
      case h_2 =>
        split at h
        case isTrue =>
          cases h with
          | head => exact not_not.mp hpending
          | tail _ h => exact ih h
        case isFalse => exact ih h

theorem commitBatch_cases (sender : ChunkSender) (batch : PreparedBatch)
    (encodedChunks : List (EncodedChunk α)) (epoch : UInt32) (readings : ChunkPos → HolderReading) :
    sender.commitBatch batch encodedChunks epoch readings = ([], sender, []) ∨
      ∃ validChunks : List (EncodedChunk α),
        (∀ encoded ∈ validChunks, encoded.pos ∈ sender.pendingChunks) ∧
        sender.commitBatch batch encodedChunks epoch readings =
          (validChunks.map (·.pos), (validChunks.map (·.pos)).foldl ChunkSender.markSent sender,
            .chunkBatchStart ::
              validChunks.map (fun encoded => .levelChunkWithLight encoded.pos encoded.packet) ++
              [.chunkBatchFinished validChunks.length]) := by
  unfold ChunkSender.commitBatch
  split
  case isTrue => exact Or.inl rfl
  case isFalse =>
    dsimp only
    split
    case isTrue => exact Or.inl rfl
    case isFalse => exact Or.inr ⟨_, fun encoded => mem_resolveValidChunks, rfl⟩

theorem sends_commitBatch {closed : Bool} (h : Sends closed sender packets) (batch : PreparedBatch)
    (encodedChunks : List (EncodedChunk α)) (epoch : UInt32) (readings : ChunkPos → HolderReading) :
    Sends closed (sender.commitBatch batch encodedChunks epoch readings).2.1
      (packets ++ (sender.commitBatch batch encodedChunks epoch readings).2.2) := by
  obtain hquiet | ⟨validChunks, -, hcommit⟩ :=
    commitBatch_cases sender batch encodedChunks epoch readings
  · rw [hquiet, append_nil]
    exact h
  · rw [hcommit]
    have hstart : Sends closed sender (packets ++ [.chunkBatchStart]) :=
      h.unrelated (fun _ => rfl) (fun _ heq => by cases heq)
    have hfinished : Sends closed _ (_ ++ [.chunkBatchFinished validChunks.length]) :=
      (hstart.sendAll validChunks).unrelated (fun _ => rfl) (fun _ heq => by cases heq)
    simpa using hfinished

theorem known_commitBatch (sender : ChunkSender) (batch : PreparedBatch)
    (encodedChunks : List (EncodedChunk α)) (epoch : UInt32)
    (readings : ChunkPos → HolderReading) :
    known (sender.commitBatch batch encodedChunks epoch readings).2.1 = known sender := by
  obtain hquiet | ⟨validChunks, hpending, hcommit⟩ :=
    commitBatch_cases sender batch encodedChunks epoch readings
  · rw [hquiet]
  · rw [hcommit]
    apply known_markSents
    intro pos hpos
    obtain ⟨encoded, hencoded, rfl⟩ := mem_map.mp hpos
    exact Finset.mem_union_left _ (hpending encoded hencoded)

/-! ### Runs -/

def senderView (tracking : PlayerTracking α) : Option PlayerChunkView :=
  match tracking.viewLock with
  | .free => tracking.lastTrackingView
  | .storing newView => some newView
  | .clearing removedView => removedView

structure Tracks (tracking : PlayerTracking α) : Prop where
  sends : Sends tracking.connectionClosed tracking.chunkSender tracking.packets
  known_eq : known tracking.chunkSender = viewChunks tracking.senderView
  taken : ∀ removedView, tracking.viewLock = .clearing removedView →
    tracking.lastTrackingView = none

theorem initial_tracks : Tracks (initial : PlayerTracking α) where
  sends := Sends.empty
  known_eq := rfl
  taken _ h := by cases h

theorem Tracks.step {after : PlayerTracking α} (h : Tracks tracking) (hstep : Step tracking after) :
    Tracks after := by
  have hknown := h.known_eq
  unfold senderView at hknown
  cases hstep with
  | updateSender newView closed closedAfter hfree hchanged hbefore hafter hclosed =>
    rw [hfree] at hknown
    exact
      { sends := sends_updateSender hafter (h.sends.mono hclosed) hknown
        known_eq := known_updateSender hknown
        taken := fun _ hlock => by cases hlock }
  | storeView hlock =>
    rw [hlock] at hknown
    exact ⟨h.sends, hknown, fun _ hlock => by cases hlock⟩
  | takeView hfree =>
    rw [hfree] at hknown
    exact ⟨h.sends, hknown, fun _ _ => rfl⟩
  | clearWorld hlock =>
    have hnone := h.taken _ hlock
    refine ⟨Sends.empty, ?_, fun _ hlock => by cases hlock⟩
    simp only [senderView, hnone]
    rfl
  | prepare | encode => exact ⟨h.sends, h.known_eq, h.taken⟩
  | commit =>
    exact
      { sends := sends_commitBatch h.sends _ _ _ _
        known_eq := (known_commitBatch _ _ _ _ _).trans h.known_eq
        taken := h.taken }
  | discard => exact ⟨h.sends, h.known_eq, h.taken⟩
  | close => exact ⟨h.sends.mono fun _ => rfl, h.known_eq, h.taken⟩

theorem Reached.tracks (h : Reached tracking) : Tracks tracking := by
  induction h with
  | initial => exact initial_tracks
  | step _ hstep ih => exact ih.step hstep

/-- Pending and sent chunks make up the view, the client holds what was sent for as long as it is
connected, and no batch on its way can commit a chunk that is not pending. -/
theorem reached_chunks {tracking : PlayerTracking α} (h : Reached tracking) :
    Disjoint tracking.chunkSender.pendingChunks tracking.chunkSender.sentChunks ∧
    (tracking.viewLock = .free →
      tracking.chunkSender.pendingChunks ∪ tracking.chunkSender.sentChunks =
        viewChunks tracking.lastTrackingView) ∧
    tracking.chunkSender.sentChunks ⊆ clientChunks tracking.packets ∧
    (tracking.connectionClosed = false →
      clientChunks tracking.packets = tracking.chunkSender.sentChunks) ∧
    ForgetsHeld tracking.packets ∧
    ∀ batch encodedChunks, (batch, encodedChunks) ∈ tracking.encoded → ∀ readings,
      ∃ committed after sentPackets,
        tracking.chunkSender.commitBatch batch encodedChunks tracking.chunkSendEpoch readings =
          (committed, after, sentPackets) ∧
        (∀ pos ∈ committed, pos ∈ tracking.chunkSender.pendingChunks) ∧
        ∀ pos contents, .levelChunkWithLight pos contents ∈ sentPackets → pos ∈ committed := by
  have htracks := h.tracks
  refine ⟨htracks.sends.disjoint, ?_, htracks.sends.sent_subset, ?_, htracks.sends.forgets, ?_⟩
  · intro hfree
    have hknown := htracks.known_eq
    rw [senderView, hfree] at hknown
    exact hknown
  · intro hopen
    exact (htracks.sends.held_subset hopen).antisymm htracks.sends.sent_subset
  · intro batch encodedChunks _ readings
    obtain hquiet | ⟨validChunks, hpending, hcommit⟩ := commitBatch_cases tracking.chunkSender
      batch encodedChunks tracking.chunkSendEpoch readings
    · exact ⟨[], tracking.chunkSender, [], hquiet, by simp, by simp⟩
    · refine ⟨_, _, _, hcommit, ?_, ?_⟩
      · intro pos hpos
        obtain ⟨encoded, hencoded, rfl⟩ := mem_map.mp hpos
        exact hpending encoded hencoded
      · intro pos contents hmem
        simp only [cons_append, mem_cons, mem_append, mem_map, reduceCtorEq,
          false_or, not_mem_nil, or_false, ChunkPacket.levelChunkWithLight.injEq] at hmem
        obtain ⟨encoded, hencoded, rfl, -⟩ := hmem
        exact mem_map_of_mem hencoded

/-! ### A connection that closes -/

def spawnView : PlayerChunkView := { center := ⟨0, 0⟩, viewDistance := 1 }

def farView : PlayerChunkView := { center := ⟨100, 0⟩, viewDistance := 1 }

def tickingReading : HolderReading where
  publishedStatus := some .full
  tickingReadiness := { readiness := .blockTicking, generation := 1 }
  packetContentRevision := 0

def spawnHolders (pos : ChunkPos) : Option (HolderId × HolderReading) :=
  if pos = ⟨0, 0⟩ then some (0, tickingReading) else none

def spawnBatch : PreparedBatch where
  chunks := [{ pos := ⟨0, 0⟩, holder := 0, readiness := tickingReading.tickingReadiness }]
  epochSnapshot := 0

def spawnEncoded : EncodedChunk Unit where
  pos := ⟨0, 0⟩
  packet := ()
  contentRevision := 0
  holder := 0
  readiness := tickingReading.tickingReadiness

def spawnReadings : ChunkSender.EncodeReadings Unit where
  cached := tickingReading
  before := tickingReading
  contents := some ()
  after := tickingReading

def spawned : PlayerTracking Unit :=
  { initial with
    lastTrackingView := some spawnView
    chunkSender := (updateSender none spawnView (fun _ => false)
      (ChunkSender.empty, ([] : List (ChunkPacket Unit)))).1
    packets := [.setChunkCenter 0 0] }

def spawnSent : PlayerTracking Unit :=
  { spawned with
    chunkSender := (spawned.chunkSender.commitBatch spawnBatch [spawnEncoded] 0
      fun _ => tickingReading).2.1
    packets := spawned.packets ++ (spawned.chunkSender.commitBatch spawnBatch [spawnEncoded] 0
      fun _ => tickingReading).2.2 }

theorem reached_spawned : Reached spawned := by
  have htold : Reached { spawned with lastTrackingView := none, viewLock := .storing spawnView } :=
    Reached.initial.step (.updateSender spawnView (fun _ => false) false rfl (by decide)
      (fun hclosed => by cases hclosed) (fun _ => id) id)
  exact htold.step (.storeView rfl)

theorem reached_spawnSent : Reached spawnSent := by
  have hbatch : spawned.chunkSender.prepareBatch spawnView.forEach spawnHolders ⟨0, 0⟩ 0 (some 9) =
      some spawnBatch := by decide
  have hprepared : Reached { spawned with prepared := [spawnBatch] } :=
    reached_spawned.step
      (.prepare spawnView.forEach spawnHolders ⟨0, 0⟩ (some 9) (by decide) hbatch)
  have hcontents : (ChunkSender.encodeBatch spawnBatch ∅ fun _ => spawnReadings).1 =
      [spawnEncoded] := rfl
  have hencoded := hprepared.step
    (.encode ∅ (fun _ => spawnReadings) (mem_singleton_self spawnBatch))
  rw [hcontents] at hencoded
  have hlist : [(spawnBatch, [spawnEncoded])] = [] ++ (spawnBatch, [spawnEncoded]) :: [] := rfl
  have hcommitted := hencoded.step (.commit (fun _ => tickingReading) rfl rfl hlist)
  exact hcommitted

/-- The player moves away after the connection closed: its chunk is dropped without a packet. -/
theorem closedConnection_keepsChunk :
    ∃ tracking : PlayerTracking Unit, Reached tracking ∧ tracking.viewLock = .free ∧
      clientChunks tracking.packets ≠ tracking.chunkSender.sentChunks := by
  have hclosed := reached_spawnSent.step .close
  have htold := hclosed.step (.updateSender farView (fun _ => true) true rfl (by decide)
    (fun _ _ => rfl) (fun _ => id) id)
  refine ⟨_, htold.step (.storeView rfl), rfl, ?_⟩
  decide

theorem reached_chunks_spawnSent :
    spawnSent.connectionClosed = false ∧
      clientChunks spawnSent.packets = spawnSent.chunkSender.sentChunks :=
  ⟨rfl, (reached_chunks reached_spawnSent).2.2.2.1 rfl⟩

end PlayerTracking

end Steel

import Steel.Login.IncomingTask

/-!
# Packets are the frames of the stream

As long as updates are only taken between frames, the task keeps its place in the stream: what was
taken since the last packet is the start of a frame, the reading future has exactly these bytes, and
the cipher has gone a step for each of them.

An update that is taken within a frame loses the bytes of that frame that were already there.
-/

namespace Steel

open List

variable {Key S : Type} {zlib : Zlib} {cipher : StreamCipher Key S}

namespace NetworkReader

variable (cipher) (reader : NetworkReader S)

@[simp] theorem readByte_compression (byte : UInt8) :
    (reader.readByte cipher byte).1.compression = reader.compression := by
  unfold readByte
  cases reader.cipher <;> rfl

@[simp] theorem readBytes_compression (bytes : List UInt8) :
    (reader.readBytes cipher bytes).1.compression = reader.compression := by
  induction bytes generalizing reader with
  | nil => rfl
  | cons byte rest ih =>
    rw [readBytes]
    exact (ih _).trans (readByte_compression cipher reader byte)

theorem readBytes_append (bytes more : List UInt8) :
    reader.readBytes cipher (bytes ++ more) =
      (((reader.readBytes cipher bytes).1.readBytes cipher more).1,
        (reader.readBytes cipher bytes).2 ++
          ((reader.readBytes cipher bytes).1.readBytes cipher more).2) := by
  induction bytes generalizing reader with
  | nil => rfl
  | cons byte rest ih =>
    simp only [cons_append, readBytes, ih]

theorem readBytes_snoc (bytes : List UInt8) (byte : UInt8) :
    reader.readBytes cipher (bytes ++ [byte]) =
      (((reader.readBytes cipher bytes).1.readByte cipher byte).1,
        (reader.readBytes cipher bytes).2 ++
          [((reader.readBytes cipher bytes).1.readByte cipher byte).2]) := by
  rw [readBytes_append]
  rfl

end NetworkReader

namespace IncomingTask

variable {task next : IncomingTask Key S} {branch : IncomingBranch}

/-- Where the task is, given the reader before the current frame and what was taken of the frame. -/
def AtStage (zlib : Zlib) (cipher : StreamCipher Key S) (task : IncomingTask Key S)
    (reader : NetworkReader S) (taken : List UInt8) : Prop :=
  match task.stage with
  | .waiting => task.reader = (reader.readBytes cipher taken).1 ∧
      feedAll (FrameProgress.feed zlib reader.compression) .start
        (reader.readBytes cipher taken).2 = .inl (task.progress.getD .start)
  | .processing packet => task.reader = (reader.readBytes cipher taken).1 ∧ task.progress = none ∧
      TCPNetworkDecoder.getRawPacket zlib reader.compression (reader.readBytes cipher taken).2 =
        some (.ok (packet, []))
  | .stopped => True

def InPlace (zlib : Zlib) (cipher : StreamCipher Key S) (task : IncomingTask Key S) : Prop :=
  ∃ reader taken, Frames zlib cipher task.sent task.log reader (taken ++ task.stream) ∧
    task.AtStage zlib cipher reader taken

variable {rest bytes taken : List UInt8} {log : List (IncomingEvent Key)} {reader : NetworkReader S}

theorem Frames.send (h : Frames zlib cipher bytes log reader rest) (more : List UInt8) :
    Frames zlib cipher (bytes ++ more) log reader (rest ++ more) := by
  induction h with
  | nil => exact .nil
  | packet _ hframe ih =>
    rw [append_assoc] at ih
    exact .packet ih hframe
  | action _ haction ih => exact .action ih haction

theorem Frames.take {stream : List UInt8} {byte : UInt8}
    (h : Frames zlib cipher bytes log reader (taken ++ stream)) (hstream : stream = byte :: rest) :
    Frames zlib cipher bytes log reader (taken ++ [byte] ++ rest) := by
  rw [append_assoc, singleton_append, ← hstream]
  exact h

theorem atStage_waiting
    (h : task.AtStage zlib cipher reader taken) (hstage : task.stage = .waiting) :
    task.reader = (reader.readBytes cipher taken).1 ∧
      feedAll (FrameProgress.feed zlib reader.compression) .start
        (reader.readBytes cipher taken).2 = .inl (task.progress.getD .start) := by
  rwa [AtStage, hstage] at h

theorem atStage_processing {packet : RawPacket} (h : task.AtStage zlib cipher reader taken)
    (hstage : task.stage = .processing packet) :
    task.reader = (reader.readBytes cipher taken).1 ∧ task.progress = none ∧
      TCPNetworkDecoder.getRawPacket zlib reader.compression (reader.readBytes cipher taken).2 =
        some (.ok (packet, [])) := by
  rwa [AtStage, hstage] at h

theorem InPlace.stopped (h : InPlace zlib cipher task) (hsent : next.sent = task.sent)
    (hlog : next.log = task.log) (hstage : next.stage = .stopped)
    (hstream : ∃ taken, task.stream = taken ++ next.stream) : InPlace zlib cipher next := by
  obtain ⟨reader, taken, hframes, -⟩ := h
  obtain ⟨more, hmore⟩ := hstream
  refine ⟨reader, taken ++ more, ?_, ?_⟩
  · rw [hsent, hlog, append_assoc, ← hmore]
    exact hframes
  · rw [AtStage, hstage]
    trivial

section Poll

variable (byte : UInt8) {reader : NetworkReader S} {taken : List UInt8}
  (hreader : task.reader = (reader.readBytes cipher taken).1)
  (hfeed : feedAll (FrameProgress.feed zlib reader.compression) .start
    (reader.readBytes cipher taken).2 = .inl (task.progress.getD .start))

include hreader in
theorem readByte_reader : (task.reader.readByte cipher byte).1 =
    (reader.readBytes cipher (taken ++ [byte])).1 := by
  rw [NetworkReader.readBytes_snoc, ← hreader]

include hreader hfeed in
theorem feedAll_poll :
    feedAll (FrameProgress.feed zlib reader.compression) .start
        (reader.readBytes cipher (taken ++ [byte])).2 =
      match task.poll zlib cipher byte with
      | .inl progress => .inl progress
      | .inr result => .inr (result, []) := by
  have hcompression : task.reader.compression = reader.compression := by
    rw [hreader, NetworkReader.readBytes_compression]
  rw [NetworkReader.readBytes_snoc, feedAll_append hfeed, poll, hcompression, ← hreader, feedAll]
  cases FrameProgress.feed zlib reader.compression (task.progress.getD .start)
    (task.reader.readByte cipher byte).2 <;> rfl

end Poll

/-- The place in the stream is kept if no update is made within a frame. -/
theorem InPlace.step (h : InPlace zlib cipher task) (hstep : Step zlib cipher task branch next)
    (hcondition : BetweenFrames task branch) : InPlace zlib cipher next := by
  have hplace := h
  obtain ⟨reader, taken, hframes, hat⟩ := h
  cases hstep with
  | send bytes =>
    refine ⟨reader, taken, ?_, hat⟩
    rw [← append_assoc]
    exact hframes.send bytes
  | broadcast update => exact ⟨reader, taken, hframes, hat⟩
  | read byte rest progress hstage hstream hpoll =>
    obtain ⟨hreader, hfeed⟩ := atStage_waiting hat hstage
    have hfed := feedAll_poll byte hreader hfeed
    rw [hpoll] at hfed
    refine ⟨reader, taken ++ [byte], hframes.take hstream, ?_⟩
    have hstage' : (task.take cipher byte rest).stage = .waiting := hstage
    simp only [AtStage, hstage']
    exact ⟨readByte_reader byte hreader, hfed⟩
  | packet byte rest packet hstage hstream hpoll =>
    obtain ⟨hreader, hfeed⟩ := atStage_waiting hat hstage
    refine ⟨reader, taken ++ [byte], hframes.take hstream, readByte_reader byte hreader, rfl, ?_⟩
    rw [FrameProgress.getRawPacket_eq_conclude, feedAll_poll byte hreader hfeed, hpoll]
    rfl
  | fail byte rest result hstage hstream hpoll hresult =>
    exact hplace.stopped rfl rfl rfl ⟨[byte], hstream⟩
  | update update rest hstage hupdates =>
    cases update with
    | enableEncryption key =>
      have hnone : task.progress = none := hcondition rfl
      obtain ⟨hreader, hfeed⟩ := atStage_waiting hat hstage
      rw [hnone] at hfeed
      exact ⟨reader, taken, hframes, hreader, hfeed⟩
    | upgrade => exact hplace.stopped rfl rfl rfl ⟨[], rfl⟩
  | process packet action next hstage haction hnext =>
    obtain ⟨hreader, hnone, hpacket⟩ := atStage_processing hat hstage
    rw [hreader] at hnext
    have hlog : Frames zlib cipher task.sent (task.log ++ [.packet packet] ++ [.action action])
        next task.stream := .action (.packet hframes hpacket) hnext
    rw [append_assoc] at hlog
    refine ⟨next, [], hlog, rfl, ?_⟩
    change Sum.inl FrameProgress.start = Sum.inl (task.progress.getD .start)
    rw [hnone]
    rfl
  | finish packet hstage =>
    obtain ⟨hreader, hnone, hpacket⟩ := atStage_processing hat hstage
    exact ⟨_, [], .packet hframes hpacket, trivial⟩
  | expire packet hstage | stop hstage => exact hplace.stopped rfl rfl rfl ⟨[], rfl⟩

theorem Reached.inPlace (h : Reached zlib cipher BetweenFrames task) :
    InPlace zlib cipher task := by
  induction h with
  | new => exact ⟨.new, [], .nil, rfl, rfl⟩
  | step _ hstep hcondition ih => exact ih.step hstep hcondition

/-- The packets so far are the frames of the stream, and what was taken since belongs to one frame
that is not complete yet, or that is being processed. -/
theorem reached_frames (h : Reached zlib cipher BetweenFrames task) :
    ∃ reader taken, Frames zlib cipher task.sent task.log reader (taken ++ task.stream) ∧
      (task.stage = .waiting → task.reader = (reader.readBytes cipher taken).1 ∧
        ∀ packet rest, TCPNetworkDecoder.getRawPacket zlib reader.compression
          (reader.readBytes cipher taken).2 ≠ some (.ok (packet, rest))) ∧
      ∀ packet, task.stage = .processing packet →
        task.reader = (reader.readBytes cipher taken).1 ∧
          TCPNetworkDecoder.getRawPacket zlib reader.compression
            (reader.readBytes cipher taken).2 = some (.ok (packet, [])) := by
  obtain ⟨reader, taken, hframes, hat⟩ := h.inPlace
  refine ⟨reader, taken, hframes, ?_, ?_⟩
  · intro hstage
    obtain ⟨hreader, hfeed⟩ := atStage_waiting hat hstage
    refine ⟨hreader, ?_⟩
    intro packet rest hpacket
    rw [FrameProgress.getRawPacket_eq_conclude, hfeed] at hpacket
    cases hpacket
  · intro packet hstage
    obtain ⟨hreader, -, hpacket⟩ := atStage_processing hat hstage
    exact ⟨hreader, hpacket⟩

/-! ### A key and an acknowledgement -/

/-- Every byte is masked with the encrypted byte before it. -/
def chainedCipher : StreamCipher UInt8 UInt8 where
  init key := key
  decrypt state byte := (byte, byte ^^^ state)

def encryptAction : ConnectionAction UInt8 := ⟨some 7, none, false⟩

def keyPacket : RawPacket := ⟨1, [1], 1⟩

def acknowledgedPacket : RawPacket := ⟨3, [3], 1⟩

/-- The task that has processed the key, with the update that the key has left behind. -/
def keyTask (sent stream : List UInt8) : IncomingTask UInt8 UInt8 where
  sent := sent
  stream := stream
  reader := ⟨some 7, none⟩
  progress := none
  updates := [.enableEncryption 7]
  stage := .waiting
  log := [.packet keyPacket, .action encryptAction]

theorem reached_keyTask {condition : IncomingTask UInt8 UInt8 → IncomingBranch → Prop}
    (h : ∀ task branch, branch ≠ .update → condition task branch) :
    Reached .stored chainedCipher condition (keyTask [1, 1] []) := by
  have hnew : Reached .stored chainedCipher condition new := .new
  have hsent := hnew.step (.send _ [1, 1]) (h _ _ (by decide))
  have hread := hsent.step (.read _ 1 [1] (.body 1 []) rfl rfl rfl) (h _ _ (by decide))
  have hpacket := hread.step (.packet _ 1 [] keyPacket rfl rfl rfl) (h _ _ (by decide))
  have hupdate := hpacket.step (.broadcast _ (.enableEncryption 7)) (h _ _ (by decide))
  exact hupdate.step (.process _ keyPacket encryptAction ⟨some 7, none⟩ rfl rfl rfl)
    (h _ _ (by decide))

theorem frames_keyTask :
    Frames .stored chainedCipher [1, 1, 6, 5] (keyTask [] []).log ⟨some 7, none⟩ [6, 5] := by
  have hframe : Frames .stored chainedCipher [1, 1, 6, 5] ([] ++ [.packet keyPacket]) .new [6, 5] :=
    .packet (.nil : Frames .stored chainedCipher ([1, 1] ++ [6, 5]) [] .new _) rfl
  exact .action hframe rfl

theorem reached_frames_acknowledged :
    ∃ task : IncomingTask UInt8 UInt8, Reached .stored chainedCipher BetweenFrames task ∧
      task.updates = [] ∧ task.stage = .processing acknowledgedPacket ∧
      ∃ reader taken,
        Frames .stored chainedCipher task.sent task.log reader (taken ++ task.stream) ∧
        (task.stage = .waiting → task.reader = (reader.readBytes chainedCipher taken).1 ∧
          ∀ packet rest, TCPNetworkDecoder.getRawPacket .stored reader.compression
            (reader.readBytes chainedCipher taken).2 ≠ some (.ok (packet, rest))) ∧
        ∀ packet, task.stage = .processing packet →
          task.reader = (reader.readBytes chainedCipher taken).1 ∧
            TCPNetworkDecoder.getRawPacket .stored reader.compression
              (reader.readBytes chainedCipher taken).2 = some (.ok (packet, [])) := by
  have hother : ∀ (task : IncomingTask UInt8 UInt8) branch, branch ≠ .update →
      task.BetweenFrames branch := fun _ _ hne heq => absurd heq hne
  have hkey := reached_keyTask hother
  have hupdate := hkey.step (.update _ (.enableEncryption 7) [] rfl rfl) (fun _ => rfl)
  have hsent := hupdate.step (.send _ [6, 5]) (hother _ _ (by decide))
  have hread := hsent.step (.read _ 6 [5] (.body 1 []) rfl rfl rfl) (hother _ _ (by decide))
  have hpacket := hread.step (.packet _ 5 [] acknowledgedPacket rfl rfl rfl)
    (hother _ _ (by decide))
  exact ⟨_, hpacket, rfl, rfl, reached_frames hpacket⟩

/-- The update comes when the first byte of the next frame is there. The byte is lost, and the frame
with it. -/
theorem reached_frame_lost :
    ∃ task : IncomingTask UInt8 UInt8,
      Reached .stored chainedCipher (fun _ _ => True) task ∧ task.stage = .waiting ∧
      task.stream = [] ∧
      ∃ reader rest, Frames .stored chainedCipher task.sent task.log reader rest ∧
        TCPNetworkDecoder.getRawPacket .stored reader.compression
          (reader.readBytes chainedCipher rest).2 = some (.ok (acknowledgedPacket, [])) := by
  have hkey : Reached .stored chainedCipher (fun _ _ => True) (keyTask [1, 1] []) :=
    reached_keyTask fun _ _ _ => trivial
  have hfirst := hkey.step (.send _ [6]) trivial
  have hread := hfirst.step (.read _ 6 [] (.body 1 []) rfl rfl rfl) trivial
  have hupdate := hread.step (.update _ (.enableEncryption 7) [] rfl rfl) trivial
  have hsecond := hupdate.step (.send _ [5]) trivial
  have hmisread := hsecond.step (.read _ 5 [] (.body 3 []) rfl rfl rfl) trivial
  exact ⟨_, hmisread, rfl, rfl, _, _, frames_keyTask, rfl⟩

end IncomingTask

end Steel

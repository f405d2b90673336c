import Steel.Proof.PacketFraming

/-!
# The packet reader on any bytes

Whatever a peer sends, reading a packet ends with a packet or an error. No length is smaller than
what is subtracted from it and no slice starts behind its buffer, since a length is never announced
with fewer bytes than it is written with. The two buffers of a packet are bounded.
-/

namespace Steel

open List

/-- The steps have the outcome, which is no panic. They allocate at most the limit, and a value has
the property. -/
def Tracks {α : Type} (steps : AllocatingOutcome α) (outcome : PacketOutcome α) (limit : ℕ)
    (post : α → Prop) : Prop :=
  ∀ buffers, ∃ result added, steps buffers = some (result, buffers ++ added) ∧
    outcome = some result ∧ added.sum ≤ limit ∧ ∀ a, result = .ok a → post a

namespace Tracks

variable {α β : Type} {steps : AllocatingOutcome α} {outcome : PacketOutcome α} {limit more : ℕ}
  {post : α → Prop}

theorem pure {a : α} (h : post a) : Tracks (return a) (return a) limit post := by
  intro buffers
  refine ⟨.ok a, [], ?_, rfl, Nat.zero_le _, ?_⟩
  · rw [append_nil]
    rfl
  · rintro _ ⟨rfl⟩
    exact h

theorem throw (error : PacketError) :
    Tracks (throw error : AllocatingOutcome α) (throw error) limit post := by
  intro buffers
  refine ⟨.error error, [], ?_, rfl, Nat.zero_le _, nofun⟩
  rw [append_nil]
  rfl

theorem lift {result : Except PacketError α} (h : outcome = some result)
    (hpost : ∀ a, outcome = some (.ok a) → post a) :
    Tracks (AllocatingOutcome.lift outcome) outcome limit post := by
  intro buffers
  refine ⟨result, [], ?_, h, Nat.zero_le _, fun a ha => hpost a (ha ▸ h)⟩
  rw [AllocatingOutcome.lift, h, append_nil]
  rfl

theorem bind {next : α → AllocatingOutcome β} {nextOutcome : α → PacketOutcome β}
    {nextPost : β → Prop} (h : Tracks steps outcome limit post)
    (hnext : ∀ a, post a → Tracks (next a) (nextOutcome a) more nextPost) :
    Tracks (steps >>= next) (outcome >>= nextOutcome) (limit + more) nextPost := by
  intro buffers
  obtain ⟨result, added, hsteps, houtcome, hlimit, hpost⟩ := h buffers
  have hbind : (steps >>= next) buffers = ExceptT.bindCont next result (buffers ++ added) := by
    change (steps buffers).bind _ = _
    rw [hsteps]
    rfl
  cases result with
  | error error =>
    refine ⟨.error error, added, hbind, ?_, hlimit.trans (Nat.le_add_right _ _), nofun⟩
    rw [houtcome]
    rfl
  | ok a =>
    obtain ⟨result, later, hlater, hresult, hmore, hnextPost⟩ :=
      hnext a (hpost a rfl) (buffers ++ added)
    refine ⟨result, added ++ later, ?_, ?_, ?_, hnextPost⟩
    · rw [hbind, ← append_assoc]
      exact hlater
    · rw [houtcome]
      exact hresult
    · rw [sum_append]
      omega

theorem allocate {size : ℕ} (h : Tracks steps outcome limit post) :
    Tracks (do
      AllocatingOutcome.allocate size
      steps) outcome (size + limit) post := by
  intro buffers
  obtain ⟨result, added, hsteps, houtcome, hlimit, hpost⟩ := h (buffers ++ [size])
  refine ⟨result, size :: added, ?_, houtcome, ?_, hpost⟩
  · rw [append_cons]
    exact hsteps
  · rw [sum_cons]
    omega

theorem assert {condition : Bool} (hcondition : condition = true)
    (h : Tracks steps outcome limit post) :
    Tracks (do
      AllocatingOutcome.assert condition
      steps) outcome limit post := by
  subst hcondition
  exact h

end Tracks

namespace TCPNetworkDecoder

variable (zlib : Zlib) (compression : Option ℕ)

theorem int32_ofNat_usizeOfI32 (value : Int32) : Int32.ofNat (usizeOfI32 value) = value := by
  apply Int32.toBitVec_inj.mp
  change BitVec.ofNat 32 (value.toBitVec.signExtend 64).toNat = value.toBitVec
  rw [BitVec.ofNat_toNat]
  apply BitVec.eq_of_getLsbD_eq
  intro i hi
  have hwide : i < 64 := by omega
  simp [BitVec.getElem_signExtend, hi, hwide]

theorem exists_ofOutcome_read (bytes : List UInt8) :
    ∃ result, PacketOutcome.ofOutcome (VarInt.read bytes) = some result := by
  rcases VarInt.read_total bytes with ⟨error, h⟩ | ⟨value, rest, h, _⟩
  · exact ⟨_, by rw [h]; rfl⟩
  · exact ⟨_, by rw [h]; rfl⟩

theorem read_of_ofOutcome {bytes rest : List UInt8} {value : Int32}
    (h : PacketOutcome.ofOutcome (VarInt.read bytes) = some (.ok (value, rest))) :
    VarInt.read bytes = some (.ok (value, rest)) := by
  rcases VarInt.read_total bytes with ⟨error, hread⟩ | ⟨value', rest', hread, _⟩
  · rw [hread] at h
    cases h
  · rw [hread] at h
    cases h
    exact hread

theorem decompress_length {data decompressed : List UInt8} {decompressedLen : ℕ}
    (h : decompress zlib data decompressedLen = .ok decompressed) :
    decompressed.length = decompressedLen := by
  unfold decompress at h
  dsimp only at h
  split_ifs at h with hshort hlong
  cases herror : (zlib.inflate data).error with
  | some message =>
    rw [herror] at h
    cases h
  | none =>
    rw [herror] at h
    cases h
    omega

/-- What is announced fits into the data, and the packet starts inside its buffer. -/
theorem tracks_packetBuffer {packetData : List UInt8} (h : packetData.length ≤ maxPacketSize) :
    Tracks (packetBufferAllocating zlib compression packetData)
      (packetBuffer zlib compression packetData) maxPacketDataSize
      fun buffer => buffer.2 ≤ buffer.1.length ∧ buffer.1.length ≤ maxPacketDataSize := by
  have hdata : packetData.length ≤ maxPacketDataSize := h.trans (by decide)
  cases compression with
  | none => exact .pure ⟨Nat.zero_le _, hdata⟩
  | some threshold =>
    obtain ⟨result, hresult⟩ := exists_ofOutcome_read packetData
    rw [← Nat.zero_add maxPacketDataSize]
    refine (Tracks.lift hresult fun value hvalue =>
      VarInt.writtenSize_le_of_read (read_of_ofOutcome hvalue)).bind ?_
    rintro ⟨announced, rest⟩ hsize
    have hfits : ¬packetData.length < VarInt.writtenSize announced :=
      not_lt.mpr ((Nat.le_add_right _ _).trans hsize)
    dsimp only
    rw [int32_ofNat_usizeOfI32, if_neg hfits]
    refine .assert (decide_eq_true (not_lt.mp hfits)) ?_
    split_ifs with hlong hpos hthreshold
    · exact .throw _
    · nth_rewrite 1 [← Nat.add_sub_of_le (not_lt.mp hlong)]
      refine .allocate ?_
      cases hdecompress : decompress zlib rest (usizeOfI32 announced) with
      | error error => exact .throw error
      | ok decompressed =>
        refine .pure ⟨Nat.zero_le _, ?_⟩
        rw [decompress_length zlib hdecompress]
        exact not_lt.mp hlong
    · exact .throw _
    · exact .pure ⟨Nat.sub_le _ _, hdata⟩

theorem tracks_parsePacket {packetData : List UInt8} (h : packetData.length ≤ maxPacketSize) :
    Tracks (parsePacketAllocating zlib compression packetData)
      (parsePacket zlib compression packetData) maxPacketDataSize
      fun packet => packet.payloadStart ≤ packet.buffer.length := by
  rw [← Nat.add_zero maxPacketDataSize]
  refine (tracks_packetBuffer zlib compression h).bind ?_
  rintro ⟨buffer, start⟩ ⟨hstart, hbuffer⟩
  refine .assert (decide_eq_true hstart) ?_
  obtain ⟨result, hresult⟩ := exists_ofOutcome_read (buffer.drop start)
  rw [← Nat.add_zero 0]
  refine (Tracks.lift hresult fun value hvalue =>
    VarInt.writtenSize_le_of_read (read_of_ofOutcome hvalue)).bind ?_
  rintro ⟨packetId, rest⟩ hsize
  have hpayload : start + ((buffer.drop start).length - rest.length) ≤ buffer.length := by
    rw [length_drop]
    dsimp only at hstart
    omega
  refine .assert (decide_eq_true hpayload) ?_
  refine .assert (decide_eq_true (hpayload.trans hbuffer)) ?_
  exact .pure hpayload

theorem exists_ofOutcome_readAsync (bytes : List UInt8) :
    ∃ result, PacketOutcome.ofOutcome (VarInt.readAsync bytes) = some result := by
  have hfits : ∀ j < VarInt.maxSize, (0 + j) * 7 < 32 := by decide
  rw [VarInt.readAsync]
  rcases readDigits_total (.other "VarInt") VarInt.maxSize 0 0 bytes hfits with
    ⟨error, h⟩ | ⟨value, rest, h, _⟩
  · exact ⟨_, by rw [h]; rfl⟩
  · exact ⟨_, by rw [h]; rfl⟩

theorem tracks_getRawPacket (bytes : List UInt8) :
    Tracks (getRawPacketAllocating zlib compression bytes) (getRawPacket zlib compression bytes)
      (maxPacketSize + maxPacketDataSize)
      fun packet => packet.1.payloadStart ≤ packet.1.buffer.length := by
  obtain ⟨result, hresult⟩ := exists_ofOutcome_readAsync bytes
  rw [← Nat.zero_add (maxPacketSize + maxPacketDataSize)]
  have hread : Tracks (AllocatingOutcome.lift (PacketOutcome.ofOutcome (VarInt.readAsync bytes)))
      (PacketOutcome.ofOutcome (VarInt.readAsync bytes)) 0 fun _ => True :=
    .lift hresult fun _ _ => trivial
  refine hread.bind ?_
  rintro ⟨length, rest⟩ _
  dsimp only
  by_cases hlong : maxPacketSize < usizeOfI32 length
  · rw [if_pos hlong, if_pos hlong]
    exact .throw _
  · have hlength : usizeOfI32 length ≤ maxPacketSize := not_lt.mp hlong
    have hlimit : usizeOfI32 length + (maxPacketSize - usizeOfI32 length + maxPacketDataSize) =
        maxPacketSize + maxPacketDataSize := by omega
    rw [if_neg hlong, if_neg hlong, ← hlimit]
    refine .allocate ?_
    by_cases hshort : rest.length < usizeOfI32 length
    · rw [if_pos hshort, if_pos hshort]
      exact .throw _
    · rw [if_neg hshort, if_neg hshort, Nat.add_comm]
      have hdata : (rest.take (usizeOfI32 length)).length ≤ maxPacketSize :=
        (length_take_le _ _).trans hlength
      refine (tracks_parsePacket zlib compression hdata).bind ?_
      intro packet hpacket
      exact .pure hpacket

/-- Reading a packet from any bytes ends without a panic. Its buffers are bounded, and the payload
of a packet starts inside its buffer. -/
theorem getRawPacketAllocating_total (zlib : Zlib) (compression : Option ℕ) (bytes : List UInt8) :
    ∃ result buffers, getRawPacketAllocating zlib compression bytes [] = some (result, buffers) ∧
      getRawPacket zlib compression bytes = some result ∧
      buffers.sum ≤ maxPacketSize + maxPacketDataSize ∧
      ∀ packet rest, result = .ok (packet, rest) → packet.payloadStart ≤ packet.buffer.length := by
  obtain ⟨result, buffers, hsteps, houtcome, hlimit, hpost⟩ :=
    tracks_getRawPacket zlib compression bytes []
  exact ⟨result, buffers, hsteps, houtcome, hlimit, fun packet rest h => hpost (packet, rest) h⟩

end TCPNetworkDecoder

end Steel

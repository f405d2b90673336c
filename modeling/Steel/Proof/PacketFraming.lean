import Mathlib.Data.FinEnum
import Steel.Proof.VariableInteger
import Steel.Protocol.Encryption
import Steel.Protocol.PacketReader

/-!
# Encoded packets are read back

A frame is a length and a body of that length. Where the body is short enough for a length of three
bytes, the reader gives back the packet. The encoder refuses long data before it knows the length of
the body, so some frames that it produces cannot be read.
-/

namespace Steel

open Leb128 List

/-! ### Lengths -/

theorem toNat_ofNat_i32 (n : ℕ) : (Int32.ofNat n).toUInt32.toNat = n % 2 ^ 32 := rfl

theorem usizeOfI32_ofNat {n : ℕ} (h : n < 2 ^ 31) : usizeOfI32 (Int32.ofNat n) = n := by
  have hint : (Int32.ofNat n).toInt64.toInt = n := by
    rw [Int32.toInt_toInt64, Int32.toInt_ofNat_of_lt h]
  have hnat : ((Int32.ofNat n).toInt64.toUInt64.toNat : Int) = n := by
    rw [← hint]
    exact (BitVec.toInt_eq_toNat_of_msb (by
      rw [BitVec.msb_eq_toInt]
      have hneg : ¬ (Int32.ofNat n).toInt64.toInt < 0 := by omega
      exact decide_eq_false hneg)).symm
  exact Int.ofNat_inj.mp hnat

namespace VarInt

theorem readAsync_write (value : Int32) (suffix : List UInt8) :
    readAsync (write value ++ suffix) = some (.ok (value, suffix)) := by
  have hle := marked_le (Nat.size_le.mpr (unsigned_lt value))
  have hvalue : BitVec.ofNat 32 value.toUInt32.toNat = value.toBitVec := by
    rw [UInt32.toNat, BitVec.ofNat_toNat, BitVec.setWidth_eq, Int32.toBitVec_toUInt32]
  rw [readAsync, write_eq_encode, readDigits_encode (by rw [maxSize]; omega) (by omega)]
  simp only [hvalue, Int32.ofBitVec_toBitVec]

theorem setInFront_eq_some (value : Int32) {vec : FrontVec} (h : maxSize ≤ vec.frontSpace) :
    ∃ result, setInFront value vec (writtenSize value) = some result ∧
      result.asSlice = write value ++ vec.asSlice ∧
      result.frontSpace = vec.frontSpace - writtenSize value := by
  have hspace : (write value).length ≤ vec.frontSpace := by
    rw [length_write]
    exact (writtenSize_le value).trans h
  obtain ⟨result, hset, hslice, hfront⟩ := FrontVec.setInFront_eq_some hspace
  rw [length_write] at hfront
  exact ⟨result, by rw [setInFront_eq, hset], hslice, hfront⟩

theorem writtenSize_ofNat_le_three_iff (n : ℕ) :
    writtenSize (Int32.ofNat n) ≤ 3 ↔ n % 2 ^ 32 < 2 ^ 21 := by
  rw [writtenSize_eq, toNat_ofNat_i32, marked, ← Nat.size_le]
  omega

end VarInt

/-! ### Frames -/

theorem PacketOutcome.lift_bind {α β : Type} (a : α) (f : α → PacketOutcome β) :
    @bind (ExceptT PacketError Option) _ α β (liftM (some a : Option α)) f = f a := rfl

namespace EncodedPacket

variable {zlib : Zlib} {data body : List UInt8} {buf : FrontVec} {encoded : EncodedPacket}
  {compression : Option CompressionInfo}

inductive Body (zlib : Zlib) (data : List UInt8) : Option CompressionInfo → List UInt8 → Prop
  | plain (hlimit : VarInt.writtenSize (Int32.ofNat data.length) + data.length ≤ maxPacketSize) :
      Body zlib data none data
  | short {compression : CompressionInfo} (h : data.length < compression.threshold) :
      Body zlib data (some compression) (VarInt.write 0 ++ data)
  | deflated {compression : CompressionInfo} {out : List UInt8}
      (h : compression.threshold ≤ data.length)
      (hlimit : data.length + VarInt.maxSize * 2 ≤ maxPacketDataSize)
      (hout : zlib.deflate compression.level.toUInt32 data = .ok out) :
      Body zlib data (some compression) (VarInt.write (Int32.ofNat data.length) ++ out)

def frame (body : List UInt8) : List UInt8 := VarInt.write (Int32.ofNat body.length) ++ body

theorem belowThreshold_eq (h : 6 ≤ buf.frontSpace) :
    ∃ encoded, belowThreshold buf = some (.ok encoded) ∧
      encoded.encodedData.asSlice = frame (VarInt.write 0 ++ buf.asSlice) := by
  have hzero : VarInt.writtenSize 0 = 1 := rfl
  obtain ⟨first, hfirst, hslice, hfront⟩ :=
    VarInt.setInFront_eq_some 0 (show VarInt.maxSize ≤ buf.frontSpace from Nat.le_of_succ_le h)
  rw [hzero] at hfirst hfront
  have hspace : VarInt.maxSize ≤ first.frontSpace := by
    rw [VarInt.maxSize]
    omega
  obtain ⟨second, hsecond, hslice', -⟩ :=
    VarInt.setInFront_eq_some (Int32.ofNat (buf.len + 1)) hspace
  have hlength : buf.len + 1 = (VarInt.write 0 ++ buf.asSlice).length := by
    rw [length_append, VarInt.length_write, hzero, buf.len_eq, Nat.add_comm]
  refine ⟨⟨second⟩, ?_, ?_⟩
  · rw [belowThreshold, hfirst]
    exact (PacketOutcome.lift_bind first _).trans (hsecond ▸ PacketOutcome.lift_bind second _)
  · rw [hslice', hslice, hlength, frame]

theorem compressed_eq {info : CompressionInfo} {out : List UInt8}
    (h : zlib.deflate info.level.toUInt32 buf.asSlice = .ok out) :
    ∃ encoded, compressed zlib buf info = some (.ok encoded) ∧
      encoded.encodedData.asSlice =
        frame (VarInt.write (Int32.ofNat buf.asSlice.length) ++ out) := by
  have hspace : VarInt.maxSize ≤ ((FrontVec.new 10).extendFromSlice out).frontSpace := by
    change 5 ≤ 10
    decide
  obtain ⟨first, hfirst, hslice, hfront⟩ := VarInt.setInFront_eq_some (Int32.ofNat buf.len) hspace
  have hspace' : VarInt.maxSize ≤ first.frontSpace := by
    have hsize := VarInt.writtenSize_le (Int32.ofNat buf.len)
    have hfront' : first.frontSpace = 10 - VarInt.writtenSize (Int32.ofNat buf.len) := hfront
    rw [VarInt.maxSize] at hsize ⊢
    omega
  have hout : ((FrontVec.new 10).extendFromSlice out).asSlice = out := by
    rw [FrontVec.asSlice_extendFromSlice, FrontVec.asSlice_new, nil_append]
  have hlength : VarInt.writtenSize (Int32.ofNat buf.len) +
      ((FrontVec.new 10).extendFromSlice out).len =
        (VarInt.write (Int32.ofNat buf.len) ++ out).length := by
    rw [length_append, VarInt.length_write, ((FrontVec.new 10).extendFromSlice out).len_eq, hout]
  obtain ⟨second, hsecond, hslice', -⟩ := VarInt.setInFront_eq_some
    (Int32.ofNat (VarInt.writtenSize (Int32.ofNat buf.len) +
      ((FrontVec.new 10).extendFromSlice out).len)) hspace'
  refine ⟨⟨second⟩, ?_, ?_⟩
  · rw [compressed, h]
    simp only
    rw [hfirst, PacketOutcome.lift_bind, hsecond, PacketOutcome.lift_bind]
    rfl
  · rw [hslice', hslice, hout, hlength, frame, ← buf.len_eq]

theorem fromDataUncompressed_eq (h : 6 ≤ buf.frontSpace)
    (hlimit : VarInt.writtenSize (Int32.ofNat buf.len) + buf.len ≤ maxPacketSize) :
    ∃ encoded, fromDataUncompressed buf = some (.ok encoded) ∧
      encoded.encodedData.asSlice = frame buf.asSlice := by
  obtain ⟨result, hset, hslice, -⟩ := VarInt.setInFront_eq_some (Int32.ofNat buf.len)
    (show VarInt.maxSize ≤ buf.frontSpace from Nat.le_of_succ_le h)
  refine ⟨⟨result⟩, ?_, ?_⟩
  · rw [fromDataUncompressed, if_neg (not_lt.mpr hlimit), hset, PacketOutcome.lift_bind]
    rfl
  · rw [hslice, buf.len_eq, frame]

theorem fromData_frame (h : fromData zlib buf compression = some (.ok encoded))
    (hspace : 6 ≤ buf.frontSpace) :
    ∃ body, Body zlib buf.asSlice compression body ∧
      encoded.encodedData.asSlice = frame body := by
  have hsame : ∀ {other : EncodedPacket}, (some (.ok other) : PacketOutcome EncodedPacket) =
      some (.ok encoded) → other = encoded := by
    intro other heq
    cases heq
    rfl
  cases compression with
  | none =>
    by_cases hlimit : VarInt.writtenSize (Int32.ofNat buf.len) + buf.len ≤ maxPacketSize
    · obtain ⟨other, heq, hslice⟩ := fromDataUncompressed_eq hspace hlimit
      rw [fromData, heq] at h
      rw [hsame h] at hslice
      exact ⟨_, .plain (buf.len_eq ▸ hlimit), hslice⟩
    · rw [fromData, fromDataUncompressed, if_pos (not_le.mp hlimit)] at h
      cases h
  | some info =>
    rw [fromData, fromPacketData] at h
    split at h
    · cases h
    · next hlimit =>
        rw [not_lt] at hlimit
        rw [buf.len_eq] at hlimit
        split at h
        · next hthreshold =>
            rw [buf.len_eq] at hthreshold
            cases hout : zlib.deflate info.level.toUInt32 buf.asSlice with
            | error message =>
              rw [compressed, hout] at h
              cases h
            | ok out =>
              obtain ⟨other, heq, hslice⟩ := compressed_eq hout
              rw [heq] at h
              rw [hsame h] at hslice
              exact ⟨_, .deflated hthreshold hlimit hout, hslice⟩
        · next hthreshold =>
            rw [buf.len_eq, not_le] at hthreshold
            obtain ⟨other, heq, hslice⟩ := belowThreshold_eq hspace
            rw [heq] at h
            rw [hsame h] at hslice
            exact ⟨_, .short hthreshold, hslice⟩

theorem fromBare_frame {packet : ClientPacket} {protocol : ConnectionProtocol}
    (h : fromBare zlib packet compression protocol = some (.ok encoded)) :
    ∃ id payload body, packet.getId protocol = some id ∧ packet.write = .ok payload ∧
      Body zlib (VarInt.write id ++ payload) compression body ∧
      encoded.encodedData.asSlice = frame body := by
  rw [fromBare, writeVec, ClientPacket.writePacket] at h
  cases hid : packet.getId protocol with
  | none =>
    rw [hid] at h
    cases h
  | some id =>
    cases hpayload : packet.write with
    | error error =>
      rw [hid, hpayload] at h
      cases h
    | ok payload =>
      rw [hid, hpayload] at h
      have hslice : (((FrontVec.new 6).extendFromSlice (VarInt.write id)).extendFromSlice
          payload).asSlice = VarInt.write id ++ payload := by
        rw [FrontVec.asSlice_extendFromSlice, FrontVec.asSlice_extendFromSlice,
          FrontVec.asSlice_new, nil_append]
      obtain ⟨body, hbody, hframe⟩ := fromData_frame h le_rfl
      rw [hslice] at hbody
      exact ⟨id, payload, body, rfl, rfl, hbody, hframe⟩

end EncodedPacket

/-! ### Reading -/

namespace TCPNetworkDecoder

open EncodedPacket

variable {zlib : Zlib} {compression : Option CompressionInfo} {id : Int32}
  {payload body suffix : List UInt8} {threshold : Option ℕ}

theorem ofOutcome_read_bind {α : Type} (value : Int32) (suffix : List UInt8)
    (f : Int32 × List UInt8 → PacketOutcome α) :
    (PacketOutcome.ofOutcome (VarInt.read (VarInt.write value ++ suffix)) >>= f) =
      f (value, suffix) := by
  rw [VarInt.read_write]
  rfl

theorem parsePacket_eq {packetData buffer : List UInt8} {start : ℕ}
    (h : packetBuffer zlib threshold packetData = some (.ok (buffer, start)))
    (hbuffer : buffer.drop start = VarInt.write id ++ payload) :
    ∃ packet, parsePacket zlib threshold packetData = some (.ok packet) ∧ packet.id = id ∧
      packet.payload = payload := by
  have hparse : parsePacket zlib threshold packetData = some (.ok {
      id := id
      buffer := buffer
      payloadStart := start + ((VarInt.write id ++ payload).length - payload.length) }) := by
    rw [parsePacket, h]
    change (PacketOutcome.ofOutcome (VarInt.read (buffer.drop start)) >>= _) = _
    rw [hbuffer, ofOutcome_read_bind]
    rfl
  refine ⟨_, hparse, rfl, ?_⟩
  change buffer.drop (start + _) = payload
  rw [← drop_drop, hbuffer, length_append, Nat.add_sub_cancel, drop_left]

theorem decompress_deflate {level : UInt32} {data out : List UInt8}
    (h : zlib.deflate level data = .ok out) : decompress zlib out data.length = .ok data := by
  unfold decompress
  simp only [zlib.inflate_deflate level data out h, lt_irrefl, if_false]

/-- The data of a frame is found again, compressed or not. -/
theorem packetBuffer_body (h : Body zlib (VarInt.write id ++ payload) compression body) :
    ∃ buffer start,
      packetBuffer zlib (compression.map CompressionInfo.threshold) body =
        some (.ok (buffer, start)) ∧
      buffer.drop start = VarInt.write id ++ payload := by
  cases h with
  | plain _ => exact ⟨_, 0, rfl, rfl⟩
  | @short info hshort =>
    have hzero : usizeOfI32 0 = 0 := rfl
    have hsize : VarInt.writtenSize (Int32.ofNat 0) = 1 := rfl
    have hlength : (VarInt.write 0 ++ (VarInt.write id ++ payload)).length =
        1 + (VarInt.write id ++ payload).length := length_append
    have hheader : ¬ (VarInt.write 0 ++ (VarInt.write id ++ payload)).length < 1 := by omega
    have hthreshold : ¬ info.threshold <
        (VarInt.write 0 ++ (VarInt.write id ++ payload)).length - 1 := by omega
    have hstart : (VarInt.write 0 ++ (VarInt.write id ++ payload)).length -
        (VarInt.write id ++ payload).length = 1 := by omega
    refine ⟨VarInt.write 0 ++ (VarInt.write id ++ payload), 1, ?_, rfl⟩
    rw [Option.map_some, packetBuffer, ofOutcome_read_bind]
    simp only [hzero, hsize, if_neg hheader, if_neg hthreshold, hstart, Nat.not_lt_zero, if_false,
      lt_irrefl]
    rfl
  | @deflated info out hlong hlimit hout =>
    have hpositive := info.threshold_pos
    have hmax : (VarInt.write id ++ payload).length ≤ maxPacketDataSize := by omega
    have hannounced : usizeOfI32 (Int32.ofNat (VarInt.write id ++ payload).length) =
        (VarInt.write id ++ payload).length :=
      usizeOfI32_ofNat (hmax.trans_lt (by decide))
    have hheader :
        ¬ (VarInt.write (Int32.ofNat (VarInt.write id ++ payload).length) ++ out).length <
          VarInt.writtenSize (Int32.ofNat (VarInt.write id ++ payload).length) := by
      rw [length_append, VarInt.length_write]
      omega
    refine ⟨VarInt.write id ++ payload, 0, ?_, rfl⟩
    rw [Option.map_some, packetBuffer, ofOutcome_read_bind]
    simp only [hannounced, if_neg hheader, if_neg (not_lt.mpr hmax),
      if_pos (hpositive.trans_le hlong), decompress_deflate hout]
    rfl

theorem getRawPacket_frame {packet : RawPacket} (h : body.length < 2 ^ 21)
    (hparse : parsePacket zlib threshold body = some (.ok packet)) (suffix : List UInt8) :
    getRawPacket zlib threshold (frame body ++ suffix) = some (.ok (packet, suffix)) := by
  have hlength : usizeOfI32 (Int32.ofNat body.length) = body.length :=
    usizeOfI32_ofNat (h.trans (by decide))
  have hmax : ¬ maxPacketSize < body.length := not_lt.mpr h.le
  have hrest : ¬ (body ++ suffix).length < body.length := by
    rw [length_append]
    omega
  rw [getRawPacket, frame, append_assoc, VarInt.readAsync_write]
  change (if maxPacketSize < usizeOfI32 (Int32.ofNat body.length) then _ else _) = _
  rw [hlength, if_neg hmax, if_neg hrest, take_left, drop_left, hparse]
  rfl

theorem getRawPacket_frame_outOfBounds (hlow : maxPacketSize < body.length)
    (hhigh : body.length < 2 ^ 31) (suffix : List UInt8) :
    getRawPacket zlib threshold (frame body ++ suffix) = some (.error .outOfBounds) := by
  rw [getRawPacket, frame, append_assoc, VarInt.readAsync_write]
  change (if maxPacketSize < usizeOfI32 (Int32.ofNat body.length) then _ else _) = _
  rw [usizeOfI32_ofNat hhigh, if_pos hlow]
  rfl

end TCPNetworkDecoder

namespace EncodedPacket

theorem length_frame (body : List UInt8) :
    (frame body).length = VarInt.writtenSize (Int32.ofNat body.length) + body.length := by
  rw [frame, length_append, VarInt.length_write]

theorem length_lt_of_length_frame_le {body : List UInt8}
    (h : (frame body).length ≤ maxPacketSize + 2) : body.length < 2 ^ 21 := by
  rw [length_frame, maxPacketSize] at h
  have hsize := VarInt.writtenSize_ofNat_le_three_iff body.length
  omega

/-- The data leaves room for a length of three bytes. -/
def Fits (zlib : Zlib) (data : List UInt8) : Option CompressionInfo → Prop
  | none => True
  | some compression =>
    if data.length < compression.threshold then data.length + 1 < 2 ^ 21
    else ∀ out, zlib.deflate compression.level.toUInt32 data = .ok out →
      VarInt.writtenSize (Int32.ofNat data.length) + out.length < 2 ^ 21

variable {zlib : Zlib} {packet : ClientPacket} {compression : Option CompressionInfo}
  {protocol : ConnectionProtocol} {encoded : EncodedPacket} {data body : List UInt8}

theorem Body.length_lt_iff (h : Body zlib data compression body) :
    body.length < 2 ^ 21 ↔ Fits zlib data compression := by
  cases h with
  | plain hlimit =>
    rw [VarInt.writtenSize_eq, maxPacketSize] at hlimit
    exact iff_of_true (by omega) trivial
  | short hshort =>
    rw [Fits, if_pos hshort, length_append, Nat.add_comm]
    rfl
  | deflated hlong _ hout =>
    rw [Fits, if_neg (not_lt.mpr hlong), hout, length_append, VarInt.length_write]
    exact ⟨fun hlt out heq => Except.ok.inj heq ▸ hlt, fun hlt => hlt _ rfl⟩

/-- A reader that leaves nothing of the frame has read the whole length. -/
theorem length_lt_of_getRawPacket {threshold : Option ℕ} {raw : RawPacket}
    (hthree : VarInt.writtenSize (Int32.ofNat body.length) ≤ 3)
    (h : TCPNetworkDecoder.getRawPacket zlib threshold (frame body) = some (.ok (raw, []))) :
    body.length < 2 ^ 21 := by
  have hlow := (VarInt.writtenSize_ofNat_le_three_iff _).mp hthree
  have hmod : Int32.ofNat body.length = Int32.ofNat (body.length % 2 ^ 32) := by
    apply Int32.toBitVec_inj.mp
    exact BitVec.eq_of_toNat_eq (by simp)
  have hread : usizeOfI32 (Int32.ofNat body.length) = body.length % 2 ^ 32 := by
    rw [hmod]
    exact usizeOfI32_ofNat (by omega)
  rw [TCPNetworkDecoder.getRawPacket, frame, VarInt.readAsync_write] at h
  change (if maxPacketSize < usizeOfI32 (Int32.ofNat body.length) then _ else _) = _ at h
  have hmax : ¬ maxPacketSize < body.length % 2 ^ 32 := not_lt.mpr hlow.le
  rw [hread, if_neg hmax, if_neg (not_lt.mpr (Nat.mod_le _ _))] at h
  generalize TCPNetworkDecoder.parsePacket zlib threshold _ = parsed at h
  rcases parsed with _ | _ | packet
  · cases h
  · cases h
  · have hdrop : body.drop (body.length % 2 ^ 32) = [] :=
      (Prod.mk.inj (Except.ok.inj (Option.some.inj h))).2
    rw [drop_eq_nil_iff] at hdrop
    omega

/-- Exactly the frames that fit have a length of at most three bytes and are read back. -/
theorem fromBare_getRawPacket_iff
    (h : fromBare zlib packet compression protocol = some (.ok encoded)) :
    ∃ id payload, packet.getId protocol = some id ∧ packet.write = .ok payload ∧
      (((∃ length body, encoded.encodedData.asSlice = length ++ body ∧
          length = VarInt.write (Int32.ofNat body.length) ∧ length.length ≤ 3) ∧
        ∀ suffix, ∃ raw,
          TCPNetworkDecoder.getRawPacket zlib (compression.map CompressionInfo.threshold)
            (encoded.encodedData.asSlice ++ suffix) = some (.ok (raw, suffix)) ∧
          raw.id = id ∧ raw.payload = payload) ↔
        Fits zlib (VarInt.write id ++ payload) compression) := by
  obtain ⟨id, payload, body, hid, hpayload, hbody, hframe⟩ := fromBare_frame h
  refine ⟨id, payload, hid, hpayload, ?_⟩
  rw [← hbody.length_lt_iff, hframe]
  constructor
  · rintro ⟨⟨length, body', hsplit, rfl, hthree⟩, hread⟩
    have hsame : body = body' := by
      have hwritten := VarInt.readAsync_write (Int32.ofNat body.length) body
      rw [← frame, hsplit, VarInt.readAsync_write] at hwritten
      exact (Prod.mk.inj (Except.ok.inj (Option.some.inj hwritten))).2.symm
    rw [← hsame, VarInt.length_write] at hthree
    obtain ⟨raw, hraw, -⟩ := hread []
    rw [append_nil] at hraw
    exact length_lt_of_getRawPacket hthree hraw
  · intro hshort
    obtain ⟨buffer, start, hbuffer, hdata⟩ := TCPNetworkDecoder.packetBuffer_body hbody
    obtain ⟨raw, hparse, hraw⟩ := TCPNetworkDecoder.parsePacket_eq hbuffer hdata
    refine ⟨⟨_, body, rfl, rfl, ?_⟩, ?_⟩
    · rw [VarInt.length_write]
      exact (VarInt.writtenSize_ofNat_le_three_iff _).mpr ((Nat.mod_le _ _).trans_lt hshort)
    · intro suffix
      exact ⟨raw, TCPNetworkDecoder.getRawPacket_frame hshort hparse suffix, hraw⟩

/-! ### Frames of every kind -/

section Packets

variable (zlib : Zlib) (protocol : ConnectionProtocol) {id : Int32} {payload out : List UInt8}
  {info : CompressionInfo}

def packetOf (id : Int32) (payload : List UInt8) : ClientPacket := ⟨fun _ => some id, .ok payload⟩

theorem fromBare_packetOf
    (hlimit : (VarInt.write id ++ payload).length + VarInt.maxSize * 2 ≤ maxPacketDataSize) :
    ∃ buf : FrontVec, buf.asSlice = VarInt.write id ++ payload ∧ 6 ≤ buf.frontSpace ∧
      fromBare zlib (packetOf id payload) (some info) protocol =
        if info.threshold ≤ (VarInt.write id ++ payload).length then compressed zlib buf info
        else belowThreshold buf := by
  have hslice : (((FrontVec.new 6).extendFromSlice (VarInt.write id)).extendFromSlice
      payload).asSlice = VarInt.write id ++ payload := by
    rw [FrontVec.asSlice_extendFromSlice, FrontVec.asSlice_extendFromSlice, FrontVec.asSlice_new,
      nil_append]
  refine ⟨_, hslice, le_rfl, ?_⟩
  change fromPacketData zlib _ info = _
  rw [fromPacketData, FrontVec.len_eq, hslice, if_neg (not_lt.mpr hlimit)]

theorem fromBare_short
    (hlimit : (VarInt.write id ++ payload).length + VarInt.maxSize * 2 ≤ maxPacketDataSize)
    (hshort : (VarInt.write id ++ payload).length < info.threshold) :
    ∃ encoded, fromBare zlib (packetOf id payload) (some info) protocol = some (.ok encoded) ∧
      encoded.encodedData.asSlice = frame (VarInt.write 0 ++ (VarInt.write id ++ payload)) := by
  obtain ⟨buf, hslice, hspace, hbare⟩ := fromBare_packetOf zlib protocol hlimit
  rw [hbare, if_neg (not_le.mpr hshort), ← hslice]
  exact belowThreshold_eq hspace

theorem fromBare_deflated
    (hlimit : (VarInt.write id ++ payload).length + VarInt.maxSize * 2 ≤ maxPacketDataSize)
    (hlong : info.threshold ≤ (VarInt.write id ++ payload).length)
    (hout : zlib.deflate info.level.toUInt32 (VarInt.write id ++ payload) = .ok out) :
    ∃ encoded, fromBare zlib (packetOf id payload) (some info) protocol = some (.ok encoded) ∧
      encoded.encodedData.asSlice =
        frame (VarInt.write (Int32.ofNat (VarInt.write id ++ payload).length) ++ out) := by
  obtain ⟨buf, hslice, hspace, hbare⟩ := fromBare_packetOf zlib protocol hlimit
  rw [hbare, if_pos hlong]
  rw [← hslice] at hout ⊢
  exact compressed_eq hout

end Packets

def smallThreshold : CompressionInfo := ⟨2, 4, by decide, by decide⟩

theorem fromBare_getRawPacket_iff_stored :
    ∃ encoded,
      fromBare .stored (packetOf 5 [1, 2, 3]) (some smallThreshold) .play = some (.ok encoded) ∧
      ∀ suffix, ∃ raw,
        TCPNetworkDecoder.getRawPacket .stored (some 2)
          (encoded.encodedData.asSlice ++ suffix) = some (.ok (raw, suffix)) ∧
        raw.id = 5 ∧ raw.payload = [1, 2, 3] := by
  have hlong : smallThreshold.threshold ≤ (VarInt.write 5 ++ [1, 2, 3]).length := by decide
  obtain ⟨encoded, hbare, -⟩ := fromBare_deflated Zlib.stored .play (by decide) hlong rfl
  obtain ⟨id, payload, hid, hpayload, hiff⟩ := fromBare_getRawPacket_iff hbare
  cases hid
  cases hpayload
  have hfits : Fits .stored (VarInt.write 5 ++ [1, 2, 3]) (some smallThreshold) := by
    rintro out ⟨⟩
    decide
  exact ⟨encoded, hbare, (hiff.mpr hfits).2⟩

def largeThreshold : CompressionInfo := ⟨8388608, 4, by decide, by decide⟩

/-- A threshold above the limit of the reader lets frames through that are too long. -/
theorem fromBare_largeThreshold (zlib : Zlib) :
    ∃ encoded,
      fromBare zlib (packetOf 0 (List.replicate 2097152 0)) (some largeThreshold) .play =
        some (.ok encoded) ∧
      (∃ length body, encoded.encodedData.asSlice = length ++ body ∧
        length = VarInt.write (Int32.ofNat body.length) ∧ 4 ≤ length.length) ∧
      TCPNetworkDecoder.getRawPacket zlib (some largeThreshold.threshold)
        encoded.encodedData.asSlice = some (.error .outOfBounds) := by
  have hdata : (VarInt.write 0 ++ List.replicate 2097152 0).length = 2097153 := by
    rw [length_append, length_replicate]
    rfl
  have hbody : (VarInt.write 0 ++ (VarInt.write 0 ++ List.replicate 2097152 0)).length =
      2097154 := by
    rw [length_append, hdata]
    rfl
  have hlimit : (VarInt.write 0 ++ List.replicate 2097152 0).length + VarInt.maxSize * 2 ≤
      maxPacketDataSize := by
    rw [hdata]
    decide
  have hshort : (VarInt.write 0 ++ List.replicate 2097152 0).length <
      largeThreshold.threshold := by
    rw [hdata]
    decide
  obtain ⟨encoded, hbare, hslice⟩ := fromBare_short zlib .play hlimit hshort
  refine ⟨encoded, hbare, ⟨_, _, hslice, rfl, ?_⟩, ?_⟩
  · rw [VarInt.length_write, hbody]
    decide
  · rw [hslice, ← append_nil (frame _)]
    apply TCPNetworkDecoder.getRawPacket_frame_outOfBounds
    · rw [hbody]
      decide
    · rw [hbody]
      decide

theorem fromBare_outOfBounds :
    ∃ encoded,
      fromBare .stored (packetOf 0 (List.replicate 2097152 0)) (some largeThreshold) .play =
        some (.ok encoded) ∧
      (∃ length body, encoded.encodedData.asSlice = length ++ body ∧
        length = VarInt.write (Int32.ofNat body.length) ∧ 4 ≤ length.length) ∧
      TCPNetworkDecoder.getRawPacket .stored (some largeThreshold.threshold)
        encoded.encodedData.asSlice = some (.error .outOfBounds) :=
  fromBare_largeThreshold .stored

end EncodedPacket

/-!
### Packets over an encrypted connection

Frames are written one after the other through the encryptor, and read from what is decrypted.
-/

def TCPNetworkDecoder.getRawPackets (zlib : Zlib) (compression : Option ℕ) :
    ℕ → List UInt8 → PacketOutcome (List RawPacket × List UInt8)
  | 0, bytes => return ([], bytes)
  | count + 1, bytes => do
    let (packet, rest) ← getRawPacket zlib compression bytes
    let (packets, rest) ← getRawPackets zlib compression count rest
    return (packet :: packets, rest)

namespace EncodedPacket

open TCPNetworkDecoder StreamEncryptor

variable (zlib : Zlib) (compression : Option CompressionInfo) (protocol : ConnectionProtocol)

/-- The packet was encoded into a frame that the reader accepts. -/
def Sent (packet : ClientPacket) (encoded : EncodedPacket) : Prop :=
  fromBare zlib packet compression protocol = some (.ok encoded) ∧
    encoded.encodedData.asSlice.length ≤ maxPacketSize + 2

def Received (packet : ClientPacket) (raw : RawPacket) : Prop :=
  packet.getId protocol = some raw.id ∧ packet.write = .ok raw.payload

def streamOf (frames : List EncodedPacket) : List UInt8 :=
  frames.flatMap fun frame => frame.encodedData.asSlice

variable {zlib compression protocol} {packets : List ClientPacket} {frames : List EncodedPacket}

theorem getRawPackets_streamOf (h : Forall₂ (Sent zlib compression protocol) packets frames) :
    ∃ raws, getRawPackets zlib (compression.map CompressionInfo.threshold) packets.length
      (streamOf frames) = some (.ok (raws, [])) ∧ Forall₂ (Received protocol) packets raws := by
  induction h with
  | nil => exact ⟨[], rfl, .nil⟩
  | @cons packet frame packets frames hsent _ ih =>
    obtain ⟨raws, hraws, hreceived⟩ := ih
    obtain ⟨id, payload, body, hid, hpayload, hbody, hframe⟩ := fromBare_frame hsent.1
    have hshort := length_lt_of_length_frame_le (hframe ▸ hsent.2)
    obtain ⟨buffer, start, hbuffer, hdata⟩ := packetBuffer_body hbody
    obtain ⟨raw, hparse, rfl, rfl⟩ := parsePacket_eq hbuffer hdata
    refine ⟨raw :: raws, ?_, .cons ⟨hid, hpayload⟩ hreceived⟩
    rw [length_cons, getRawPackets, streamOf, flatMap_cons, hframe,
      getRawPacket_frame hshort hparse]
    change (getRawPackets _ _ _ _ >>= _) = _
    rw [← streamOf, hraws]
    rfl

/-- However the stream takes the bytes and however the reads cut them, once all are written the
receiver reads the packets that were sent, in their order, and nothing is left over. -/
theorem getRawPackets_readAll (h : Forall₂ (Sent zlib compression protocol) packets frames)
    {σ δ : Type} {encrypt : ByteCipher σ} {decrypt : ByteCipher δ} {related : σ → δ → Prop}
    (hinverts : encrypt.Inverts decrypt related) {start : σ} {other : δ}
    (hrelated : related start other) {write : ℕ → WritePoll} (hwrite : OneByte write)
    {lengths : List ℕ} {stream : StreamEncryptor σ}
    (hpresent : present encrypt write (streamOf frames) lengths (.new start) 0 =
      (stream, (streamOf frames).length))
    {reads : List (Option (List UInt8))}
    (hreads : (reads.flatMap fun read => read.getD []) = stream.accepted) :
    ∃ raws, getRawPackets zlib (compression.map CompressionInfo.threshold) packets.length
      (StreamDecryptor.readAll decrypt reads ⟨other⟩ []) = some (.ok (raws, [])) ∧
        Forall₂ (Received protocol) packets raws := by
  have hnew : Written encrypt start (streamOf frames) 0 (.new start) := written_new start _
  have haccepted := (hnew.present hwrite lengths).accepted
  rw [hpresent, take_length] at haccepted
  rw [StreamDecryptor.readAll_eq, hreads, haccepted, hinverts.apply hrelated, nil_append]
  exact getRawPackets_streamOf h

theorem getRawPackets_readAll_chained : ∃ raws, getRawPackets .stored none 2
    (StreamDecryptor.readAll chainedDecrypt [some [3, 6], none, some [7, 5, 6, 4], some [2, 11]]
      ⟨7⟩ []) = some (.ok (raws, [])) ∧
    Forall₂ (Received .play) [packetOf 5 [1, 2, 3], packetOf 6 [9]] raws := by
  have hfirst : Sent .stored none .play (packetOf 5 [1, 2, 3])
      ⟨⟨[0, 0, 0, 0, 0, 4, 5, 1, 2, 3], 5, by decide⟩⟩ := ⟨rfl, by decide⟩
  have hsecond : Sent .stored none .play (packetOf 6 [9])
      ⟨⟨[0, 0, 0, 0, 0, 2, 6, 9], 5, by decide⟩⟩ := ⟨rfl, by decide⟩
  have hwrite : OneByte fun _ => .ready (.ok 1) := fun _ => .inr rfl
  exact getRawPackets_readAll (.cons hfirst (.cons hsecond .nil)) chained_inverts rfl hwrite
    (show present _ _ _ [2, 3, 3] _ _ = _ from rfl) rfl

end EncodedPacket

end Steel

import Steel.Lib.Feed
import Steel.Protocol.PacketReader

/-!
# A packet that is being read

What `get_raw_packet` keeps in its future between two bytes: the digits of the length so far, or the
length and the bytes of the frame so far. The result is there with the last byte of the frame, or
as soon as the length is refused.
-/

namespace Steel

open List

inductive FrameProgress where
  | length (i : ℕ) (val : BitVec 32)
  | body (packetLen : ℕ) (data : List UInt8)
deriving DecidableEq, Repr

namespace FrameProgress

def start : FrameProgress := .length 0 0

def ofLength (zlib : Zlib) (compression : Option ℕ) (packetLen : ℕ) :
    FrameProgress ⊕ PacketOutcome RawPacket :=
  if maxPacketSize < packetLen then .inr (throw .outOfBounds)
  else if packetLen = 0 then .inr (TCPNetworkDecoder.parsePacket zlib compression [])
  else .inl (.body packetLen [])

def feed (zlib : Zlib) (compression : Option ℕ) :
    FrameProgress → UInt8 → FrameProgress ⊕ PacketOutcome RawPacket
  | .length i val, byte =>
    let val := val ||| ((BitVec.ofNat 32 byte.toNat &&& 0x7F) <<< (i * 7))
    if byte &&& 0x80 = 0 then ofLength zlib compression (usizeOfI32 (Int32.ofBitVec val))
    else if i + 1 = VarInt.maxSize then .inr (throw (.malformedValue (.other "VarInt")))
    else .inl (.length (i + 1) val)
  | .body packetLen data, byte =>
    let data := data ++ [byte]
    if data.length = packetLen then .inr (TCPNetworkDecoder.parsePacket zlib compression data)
    else .inl (.body packetLen data)

def eof : FrameProgress → PacketError
  | .length _ _ => .malformedValue (.other "VarInt")
  | .body _ _ => .other "early eof"

/-! ### Fed bytes are read bytes -/

variable {zlib : Zlib} {compression : Option ℕ}

def conclude : FrameProgress ⊕ (PacketOutcome RawPacket × List UInt8) →
    PacketOutcome (RawPacket × List UInt8)
  | .inl progress => throw progress.eof
  | .inr (result, rest) => do
    let packet ← result
    return (packet, rest)

/-- Bytes that come in parts give the packet of the whole frame. -/
theorem conclude_body {packetLen : ℕ} {data : List UInt8} (h : data.length < packetLen)
    (bytes : List UInt8) :
    conclude (feedAll (feed zlib compression) (.body packetLen data) bytes) =
      if bytes.length < packetLen - data.length then throw (.other "early eof")
      else do
        let packet ← TCPNetworkDecoder.parsePacket zlib compression
          (data ++ bytes.take (packetLen - data.length))
        return (packet, bytes.drop (packetLen - data.length)) := by
  induction bytes generalizing data with
  | nil =>
    rw [if_pos]
    · rfl
    · exact Nat.sub_pos_of_lt h
  | cons byte rest ih =>
    have hlength : (data ++ [byte]).length = data.length + 1 := by
      rw [length_append, length_singleton]
    by_cases hlast : data.length + 1 = packetLen
    · have hfeed : feed zlib compression (.body packetLen data) byte =
          .inr (TCPNetworkDecoder.parsePacket zlib compression (data ++ [byte])) := by
        rw [feed, hlength, if_pos hlast]
      have hleft : packetLen - data.length = 1 := by omega
      rw [feedAll_cons_inr hfeed, hleft, if_neg (by rw [length_cons]; omega)]
      rfl
    · have hfeed : feed zlib compression (.body packetLen data) byte =
          .inl (.body packetLen (data ++ [byte])) := by
        rw [feed, hlength, if_neg hlast]
      have hleft : packetLen - data.length = packetLen - (data ++ [byte]).length + 1 := by omega
      rw [feedAll_cons_inl hfeed, ih (by omega), hleft, length_cons, take_succ_cons,
        drop_succ_cons, append_assoc, singleton_append]
      simp only [Nat.add_lt_add_iff_right]

def readBody (zlib : Zlib) (compression : Option ℕ) (packetLen : ℕ) (rest : List UInt8) :
    PacketOutcome (RawPacket × List UInt8) :=
  if maxPacketSize < packetLen then throw .outOfBounds
  else if rest.length < packetLen then throw (.other "early eof")
  else do
    let packet ← TCPNetworkDecoder.parsePacket zlib compression (rest.take packetLen)
    return (packet, rest.drop packetLen)

theorem conclude_ofLength {progress : FrameProgress} {byte : UInt8} {packetLen : ℕ}
    (h : feed zlib compression progress byte = ofLength zlib compression packetLen)
    (rest : List UInt8) :
    conclude (feedAll (feed zlib compression) progress (byte :: rest)) =
      readBody zlib compression packetLen rest := by
  unfold ofLength at h
  unfold readBody
  by_cases hmax : maxPacketSize < packetLen
  · rw [if_pos hmax] at h
    rw [feedAll_cons_inr h, if_pos hmax]
    rfl
  · rw [if_neg hmax] at h
    rw [if_neg hmax]
    by_cases hzero : packetLen = 0
    · subst hzero
      rw [if_pos rfl] at h
      rw [feedAll_cons_inr h, if_neg (Nat.not_lt_zero _)]
      rfl
    · rw [if_neg hzero] at h
      rw [feedAll_cons_inl h]
      exact conclude_body (Nat.pos_of_ne_zero hzero) rest

theorem conclude_length {left i : ℕ} (h : i + left = VarInt.maxSize) (hleft : 0 < left)
    (val : BitVec 32) (bytes : List UInt8) :
    conclude (feedAll (feed zlib compression) (.length i val) bytes) =
      match readDigits 32 (.other "VarInt") left i val bytes with
      | some (.ok (val, rest)) =>
        readBody zlib compression (usizeOfI32 (Int32.ofBitVec val)) rest
      | some (.error _) => throw (.malformedValue (.other "VarInt"))
      | none => none := by
  induction left generalizing i val bytes with
  | zero => exact absurd hleft (lt_irrefl 0)
  | succ left ih =>
    cases bytes with
    | nil => rfl
    | cons byte rest =>
      have hwidth : ¬ 32 ≤ i * 7 := by
        rw [VarInt.maxSize] at h
        omega
      rw [readDigits, if_neg hwidth]
      by_cases hlast : byte &&& 0x80 = 0
      · rw [if_pos hlast]
        apply conclude_ofLength
        rw [feed, if_pos hlast]
      · rw [if_neg hlast]
        by_cases hlong : i + 1 = VarInt.maxSize
        · obtain rfl : left = 0 := by omega
          have hfeed : feed zlib compression (.length i val) byte =
              .inr (throw (.malformedValue (.other "VarInt"))) := by
            rw [feed, if_neg hlast, if_pos hlong]
          rw [feedAll_cons_inr hfeed]
          rfl
        · rw [feedAll_cons_inl (by rw [feed, if_neg hlast, if_neg hlong])]
          exact ih (by omega) (by omega) _ rest

theorem getRawPacket_eq_conclude (bytes : List UInt8) :
    TCPNetworkDecoder.getRawPacket zlib compression bytes =
      conclude (feedAll (feed zlib compression) start bytes) := by
  rw [start, conclude_length (Nat.zero_add VarInt.maxSize) (by decide),
    TCPNetworkDecoder.getRawPacket, VarInt.readAsync]
  cases readDigits 32 (.other "VarInt") VarInt.maxSize 0 0 bytes with
  | none => rfl
  | some result =>
    cases result with
    | error error | ok value => rfl

end FrameProgress

end Steel

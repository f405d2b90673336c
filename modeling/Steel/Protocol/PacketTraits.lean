import Steel.Utils.VariableInteger

/-!
# Encoded packets

A packet is written behind reserved space, into which its lengths are put afterwards. Without
compression the length of the data comes first. With compression a second length follows, which is
the one of the data before compression, or zero for data that is shorter than the threshold.

The zlib encoder and decoder are parameters, and the decoder inverts the encoder.
-/

namespace Steel

inductive ConnectionProtocol where
  | handshake
  | play
  | status
  | login
  | config
deriving DecidableEq, Repr

def ConnectionProtocol.debug : ConnectionProtocol → String
  | handshake => "Handshake"
  | play => "Play"
  | status => "Status"
  | login => "Login"
  | config => "Config"

inductive PacketError where
  | tooLong (length : ℕ)
  | outOfBounds
  | malformedValue (error : IoError)
  | decompressionFailed (message : String)
  | compressionFailed (message : String)
  | notCompressed
  | other (message : String)
  | invalidProtocol (message : String)
deriving DecidableEq, Repr

abbrev PacketOutcome (α : Type) := ExceptT PacketError Option α

def maxPacketSize : ℕ := 2097152

def maxPacketDataSize : ℕ := 8388608

/-- What a zlib decoder yields: bytes, and then the end or an error. -/
structure Inflated where
  bytes : List UInt8
  error : Option String

structure Zlib where
  deflate : UInt32 → List UInt8 → Except String (List UInt8)
  inflate : List UInt8 → Inflated
  inflate_deflate : ∀ level data out, deflate level data = .ok out → inflate out = ⟨data, none⟩

def Zlib.stored : Zlib where
  deflate _ data := .ok data
  inflate data := ⟨data, none⟩
  inflate_deflate := by
    intro level data out h
    cases h
    rfl

structure CompressionInfo where
  threshold : ℕ
  level : Int32
  threshold_pos : 0 < threshold
  threshold_lt : threshold < 2 ^ 32

/-- A packet for the client: its id in every protocol it belongs to, and how its payload is
written. -/
structure ClientPacket where
  getId : ConnectionProtocol → Option Int32
  write : Except IoError (List UInt8)

def ClientPacket.writePacket (packet : ClientPacket) (writer : FrontVec)
    (protocol : ConnectionProtocol) : Except PacketError FrontVec :=
  match packet.getId protocol with
  | none => .error (.invalidProtocol ("Invalid protocol " ++ protocol.debug))
  | some packetId =>
    match packet.write with
    | .error error => .error (.malformedValue error)
    | .ok payload =>
      .ok ((writer.extendFromSlice (VarInt.write packetId)).extendFromSlice payload)

structure EncodedPacket where
  encodedData : FrontVec

namespace EncodedPacket

def fromDataUncompressed (packetData : FrontVec) : PacketOutcome EncodedPacket := do
  let dataLen := packetData.len
  let varintSize := VarInt.writtenSize (Int32.ofNat dataLen)
  let completeLen := varintSize + dataLen
  if maxPacketSize < completeLen then throw (.tooLong completeLen)
  else
    let packetData ← VarInt.setInFront (Int32.ofNat dataLen) packetData varintSize
    return ⟨packetData⟩

/-- The lengths of a compressed frame are not checked again. -/
def compressed (zlib : Zlib) (packetData : FrontVec) (compression : CompressionInfo) :
    PacketOutcome EncodedPacket :=
  match zlib.deflate compression.level.toUInt32 packetData.asSlice with
  | .error message => throw (.compressionFailed message)
  | .ok deflated => do
    let dataLen := packetData.len
    let buf := (FrontVec.new 10).extendFromSlice deflated
    let varintSize := VarInt.writtenSize (Int32.ofNat dataLen)
    let fullLen := varintSize + buf.len
    let fullVarintSize := VarInt.writtenSize (Int32.ofNat fullLen)
    let buf ← VarInt.setInFront (Int32.ofNat dataLen) buf varintSize
    let buf ← VarInt.setInFront (Int32.ofNat fullLen) buf fullVarintSize
    return ⟨buf⟩

def belowThreshold (packetData : FrontVec) : PacketOutcome EncodedPacket := do
  let dataLenWithHeader := packetData.len + 1
  let varintSize := VarInt.writtenSize (Int32.ofNat dataLenWithHeader)
  let packetData ← VarInt.setInFront 0 packetData 1
  let packetData ← VarInt.setInFront (Int32.ofNat dataLenWithHeader) packetData varintSize
  return ⟨packetData⟩

def fromPacketData (zlib : Zlib) (packetData : FrontVec) (compression : CompressionInfo) :
    PacketOutcome EncodedPacket :=
  if maxPacketDataSize < packetData.len + VarInt.maxSize * 2 then throw (.tooLong packetData.len)
  else if compression.threshold ≤ packetData.len then compressed zlib packetData compression
  else belowThreshold packetData

def fromData (zlib : Zlib) (buf : FrontVec) : Option CompressionInfo → PacketOutcome EncodedPacket
  | some compression => fromPacketData zlib buf compression
  | none => fromDataUncompressed buf

def writeVec (packet : ClientPacket) (protocol : ConnectionProtocol) :
    Except PacketError FrontVec :=
  packet.writePacket (FrontVec.new 6) protocol

def fromBare (zlib : Zlib) (packet : ClientPacket) (compression : Option CompressionInfo)
    (protocol : ConnectionProtocol) : PacketOutcome EncodedPacket :=
  match writeVec packet protocol with
  | .error error => throw error
  | .ok buf => fromData zlib buf compression

end EncodedPacket

end Steel

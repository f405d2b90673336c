import Steel.Protocol.PacketTraits

/-!
# The packet reader

A frame is read in two steps, its length and then its bytes. What the bytes say is worked out
without reading any further.
-/

namespace Steel

def usizeOfI32 (value : Int32) : ℕ := value.toInt64.toUInt64.toNat

structure RawPacket where
  id : Int32
  buffer : List UInt8
  payloadStart : ℕ
deriving DecidableEq, Repr

def RawPacket.payload (packet : RawPacket) : List UInt8 := packet.buffer.drop packet.payloadStart

/-- A value of an input or output operation, whose errors are malformed values. -/
def PacketOutcome.ofOutcome {α : Type} : Outcome α → PacketOutcome α
  | some (.ok value) => some (.ok value)
  | some (.error error) => some (.error (.malformedValue error))
  | none => none

namespace TCPNetworkDecoder

/-- Exactly as many bytes as were announced, and then the end. -/
def decompress (zlib : Zlib) (data : List UInt8) (decompressedLen : ℕ) :
    Except PacketError (List UInt8) :=
  let inflated := zlib.inflate data
  if inflated.bytes.length < decompressedLen then
    .error (.decompressionFailed (inflated.error.getD "failed to fill whole buffer"))
  else if decompressedLen < inflated.bytes.length then
    .error (.decompressionFailed
      s!"decompressed packet exceeds declared length of {decompressedLen}")
  else
    match inflated.error with
    | some message => .error (.decompressionFailed message)
    | none => .ok inflated.bytes

def packetBuffer (zlib : Zlib) (compression : Option ℕ) (packetData : List UInt8) :
    PacketOutcome (List UInt8 × ℕ) :=
  match compression with
  | none => return (packetData, 0)
  | some threshold => do
    let (announced, rest) ← PacketOutcome.ofOutcome (VarInt.read packetData)
    let decompressedLen := usizeOfI32 announced
    let headerLen := VarInt.writtenSize (Int32.ofNat decompressedLen)
    if packetData.length < headerLen then none
    else if maxPacketDataSize < decompressedLen then throw (.tooLong decompressedLen)
    else if 0 < decompressedLen then
      match decompress zlib rest decompressedLen with
      | .error error => throw error
      | .ok decompressed => return (decompressed, 0)
    else if threshold < packetData.length - headerLen then throw .notCompressed
    else return (packetData, packetData.length - rest.length)

def parsePacket (zlib : Zlib) (compression : Option ℕ) (packetData : List UInt8) :
    PacketOutcome RawPacket := do
  let (packetBuffer, packetDataStart) ← packetBuffer zlib compression packetData
  let packetIdData := packetBuffer.drop packetDataStart
  let (packetId, rest) ← PacketOutcome.ofOutcome (VarInt.read packetIdData)
  return {
    id := packetId
    buffer := packetBuffer
    payloadStart := packetDataStart + (packetIdData.length - rest.length) }

/-- `get_raw_packet` on all that a stream still holds: the packet and what is left. -/
def getRawPacket (zlib : Zlib) (compression : Option ℕ) (bytes : List UInt8) :
    PacketOutcome (RawPacket × List UInt8) := do
  let (length, rest) ← PacketOutcome.ofOutcome (VarInt.readAsync bytes)
  let packetLen := usizeOfI32 length
  if maxPacketSize < packetLen then throw .outOfBounds
  else if rest.length < packetLen then throw (.other "early eof")
  else
    let packet ← parsePacket zlib compression (rest.take packetLen)
    return (packet, rest.drop packetLen)

end TCPNetworkDecoder

/-!
### Buffers and slices

The same steps with the sizes of the buffers that they allocate, which stay known when a later step
fails. A slice that starts behind its buffer is a panic here, and so are the assertions of a raw
packet.
-/

abbrev AllocatingOutcome (α : Type) := ExceptT PacketError (StateT (List ℕ) Option) α

namespace AllocatingOutcome

variable {α : Type}

def lift (outcome : PacketOutcome α) : AllocatingOutcome α := fun buffers =>
  Option.map (fun result => (result, buffers)) outcome

def allocate (size : ℕ) : AllocatingOutcome Unit := fun buffers =>
  some (.ok (), buffers ++ [size])

def assert (condition : Bool) : AllocatingOutcome Unit :=
  lift (if condition then return () else none)

end AllocatingOutcome

open AllocatingOutcome in
def RawPacket.fromBuffer (id : Int32) (buffer : List UInt8) (payloadStart : ℕ) :
    AllocatingOutcome RawPacket := do
  assert (payloadStart ≤ buffer.length)
  assert (payloadStart ≤ maxPacketDataSize)
  return ⟨id, buffer, payloadStart⟩

namespace TCPNetworkDecoder

open AllocatingOutcome

def packetBufferAllocating (zlib : Zlib) (compression : Option ℕ) (packetData : List UInt8) :
    AllocatingOutcome (List UInt8 × ℕ) :=
  match compression with
  | none => return (packetData, 0)
  | some threshold => do
    let (announced, rest) ← lift (PacketOutcome.ofOutcome (VarInt.read packetData))
    let decompressedLen := usizeOfI32 announced
    let headerLen := VarInt.writtenSize (Int32.ofNat decompressedLen)
    assert (headerLen ≤ packetData.length)
    if maxPacketDataSize < decompressedLen then throw (.tooLong decompressedLen)
    else if 0 < decompressedLen then do
      allocate decompressedLen
      match decompress zlib rest decompressedLen with
      | .error error => throw error
      | .ok decompressed => return (decompressed, 0)
    else if threshold < packetData.length - headerLen then throw .notCompressed
    else return (packetData, packetData.length - rest.length)

def parsePacketAllocating (zlib : Zlib) (compression : Option ℕ) (packetData : List UInt8) :
    AllocatingOutcome RawPacket := do
  let (packetBuffer, packetDataStart) ← packetBufferAllocating zlib compression packetData
  assert (packetDataStart ≤ packetBuffer.length)
  let packetIdData := packetBuffer.drop packetDataStart
  let (packetId, rest) ← lift (PacketOutcome.ofOutcome (VarInt.read packetIdData))
  RawPacket.fromBuffer packetId packetBuffer
    (packetDataStart + (packetIdData.length - rest.length))

def getRawPacketAllocating (zlib : Zlib) (compression : Option ℕ) (bytes : List UInt8) :
    AllocatingOutcome (RawPacket × List UInt8) := do
  let (length, rest) ← lift (PacketOutcome.ofOutcome (VarInt.readAsync bytes))
  let packetLen := usizeOfI32 length
  if maxPacketSize < packetLen then throw .outOfBounds
  else do
    allocate packetLen
    if rest.length < packetLen then throw (.other "early eof")
    else do
      let packet ← parsePacketAllocating zlib compression (rest.take packetLen)
      return (packet, rest.drop packetLen)

end TCPNetworkDecoder

end Steel

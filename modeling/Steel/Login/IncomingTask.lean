import Steel.Protocol.FrameProgress

/-!
# The task that receives packets

The task waits in a select for a packet of the reader or for an update of the connection, and works
on a packet before it waits again. When an update comes first, the select drops the future that
reads a packet, with the bytes it has already taken from the stream. The update is left behind by
the packet that enables encryption.

Bytes are decrypted when they are taken from the stream. The cipher is a parameter; it goes one step
with every byte.
-/

namespace Steel

structure StreamCipher (Key S : Type) where
  init : Key → S
  decrypt : S → UInt8 → S × UInt8

/-- `TCPNetworkDecoder` without its stream. -/
structure NetworkReader (S : Type) where
  cipher : Option S
  compression : Option ℕ

inductive ConnectionUpdate (Key : Type) where
  | enableEncryption (key : Key)
  | upgrade

structure ConnectionAction (Key : Type) where
  readerEncryption : Option Key
  readerCompression : Option ℕ
  upgrade : Bool

namespace NetworkReader

variable {Key S : Type}

def new : NetworkReader S := ⟨none, none⟩

variable (cipher : StreamCipher Key S)

variable (reader : NetworkReader S)

def readByte (byte : UInt8) : NetworkReader S × UInt8 :=
  match reader.cipher with
  | none => (reader, byte)
  | some state =>
    let (state, plain) := cipher.decrypt state byte
    ({ reader with cipher := some state }, plain)

def readBytes (cipher : StreamCipher Key S) :
    NetworkReader S → List UInt8 → NetworkReader S × List UInt8
  | reader, [] => (reader, [])
  | reader, byte :: rest =>
    let first := reader.readByte cipher byte
    let others := readBytes cipher first.1 rest
    (others.1, first.2 :: others.2)

def setEncryption (key : Key) : Option (NetworkReader S) :=
  match reader.cipher with
  | none => some { reader with cipher := some (cipher.init key) }
  | some _ => none

def setCompression (threshold : ℕ) : NetworkReader S :=
  { reader with compression := some threshold }

def apply (action : ConnectionAction Key) : Option (NetworkReader S) := do
  let reader ← match action.readerEncryption with
    | some key => reader.setEncryption cipher key
    | none => some reader
  return match action.readerCompression with
    | some threshold => reader.setCompression threshold
    | none => reader

end NetworkReader

inductive IncomingStage where
  | waiting
  | processing (packet : RawPacket)
  | stopped

/-- A packet that was handed to `process_packet`, or an action that it came back with. -/
inductive IncomingEvent (Key : Type) where
  | packet (packet : RawPacket)
  | action (action : ConnectionAction Key)

structure IncomingTask (Key S : Type) where
  /-- All that the client has sent. -/
  sent : List UInt8
  /-- What nobody has taken yet. -/
  stream : List UInt8
  reader : NetworkReader S
  /-- The future of the current select, once it has taken a byte. -/
  progress : Option FrameProgress
  updates : List (ConnectionUpdate Key)
  stage : IncomingStage
  log : List (IncomingEvent Key)

/-- Which branch of the select a step belongs to, if any. -/
inductive IncomingBranch where
  | packet
  | update
  | other
deriving DecidableEq, Repr

namespace IncomingTask

variable {Key S : Type}

def new : IncomingTask Key S where
  sent := []
  stream := []
  reader := .new
  progress := none
  updates := []
  stage := .waiting
  log := []

variable (zlib : Zlib) (cipher : StreamCipher Key S)

variable (task : IncomingTask Key S)

def poll (byte : UInt8) : FrameProgress ⊕ PacketOutcome RawPacket :=
  FrameProgress.feed zlib task.reader.compression (task.progress.getD .start)
    (task.reader.readByte cipher byte).2

def take (byte : UInt8) (rest : List UInt8) : IncomingTask Key S :=
  { task with stream := rest, reader := (task.reader.readByte cipher byte).1 }

inductive Step : IncomingTask Key S → IncomingBranch → IncomingTask Key S → Prop
  /-- The client sends bytes. -/
  | send (task : IncomingTask Key S) (bytes : List UInt8) :
      Step task .other { task with sent := task.sent ++ bytes, stream := task.stream ++ bytes }
  /-- A handler sends an update to all tasks of the connection. -/
  | broadcast (task : IncomingTask Key S) (update : ConnectionUpdate Key) :
      Step task .other { task with updates := task.updates ++ [update] }
  /-- The future takes a byte and goes on waiting. -/
  | read (task : IncomingTask Key S) (byte : UInt8) (rest : List UInt8) (progress : FrameProgress)
      (hstage : task.stage = .waiting) (hstream : task.stream = byte :: rest)
      (hpoll : task.poll zlib cipher byte = .inl progress) :
      Step task .packet { task.take cipher byte rest with progress := some progress }
  /-- The future is done. -/
  | packet (task : IncomingTask Key S) (byte : UInt8) (rest : List UInt8) (packet : RawPacket)
      (hstage : task.stage = .waiting) (hstream : task.stream = byte :: rest)
      (hpoll : task.poll zlib cipher byte = .inr (some (.ok packet))) :
      Step task .packet
        { task.take cipher byte rest with progress := none, stage := .processing packet }
  /-- The future fails, which cancels the connection. -/
  | fail (task : IncomingTask Key S) (byte : UInt8) (rest : List UInt8)
      (result : PacketOutcome RawPacket) (hstage : task.stage = .waiting)
      (hstream : task.stream = byte :: rest) (hpoll : task.poll zlib cipher byte = .inr result)
      (hresult : ∀ packet, result ≠ some (.ok packet)) :
      Step task .packet { task.take cipher byte rest with progress := none, stage := .stopped }
  /-- An update comes first, and the future is dropped. -/
  | update (task : IncomingTask Key S) (update : ConnectionUpdate Key)
      (rest : List (ConnectionUpdate Key)) (hstage : task.stage = .waiting)
      (hupdates : task.updates = update :: rest) :
      Step task .update
        { task with
          updates := rest
          progress := none
          stage := match update with
            | .enableEncryption _ => .waiting
            | .upgrade => .stopped }
  /-- The packet is processed, and the task goes on with other settings. -/
  | process (task : IncomingTask Key S) (packet : RawPacket) (action : ConnectionAction Key)
      (reader : NetworkReader S) (hstage : task.stage = .processing packet)
      (haction : action.upgrade = false) (hreader : task.reader.apply cipher action = some reader) :
      Step task .other
        { task with
          reader := reader
          stage := .waiting
          log := task.log ++ [.packet packet, .action action] }
  /-- The packet is processed, and upgrades or ends the connection. -/
  | finish (task : IncomingTask Key S) (packet : RawPacket)
      (hstage : task.stage = .processing packet) :
      Step task .other { task with stage := .stopped, log := task.log ++ [.packet packet] }
  /-- The login has timed out before the packet is processed. -/
  | expire (task : IncomingTask Key S) (packet : RawPacket)
      (hstage : task.stage = .processing packet) :
      Step task .other { task with stage := .stopped }
  /-- The connection is closed or times out while the task waits. -/
  | stop (task : IncomingTask Key S) (hstage : task.stage = .waiting) :
      Step task .other { task with progress := none, stage := .stopped }

/-- The states of the task, over all timings that satisfy a condition on the branches taken. -/
inductive Reached (condition : IncomingTask Key S → IncomingBranch → Prop) :
    IncomingTask Key S → Prop
  | new : Reached condition new
  | step {task next : IncomingTask Key S} {branch : IncomingBranch} (h : Reached condition task)
      (hstep : Step zlib cipher task branch next) (hcondition : condition task branch) :
      Reached condition next

def BetweenFrames (branch : IncomingBranch) : Prop :=
  branch = .update → task.progress = none

/-! ### The frames of a stream -/

/-- The events so far, as a reader of the whole stream would have them: each packet is one frame,
read with the settings that the earlier packets asked for. The reader and the bytes that are left
come last. -/
inductive Frames (bytes : List UInt8) :
    List (IncomingEvent Key) → NetworkReader S → List UInt8 → Prop
  | nil : Frames bytes [] .new bytes
  | packet {log : List (IncomingEvent Key)} {reader : NetworkReader S} {frame rest : List UInt8}
      {packet : RawPacket} (h : Frames bytes log reader (frame ++ rest))
      (hframe : TCPNetworkDecoder.getRawPacket zlib reader.compression
        (reader.readBytes cipher frame).2 = some (.ok (packet, []))) :
      Frames bytes (log ++ [.packet packet]) (reader.readBytes cipher frame).1 rest
  | action {log : List (IncomingEvent Key)} {reader next : NetworkReader S} {rest : List UInt8}
      {action : ConnectionAction Key} (h : Frames bytes log reader rest)
      (haction : reader.apply cipher action = some next) :
      Frames bytes (log ++ [.action action]) next rest

end IncomingTask

end Steel

import Steel.Player.Chat.MessageChain

/-!
# Chat state of a player, broadcasts and sessions

Whether signatures are valid, of messages and of profile keys, is a parameter. The previous messages
of a signed message are packed before the cache of the recipient is updated.
-/

namespace Steel

variable {PublicKey : Type}

structure ProfilePublicKeyData (PublicKey : Type) where
  expiresAt : SystemTime
  key : PublicKey
  keySignature : List UInt8
deriving DecidableEq, Repr

def expiryGracePeriod : ℤ := 8 * 3600 * 10 ^ 9

def ProfilePublicKeyData.hasExpiredWithGrace (data : ProfilePublicKeyData PublicKey)
    (gracePeriod now : ℤ) : Bool :=
  decide (data.expiresAt + gracePeriod ≤ now)

structure RemoteChatSession (PublicKey : Type) where
  sessionId : Uuid
  profilePublicKey : ProfilePublicKeyData PublicKey
deriving DecidableEq, Repr

inductive CryptError where
  | invalidKeyFormat
  | other (message : String)
deriving DecidableEq, Repr

inductive ValidationError where
  | invalidSignature
  | keyExpired
  | cryptoError (error : CryptError)
deriving DecidableEq, Repr

structure ChatServer (PublicKey : Type) where
  /-- Whether the signature of these bytes is valid. -/
  validate : PublicKey → List UInt8 → Signature → Except CryptError Bool
  /-- Whether the key belongs to the profile, if the keys of the service are there. -/
  profileKeyValidator :
    Option (Uuid → ProfilePublicKeyData PublicKey → Except ValidationError Unit)

structure SChat where
  message : String
  timestamp : Int64
  salt : Int64
  signature : Option Signature
  offset : Int32
  acknowledged : Vector UInt8 3
deriving Repr

/-- The counters, the cache, the validator and the chain of a player. -/
structure ChatState (PublicKey : Type) where
  messagesReceived : Int32
  signatureCache : MessageCache
  messageValidator : LastSeenMessagesValidator
  chatSession : Option (RemoteChatSession PublicKey)
  messageChain : Option SignedMessageChain

inductive ChatError where
  | noChatSession
  | noSignature
  | profileKeyExpired
  | noMessageChain
  | chainBroken
  | messageExpired (age : ℤ)
  | acknowledgement (text : String)
  | chain (error : ChainError)
  | validation (error : CryptError)
  | invalidSignature
deriving DecidableEq, Repr

def messageExpiresAfterServer : ℤ := 5 * 60 * 10 ^ 9

namespace ChatState

def new : ChatState PublicKey where
  messagesReceived := 0
  signatureCache := .new
  messageValidator := .new
  chatSession := none
  messageChain := none

variable (chat : ChatState PublicKey)

def getAndIncrementMessagesReceived : Int32 × ChatState PublicKey :=
  (chat.messagesReceived, { chat with messagesReceived := chat.messagesReceived + 1 })

def timestampOf (packet : SChat) : SystemTime := max packet.timestamp.toInt 0 * 10 ^ 6

def bodyOf (packet : SChat) (lastSeen : LastSeen) : SignedMessageBody :=
  ⟨packet.message, timestampOf packet, packet.salt, lastSeen⟩

variable (server : ChatServer PublicKey)

/-- What is left to check when the acknowledgement was applied. -/
def verifySigned (session : RemoteChatSession PublicKey) (signature : Signature)
    (body : SignedMessageBody) :
    ChatState PublicKey × Except ChatError (SignedMessageLink × SignedMessageBody) :=
  match chat.messageChain with
  | none => (chat, .error .noMessageChain)
  | some chain =>
    let (chain, result) := chain.validateAndAdvance body
    let chat := { chat with messageChain := some chain }
    match result with
    | .error error => (chat, .error (.chain error))
    | .ok link =>
      match server.validate session.profilePublicKey.key (messageSignatureBytes link body)
          signature with
      | .error error => (chat, .error (.validation error))
      | .ok true => (chat, .ok (link, body))
      | .ok false => (chat, .error .invalidSignature)

/-- The link and the body of the message if it is accepted. The key is checked at one time and the
age of the message at another. -/
def verifyChatSignature (packet : SChat) (keyNow now : SystemTime) :
    ChatState PublicKey × Except ChatError (SignedMessageLink × SignedMessageBody) :=
  match chat.chatSession with
  | none => (chat, .error .noChatSession)
  | some session =>
    match packet.signature with
    | none => (chat, .error .noSignature)
    | some signature =>
      if session.profilePublicKey.hasExpiredWithGrace expiryGracePeriod keyNow then
        (chat, .error .profileKeyExpired)
      else
        match chat.messageChain with
        | none => (chat, .error .noMessageChain)
        | some chain =>
          if chain.isBroken then (chat, .error .chainBroken)
          else
            let messageAge := max (now - timestampOf packet) 0
            if messageExpiresAfterServer < messageAge then
              (chat, .error (.messageExpired messageAge))
            else
              let (validator, update) :=
                chat.messageValidator.applyUpdate packet.acknowledged packet.offset
              let chat := { chat with messageValidator := validator }
              match update with
              | .error text => (chat, .error (.acknowledgement text))
              | .ok lastSeen => chat.verifySigned server session signature (bodyOf packet lastSeen)

def setChatSession (sender : Uuid) (session : RemoteChatSession PublicKey) : ChatState PublicKey :=
  { chat with
    chatSession := some session
    messageChain := some (.new sender session.sessionId) }

inductive ChatSessionUpdateOutcome (PublicKey : Type) where
  | unchanged
  | missingServiceKeys
  | expiryDowngrade
  | accepted (session : RemoteChatSession PublicKey)
  | invalid (error : ValidationError)

def validateChatSessionUpdate [DecidableEq PublicKey]
    (oldProfileKey : Option (ProfilePublicKeyData PublicKey))
    (newSession : RemoteChatSession PublicKey) (profileId : Uuid) :
    ChatSessionUpdateOutcome PublicKey :=
  if oldProfileKey = some newSession.profilePublicKey then .unchanged
  else if oldProfileKey.any fun oldKey =>
      decide (newSession.profilePublicKey.expiresAt < oldKey.expiresAt) then .expiryDowngrade
  else
    match server.profileKeyValidator with
    | none => .missingServiceKeys
    | some validate =>
      match validate profileId newSession.profilePublicKey with
      | .ok _ => .accepted newSession
      | .error error => .invalid error

def handleChatSessionUpdate [DecidableEq PublicKey] (chat : ChatState PublicKey) (profileId : Uuid)
    (newSession : RemoteChatSession PublicKey) : ChatState PublicKey × Bool :=
  match validateChatSessionUpdate server (chat.chatSession.map (·.profilePublicKey)) newSession
      profileId with
  | .accepted session => (chat.setChatSession profileId session, true)
  | _ => (chat, false)

def handleChatAck (offset : Int32) : ChatState PublicKey :=
  match chat.messageValidator.applyOffset offset with
  | .ok validator => { chat with messageValidator := validator }
  | .error _ => chat

end ChatState

structure CPlayerChat where
  globalIndex : Int32
  sender : Uuid
  index : Int32
  messageSignature : Option Signature
  message : String
  timestamp : Int64
  salt : Int64
  previousMessages : List PreviousMessage
deriving DecidableEq, Repr

def broadcastChat (chat : ChatState PublicKey) (packet : CPlayerChat) (senderLastSeen : LastSeen)
    (messageSignature : Option Signature) : ChatState PublicKey × CPlayerChat :=
  let (messagesReceived, chat) := chat.getAndIncrementMessagesReceived
  let previousMessages := chat.signatureCache.indexPreviousMessages senderLastSeen
  let packet :=
    { packet with globalIndex := messagesReceived, previousMessages := previousMessages }
  match messageSignature with
  | some signature =>
    ({ chat with
        signatureCache := chat.signatureCache.push senderLastSeen (some signature)
        messageValidator := chat.messageValidator.addPending (some signature) }, packet)
  | none => ({ chat with messageValidator := chat.messageValidator.addPending none }, packet)

/-!
### Sessions

Everything that touches the chat state of one player: messages of the player, deliveries to the
player, acknowledgements and new sessions. The history starts again with every new session.
-/

inductive ChatVerdict where
  | accepted (link : SignedMessageLink) (body : SignedMessageBody)
  | rejected (error : ChatError)
deriving DecidableEq, Repr

namespace ChatVerdict

def ofResult : Except ChatError (SignedMessageLink × SignedMessageBody) → ChatVerdict
  | .ok (link, body) => accepted link body
  | .error error => rejected error

def index? : ChatVerdict → Option ℤ
  | accepted link _ => some link.index.toInt
  | rejected _ => none

def timeStamp? : ChatVerdict → Option SystemTime
  | accepted _ body => some body.timeStamp
  | rejected _ => none

def outOfOrder (verdict : ChatVerdict) : Bool :=
  decide (verdict = rejected (.chain .outOfOrderChat))

def signatureFailed : ChatVerdict → Bool
  | rejected .invalidSignature => true
  | rejected (.validation _) => true
  | _ => false

end ChatVerdict

inductive ChatEvent (PublicKey : Type) where
  | message (packet : SChat) (keyNow now : SystemTime)
  | deliver (packet : CPlayerChat) (senderLastSeen : LastSeen) (messageSignature : Option Signature)
  | acknowledge (offset : Int32)
  | session (newSession : RemoteChatSession PublicKey)

structure ChatRun (PublicKey : Type) where
  chat : ChatState PublicKey
  /-- What has become of the messages of the session. -/
  history : List ChatVerdict

namespace ChatRun

def new : ChatRun PublicKey := ⟨.new, []⟩

variable [DecidableEq PublicKey] (server : ChatServer PublicKey) (profileId : Uuid)

def apply (run : ChatRun PublicKey) : ChatEvent PublicKey → ChatRun PublicKey
  | .message packet keyNow now =>
    let (chat, result) := run.chat.verifyChatSignature server packet keyNow now
    ⟨chat, run.history ++ [.ofResult result]⟩
  | .deliver packet senderLastSeen messageSignature =>
    { run with chat := (broadcastChat run.chat packet senderLastSeen messageSignature).1 }
  | .acknowledge offset => { run with chat := run.chat.handleChatAck offset }
  | .session newSession =>
    let (chat, changed) := run.chat.handleChatSessionUpdate server profileId newSession
    ⟨chat, if changed then [] else run.history⟩

/-- The runs in which every event meets a condition on the state before it. -/
inductive Reached (condition : ChatState PublicKey → ChatEvent PublicKey → Prop) :
    ChatRun PublicKey → Prop
  | new : Reached condition new
  | step {run : ChatRun PublicKey} (h : Reached condition run) (event : ChatEvent PublicKey)
      (hevent : condition run.chat event) : Reached condition (run.apply server profileId event)

end ChatRun

end Steel

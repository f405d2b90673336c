import Steel.Player.Chat.Session

/-!
# The signature cache of a client

A client has a fixed number of slots. It replaces the previous messages of a packet by their
signatures, and then puts these and the signature of the message into its slots.
-/

namespace Steel

structure ClientSignatureCache where
  entries : List (Option Signature)
  size : entries.length = MessageCache.maxCachedSignatures

namespace ClientSignatureCache

def new : ClientSignatureCache where
  entries := List.replicate MessageCache.maxCachedSignatures none
  size := List.length_replicate

/-- Write the last value of the deque into slot `i`, and go on with the next one. A slot that is not
reached stays as it is. -/
def pushRounds (pushSet : Finset Signature) :
    ℕ → ℕ → List Signature → List (Option Signature) → List (Option Signature)
  | 0, _, _, entries => entries
  | rounds + 1, i, deque, entries =>
    match deque.getLast? with
    | none => entries
    | some value =>
      let old := entries.getD i none
      pushRounds pushSet rounds (i + 1) (MessageCache.putBack pushSet old deque.dropLast)
        (entries.set i (some value))

theorem length_pushRounds (pushSet : Finset Signature) (rounds i : ℕ) (deque : List Signature)
    (entries : List (Option Signature)) :
    (pushRounds pushSet rounds i deque entries).length = entries.length := by
  induction rounds generalizing i deque entries with
  | zero => rfl
  | succ rounds ih =>
    rw [pushRounds]
    split
    · rfl
    · rw [ih, List.length_set]

variable (client : ClientSignatureCache)

def push (lastSeen : LastSeen) (signature : Option Signature) : ClientSignatureCache :=
  let deque := lastSeen ++ signature.toList
  { entries :=
      pushRounds deque.toFinset MessageCache.maxCachedSignatures 0 deque client.entries
    size := by rw [length_pushRounds, client.size] }

def unpack (message : PreviousMessage) : Option Signature :=
  if message.id = 0 then message.signature
  else client.entries.getD (message.id.toInt - 1).toNat none

def receive (packet : CPlayerChat) : Option (LastSeen × ClientSignatureCache) := do
  let lastSeen ← packet.previousMessages.mapM client.unpack
  return (lastSeen, client.push lastSeen packet.messageSignature)

end ClientSignatureCache

/-! ### Deliveries to one recipient -/

structure ChatDelivery where
  packet : CPlayerChat
  lastSeen : LastSeen
  signature : Signature
  signed : packet.messageSignature = some signature

structure ChatExchange (PublicKey : Type) where
  chat : ChatState PublicKey
  client : ClientSignatureCache
  /-- What the client has decoded. -/
  decoded : List LastSeen

namespace ChatExchange

variable {PublicKey : Type}

def new : ChatExchange PublicKey := ⟨.new, .new, []⟩

/-- The exchange stops if the client cannot decode a packet. -/
def deliver (exchange : ChatExchange PublicKey) (delivery : ChatDelivery) :
    Option (ChatExchange PublicKey) := do
  let (chat, packet) := broadcastChat exchange.chat delivery.packet delivery.lastSeen
    (some delivery.signature)
  let (lastSeen, client) ← exchange.client.receive packet
  return ⟨chat, client, exchange.decoded ++ [lastSeen]⟩

end ChatExchange

end Steel

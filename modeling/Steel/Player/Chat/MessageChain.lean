import Mathlib.Data.Finset.Dedup
import Steel.Lib.LittleEndian
import Steel.Utils.Types

/-!
# Signatures of chat messages

The server keeps a copy of the signatures that a client has cached, and refers to them by their
position.
-/

namespace Steel

abbrev Signature := List UInt8

abbrev LastSeen := List Signature

/-- A message that a chat packet refers to: by its position in the cache of the recipient, or in
full. -/
structure PreviousMessage where
  id : Int32
  signature : Option Signature
deriving DecidableEq, Repr

/-- The most recent signature comes first. -/
structure MessageCache where
  fullCache : List Signature
deriving DecidableEq, Repr

namespace MessageCache

def maxCachedSignatures : ℕ := 128

def new : MessageCache := ⟨[]⟩

/-- An old entry goes to the front of the deque, unless it is pushed anyway. -/
def putBack (pushSet : Finset Signature) (oldEntry : Option Signature) (deque : List Signature) :
    List Signature :=
  match oldEntry with
  | some old => if old ∈ pushSet then deque else old :: deque
  | none => deque

/-- Fill the new cache from position `i` on, for at most the given number of rounds. -/
def pushRounds (fullCache : List Signature) (pushSet : Finset Signature) :
    ℕ → ℕ → List Signature → List Signature → List Signature
  | 0, _, _, newCache => newCache
  | rounds + 1, i, deque, newCache =>
    let oldEntry := fullCache[i]?
    match deque.getLast? with
    | none => newCache
    | some newEntry =>
      pushRounds fullCache pushSet rounds (i + 1) (putBack pushSet oldEntry deque.dropLast)
        (newCache ++ [newEntry])

def push (cache : MessageCache) (lastSeenSignatures : LastSeen)
    (currentSignature : Option Signature) : MessageCache :=
  let deque := lastSeenSignatures ++ currentSignature.toList
  ⟨pushRounds cache.fullCache deque.toFinset maxCachedSignatures 0 deque []⟩

def indexPreviousMessage (cache : MessageCache) (signature : Signature) : PreviousMessage :=
  match cache.fullCache.idxOf? signature with
  | some index => ⟨1 + Int32.ofNat index, none⟩
  | none => ⟨0, some signature⟩

def indexPreviousMessages (cache : MessageCache) (senderLastSeen : LastSeen) :
    List PreviousMessage :=
  senderLastSeen.map cache.indexPreviousMessage

end MessageCache

/-!
### Acknowledged messages

The server tracks the messages it has sent to a client until the client has moved its window past
them. A message that was acknowledged stays acknowledged, and one that was ignored is forgotten.
-/

structure TrackedEntry where
  signature : Option Signature
  /-- The client has not acknowledged the message yet. -/
  pending : Bool
deriving DecidableEq, Repr

def TrackedEntry.acknowledge (entry : TrackedEntry) : TrackedEntry :=
  { entry with pending := false }

structure LastSeenMessagesValidator where
  trackedMessages : List (Option TrackedEntry)
  lastPendingSignature : Option Signature
deriving DecidableEq, Repr

namespace LastSeenMessagesValidator

def maxTrackedMessages : ℕ := 20

def new : LastSeenMessagesValidator where
  trackedMessages := List.replicate maxTrackedMessages none
  lastPendingSignature := none

variable (validator : LastSeenMessagesValidator)

def addPending (signature : Option Signature) : LastSeenMessagesValidator :=
  if signature ≠ validator.lastPendingSignature then
    { trackedMessages := validator.trackedMessages ++ [some ⟨signature, true⟩]
      lastPendingSignature := signature }
  else validator

def applyOffset (offset : Int32) : Except String LastSeenMessagesValidator :=
  let removable := validator.trackedMessages.length - maxTrackedMessages
  if offset < 0 ∨ removable < offset.toInt.toNat then
    .error s!"Advanced last seen window by {offset} messages, but expected at most {removable}"
  else
    .ok { validator with
      trackedMessages := validator.trackedMessages.drop offset.toInt.toNat }

def isAcknowledged (acknowledged : Vector UInt8 3) (i : ℕ) : Bool :=
  (acknowledged.toList.getD (i / 8) 0).toNat.testBit (i % 8)

/-- Go through the window from the message at index `i`. The messages after an error are not
touched. -/
def acknowledgeFrom (acknowledged : Vector UInt8 3) :
    ℕ → List (Option TrackedEntry) → List (Option TrackedEntry) × Except String (List Signature)
  | _, [] => ([], .ok [])
  | i, entry :: rest =>
    if isAcknowledged acknowledged i then
      match entry with
      | some entry =>
        let (rest, result) := acknowledgeFrom acknowledged (i + 1) rest
        (some entry.acknowledge :: rest, result.map (entry.signature.toList ++ ·))
      | none =>
        (none :: rest, .error
          s!"Last seen update acknowledged unknown or previously ignored message at index {i}")
    else
      match entry with
      | some ⟨signature, false⟩ =>
        (some ⟨signature, false⟩ :: rest, .error
          s!"Last seen update ignored previously acknowledged message at index {i}")
      | _ =>
        let (rest, result) := acknowledgeFrom acknowledged (i + 1) rest
        (none :: rest, result)

def applyUpdate (acknowledged : Vector UInt8 3) (offset : Int32) :
    LastSeenMessagesValidator × Except String (List Signature) :=
  match validator.applyOffset offset with
  | .error error => (validator, .error error)
  | .ok validator =>
    let (window, result) :=
      acknowledgeFrom acknowledged 0 (validator.trackedMessages.take maxTrackedMessages)
    ({ validator with
        trackedMessages := window ++ validator.trackedMessages.drop maxTrackedMessages }, result)

end LastSeenMessagesValidator

/-!
### The chain of signed messages

Every signed message of a session has the next index, and a time that is not before the last one.
-/

abbrev SystemTime := ℤ

structure SignedMessageLink where
  index : Int32
  sender : Uuid
  sessionId : Uuid
deriving DecidableEq, Repr

structure SignedMessageBody where
  content : String
  timeStamp : SystemTime
  salt : Int64
  lastSeen : LastSeen
deriving DecidableEq, Repr

inductive ChainError where
  | chainBroken
  | outOfOrderChat
deriving DecidableEq, Repr

/-! ### What is signed -/

def toBeBytes {w : ℕ} (value : BitVec w) : List UInt8 := (toLeBytes (w / 8) value.toNat).reverse

def SignedMessageLink.signatureBytes (link : SignedMessageLink) : List UInt8 :=
  toBeBytes link.sender ++ toBeBytes link.sessionId ++ toBeBytes link.index.toBitVec

def lastSeenSignatureBytes (lastSeen : LastSeen) : List UInt8 :=
  toBeBytes (Int32.ofNat lastSeen.length).toBitVec ++ lastSeen.flatten

def SignedMessageBody.signatureBytes (body : SignedMessageBody) : List UInt8 :=
  let content := body.content.toUTF8.toList
  toBeBytes body.salt.toBitVec ++
    toBeBytes (Int64.ofInt (max body.timeStamp 0 / 10 ^ 9)).toBitVec ++
    toBeBytes (Int32.ofNat content.length).toBitVec ++ content ++
    lastSeenSignatureBytes body.lastSeen

def messageSignatureBytes (link : SignedMessageLink) (body : SignedMessageBody) : List UInt8 :=
  toBeBytes (1 : Int32).toBitVec ++ link.signatureBytes ++ body.signatureBytes

/-! ### The chain -/

namespace SignedMessageLink

def root (sender sessionId : Uuid) : SignedMessageLink := ⟨0, sender, sessionId⟩

def advance (link : SignedMessageLink) : Option SignedMessageLink :=
  if link.index = Int32.maxValue then none
  else some { link with index := link.index + 1 }

end SignedMessageLink

structure SignedMessageChain where
  /-- Nothing if the chain is broken. -/
  nextLink : Option SignedMessageLink
  lastTimestamp : SystemTime
deriving DecidableEq, Repr

namespace SignedMessageChain

def new (sender sessionId : Uuid) : SignedMessageChain := ⟨some (.root sender sessionId), 0⟩

variable (chain : SignedMessageChain)

def isBroken : Bool := chain.nextLink.isNone

def breakChain : SignedMessageChain := { chain with nextLink := none }

def validateAndAdvance (body : SignedMessageBody) :
    SignedMessageChain × Except ChainError SignedMessageLink :=
  match chain.nextLink with
  | none => (chain, .error .chainBroken)
  | some link =>
    if body.timeStamp < chain.lastTimestamp then (chain.breakChain, .error .outOfOrderChat)
    else (⟨link.advance, body.timeStamp⟩, .ok link)

end SignedMessageChain

end Steel

import KaChatIndexer.ChatBlocks
import KaChatIndexer.CursorPaging

/-!
# Reads of the chat indexer

What the endpoints for handshakes, payments, contextual and group messages answer from one snapshot
of the store.
-/
namespace KaChatIndexer.ChatReads
open ByteStrings ChatPayload ChatRows ChatBlocks CursorPaging

/-- A request that is refused, and what goes wrong with a row. -/
inductive ReadFault where
  | badRequest
  | conversion
  | emptyReceiver
  | missingPayload
  | twoKeys
  deriving DecidableEq

/-! ## Addresses and texts -/

inductive Version where
  | pubKey | pubKeyECDSA | scriptHash
  deriving DecidableEq

def Version.code : Version → UInt8
  | .pubKey => 0
  | .pubKeyECDSA => 1
  | .scriptHash => 8

def Version.tryFrom (n : UInt8) : Option Version :=
  [Version.pubKey, .pubKeyECDSA, .scriptHash].find? (·.code = n)

/-- An address of the indexer's network. -/
structure Address where
  version : Version
  payload : Bytes
  deriving DecidableEq

/-- The payload of the address's script. -/
def Address.toPayload (a : Address) : AddressPayload := ⟨255 - a.version.code, payload33 a.payload⟩

/-- `none` is an address that is not known. -/
def toRpcAddress (a : AddressPayload) : Except ReadFault (Option Address) :=
  if a.inverseVersion = 0 then .ok none
  else
    match Version.tryFrom (255 - a.inverseVersion) with
    | none => .error .conversion
    | some .pubKeyECDSA => .ok (some ⟨.pubKeyECDSA, a.payload.toList⟩)
    | some version => .ok (some ⟨version, a.payload.toList.take 32⟩)

/-- The receiver of a row is never unknown. -/
def receiverAddress (a : AddressPayload) : Except ReadFault Address :=
  (toRpcAddress a).bind fun address =>
    match address with
    | none => .error .emptyReceiver
    | some address => .ok address

def hexDigitOf (n : UInt8) : UInt8 := if n < 10 then 0x30 + n else 0x57 + n

def hexString (b : Bytes) : Bytes := b.flatMap fun c => [hexDigitOf (c / 16), hexDigitOf (c % 16)]

theorem hexDigits_decode (c : UInt8) :
    [hexDigitOf (c / 16), hexDigitOf (c % 16)].map (fun d => KaText.hexDigit (Char.ofNat d.toNat)) =
      [some (c / 16).toNat, some (c % 16).toNat] ∧
    UInt8.ofNat (16 * (c / 16).toNat + (c % 16).toNat) = c := by
  have hall : ∀ n < 256, let c := UInt8.ofNat n
      [hexDigitOf (c / 16), hexDigitOf (c % 16)].map
        (fun d => KaText.hexDigit (Char.ofNat d.toNat)) =
          [some (c / 16).toNat, some (c % 16).toNat] ∧
        UInt8.ofNat (16 * (c / 16).toNat + (c % 16).toNat) = c := by decide +kernel
  simpa only [UInt8.ofNat_toNat] using hall c.toNat c.toNat_lt

theorem hexDecode_hexString (b : Bytes) :
    KaText.hexDecode ((hexString b).map fun c => Char.ofNat c.toNat) = some b := by
  induction b with
  | nil => rfl
  | cons c b ih =>
    obtain ⟨hdigits, hvalue⟩ := hexDigits_decode c
    simp only [List.map_cons, List.map_nil, List.cons.injEq, and_true] at hdigits
    simp only [hexString, List.flatMap_cons, List.cons_append, List.nil_append, List.map_cons,
      KaText.hexDecode, hdigits.1, hdigits.2, Option.bind_some] at ih ⊢
    rw [ih, Option.map_some, hvalue]

/-- A sealed message that is hex already is sent as it is. -/
def sealedMessage (sealed' : Bytes) : Bytes :=
  if isNonemptyLowercaseHex sealed' then sealed' else hexString sealed'

/-- The accepting block and its DAA score. -/
def acceptingOf (db : Database) (txId : TxId) : Except ReadFault (Option (Hash × ℕ)) :=
  match acceptanceByTxId db.acceptance txId with
  | .error _ => .error .twoKeys
  | .ok value => .ok (value.map fun v => (v.acceptingBlockHash, v.acceptingDaa))

def payloadOf {ν : Type} (p : Partition TxId ν) (txId : TxId) : Except ReadFault ν :=
  match get p txId with
  | none => .error .missingPayload
  | some payload => .ok payload

/-! ## Ranges of keys -/

/-- `u64::MAX`, where a range of times ends: its last key is shorter than any row's. -/
def lastTime : ℕ := 2 ^ 64 - 1

/-- The order of keys that agree up to the time: that of their fields. -/
def keyOrder (time : ℕ) (fields : List (List ℕ)) : List (List ℕ) := [time] :: fields

def ordinals (b : Bytes) : List ℕ := b.map UInt8.toNat

theorem keyOrder_lt {time time' : ℕ} (h : time < time') (fields fields' : List (List ℕ)) :
    keyOrder time fields < keyOrder time' fields' :=
  List.Lex.rel (List.Lex.rel h)

theorem time_le_of_keyOrder {time time' : ℕ} {fields fields' : List (List ℕ)}
    (h : keyOrder time fields ≤ keyOrder time' fields') : time ≤ time' :=
  not_lt.mp fun hlt => absurd h (not_le.mpr (keyOrder_lt hlt fields' fields))

section
variable {κ ν : Type}

/-- The rows under a prefix, in the order of their keys. -/
def ordered (within : κ → Bool) (time : κ → ℕ) (fields : κ → List (List ℕ)) (p : Partition κ ν) :
    Partition κ ν :=
  (p.filter fun row => within row.1).insertionSort fun a b =>
    keyOrder (time a.1) (fields a.1) ≤ keyOrder (time b.1) (fields b.1)

/-- Those from a time on. -/
def range (time : κ → ℕ) (p : Partition κ ν) (start : ℕ) : Partition κ ν :=
  p.filter fun row => start ≤ time row.1 ∧ time row.1 < lastTime

end

def addressOrdinals (a : AddressPayload) : List ℕ := ordinals (a.inverseVersion :: a.payload.toList)

/-! The rows that `iter_by_sender_from_block_time_rtx` and its like go through, from time 0 on. -/

namespace Partitions

def handshakesBySender (rows : Rows) (sender : AddressPayload) :
    Partition HandshakeKeyBySender Unit :=
  ordered (·.sender = sender) (·.blockTime) (fun k =>
    [ordinals k.blockHash, addressOrdinals k.receiver, [k.version], ordinals k.txId])
    rows.handshakeBySender

def handshakesByReceiver (rows : Rows) (receiver : AddressPayload) :
    Partition HandshakeKeyByReceiver AddressPayload :=
  ordered (·.receiver = receiver) (·.blockTime) (fun k =>
    [ordinals k.blockHash, [k.version], ordinals k.txId]) rows.handshakeByReceiver

def paymentsBySender (rows : Rows) (sender : AddressPayload) : Partition PaymentKeyBySender Unit :=
  ordered (·.sender = sender) (·.blockTime) (fun k =>
    [ordinals k.blockHash, addressOrdinals k.receiver, [k.version], ordinals k.txId])
    rows.paymentBySender

def paymentsByReceiver (rows : Rows) (receiver : AddressPayload) :
    Partition PaymentKeyByReceiver AddressPayload :=
  ordered (·.receiver = receiver) (·.blockTime) (fun k =>
    [ordinals k.blockHash, [k.version], ordinals k.txId]) rows.paymentByReceiver

def contextualBySender (rows : Rows) (sender : AddressPayload) (aliasBytes : Bytes) :
    Partition ContextualMessageBySenderKey Unit :=
  ordered (fun k => k.sender = sender ∧ k.aliasBytes = aliasBytes) (·.blockTime) (fun k =>
    [ordinals k.blockHash, addressOrdinals k.receiver, [k.version], ordinals k.txId])
    rows.contextualMessageBySender

def contextualByInbox (rows : Rows) (tag : Bytes) :
    Partition ContextualMessageByInboxKey AddressPayload :=
  ordered (·.inboxTag = tag) (·.blockTime) (fun k => [ordinals k.txId]) rows.contextualMessageByInbox

def groupFields (k : GroupMessageKeyByBlindedGroupId) : List (List ℕ) :=
  [ordinals k.blockHash, [k.version], ordinals k.txId]

def groupMessages (rows : Rows) (blindedGroupId : Bytes) :
    Partition GroupMessageKeyByBlindedGroupId AddressPayload :=
  ordered (·.blindedGroupId = blindedGroupId) (·.blockTime) groupFields
    rows.groupMessageByBlindedGroupId

end Partitions

/-! ## Handshakes, payments and contextual messages -/

structure PaginationParams where
  limit : Option ℕ
  blockTime : Option ℕ

/-- Ids and hashes stand for their hex; a sender that is not known is an empty text or `null`. -/
structure HandshakeResponse where
  txId : TxId
  sender : Option Address
  receiver : Address
  blockTime : ℕ
  accepting : Option (Hash × ℕ)
  messagePayload : Bytes
  deriving DecidableEq

structure PaymentResponse where
  txId : TxId
  sender : Option Address
  receiver : Address
  blockTime : ℕ
  amount : ℕ
  message : Bytes
  accepting : Option (Hash × ℕ)
  deriving DecidableEq

structure ContextualMessageResponse where
  txId : TxId
  sender : Option Address
  aliasHex : Bytes
  blockTime : ℕ
  accepting : Option (Hash × ℕ)
  messagePayload : Bytes
  deriving DecidableEq

def handshakeResponse (db : Database) (txId : TxId) (sender receiver : AddressPayload)
    (blockTime : ℕ) : Except ReadFault HandshakeResponse :=
  (toRpcAddress sender).bind fun sender =>
    (receiverAddress receiver).bind fun receiver =>
      (acceptingOf db txId).bind fun accepting =>
        (payloadOf db.rows.txIdToHandshake txId).map fun payload =>
          ⟨txId, sender, receiver, blockTime, accepting, hexString payload⟩

def getHandshakesBySender (db : Database) (address : Address) (params : PaginationParams) :
    Except ReadFault (List HandshakeResponse) :=
  let limit := min (params.limit.getD 10) 50
  let cursor := params.blockTime.getD 0
  (page (·.1.txId) limit (range (·.blockTime)
    (Partitions.handshakesBySender db.rows address.toPayload) cursor)).mapM
    fun (k, ()) => handshakeResponse db k.txId k.sender k.receiver k.blockTime

def getHandshakesByReceiver (db : Database) (address : Address) (params : PaginationParams) :
    Except ReadFault (List HandshakeResponse) :=
  let limit := min (params.limit.getD 10) 50
  let cursor := params.blockTime.getD 0
  (page (·.1.txId) limit (range (·.blockTime)
    (Partitions.handshakesByReceiver db.rows address.toPayload) cursor)).mapM
    fun (k, sender) => handshakeResponse db k.txId sender k.receiver k.blockTime

def paymentBySenderResponse (db : Database) (address : Address) (k : PaymentKeyBySender) :
    Except ReadFault PaymentResponse :=
  (payloadOf db.rows.txIdToPayment k.txId).bind fun payment =>
    (acceptingOf db k.txId).bind fun accepting =>
      (receiverAddress k.receiver).map fun receiver =>
        ⟨k.txId, some address, receiver, k.blockTime, payment.1, sealedMessage payment.2, accepting⟩

def getPaymentsBySender (db : Database) (address : Address) (params : PaginationParams) :
    Except ReadFault (List PaymentResponse) :=
  let limit := min (params.limit.getD 10) 50
  let cursor := params.blockTime.getD 0
  (page (·.1.txId) limit (range (·.blockTime)
    (Partitions.paymentsBySender db.rows address.toPayload) cursor)).mapM
    fun (k, ()) => paymentBySenderResponse db address k

def paymentByReceiverResponse (db : Database) (k : PaymentKeyByReceiver) (sender : AddressPayload) :
    Except ReadFault PaymentResponse :=
  (payloadOf db.rows.txIdToPayment k.txId).bind fun payment =>
    (acceptingOf db k.txId).bind fun accepting =>
      (toRpcAddress sender).bind fun sender =>
        (receiverAddress k.receiver).map fun receiver =>
          ⟨k.txId, sender, receiver, k.blockTime, payment.1, sealedMessage payment.2, accepting⟩

def getPaymentsByReceiver (db : Database) (address : Address) (params : PaginationParams) :
    Except ReadFault (List PaymentResponse) :=
  let limit := min (params.limit.getD 10) 50
  let cursor := params.blockTime.getD 0
  (page (·.1.txId) limit (range (·.blockTime)
    (Partitions.paymentsByReceiver db.rows address.toPayload) cursor)).mapM
    fun (k, sender) => paymentByReceiverResponse db k sender

def contextualBySenderResponse (db : Database) (aliasHex : Bytes)
    (k : ContextualMessageBySenderKey) : Except ReadFault ContextualMessageResponse :=
  (toRpcAddress k.sender).bind fun sender =>
    (acceptingOf db k.txId).bind fun accepting =>
      (payloadOf db.rows.txIdToContextualMessage k.txId).map fun payload =>
        ⟨k.txId, sender, aliasHex, k.blockTime, accepting, hexString payload⟩

/-- The alias comes in hex, of 16 bytes at most. -/
def getContextualMessagesBySender (db : Database) (address : Address) (aliasHex : Bytes)
    (params : PaginationParams) : Except ReadFault (List ContextualMessageResponse) :=
  let limit := min (params.limit.getD 10) 50
  let cursor := params.blockTime.getD 0
  if 32 < aliasHex.length then .error .badRequest
  else
    match decodeFixedHex (aliasHex.length / 2) aliasHex with
    | none => .error .badRequest
    | some name =>
      (page (·.1.txId) limit (range (·.blockTime)
        (Partitions.contextualBySender db.rows address.toPayload (padded 16 name)) cursor)).mapM fun (k, ()) => contextualBySenderResponse db aliasHex k

/-- A payload that is missing is sent as an empty text. -/
def contextualByInboxResponse (db : Database) (k : ContextualMessageByInboxKey)
    (sender : AddressPayload) : Except ReadFault ContextualMessageResponse :=
  (toRpcAddress sender).bind fun sender =>
    (acceptingOf db k.txId).map fun accepting =>
      ⟨k.txId, sender, [], k.blockTime, accepting,
        ((get db.rows.txIdToContextualMessage k.txId).map hexString).getD []⟩

def getContextualMessagesByInbox (db : Database) (tagHex : Bytes) (params : PaginationParams) :
    Except ReadFault (List ContextualMessageResponse) :=
  let limit := min (params.limit.getD 100) 500
  let cursor := params.blockTime.getD 0
  match if isLowercaseHex tagHex 16 then decodeFixedHex 16 tagHex else none with
  | none => .error .badRequest
  | some tag =>
    (page (·.1.txId) limit (range (·.blockTime) (Partitions.contextualByInbox db.rows tag) cursor)).mapM
      fun (k, sender) => contextualByInboxResponse db k sender

/-! ## Group messages -/

structure GroupMessageResponse where
  txId : TxId
  sender : Option Address
  blindedGroupId : Bytes
  blockTime : ℕ
  cursor : GroupMessageKeyByBlindedGroupId
  accepting : Option (Hash × ℕ)
  messagePayload : Bytes
  deriving DecidableEq

/-- The cursor stands for the hex of the key's bytes. -/
structure GroupMessagePaginationParams where
  limit : Option ℕ
  blockTime : Option ℕ
  cursor : Option GroupMessageKeyByBlindedGroupId
  blindedGroupId : Bytes

def buildMessageRow (db : Database) (k : GroupMessageKeyByBlindedGroupId) (sender : AddressPayload)
    (idHex : Bytes) : Except ReadFault GroupMessageResponse :=
  (toRpcAddress sender).bind fun sender =>
    (acceptingOf db k.txId).bind fun accepting =>
      (payloadOf db.rows.txIdToGroupMessage k.txId).map fun payload =>
        ⟨k.txId, sender, idHex, k.blockTime, k, accepting, hexString payload⟩

/-- After the cursor, in the order of keys of one id. -/
def afterCursor (cursor : Option GroupMessageKeyByBlindedGroupId)
    (k : GroupMessageKeyByBlindedGroupId) : Bool :=
  cursor.all fun c =>
    keyOrder c.blockTime (Partitions.groupFields c) < keyOrder k.blockTime (Partitions.groupFields k)

def getGroupMessagesByBlindedGroupId (db : Database) (params : GroupMessagePaginationParams) :
    Except ReadFault (List GroupMessageResponse) :=
  let limit := min (params.limit.getD 10) 50
  match decodeFixedHex 32 params.blindedGroupId with
  | none => .error .badRequest
  | some id =>
    if params.cursor.any (·.blindedGroupId ≠ id) then .error .badRequest
    else
      let start := params.blockTime.getD ((params.cursor.map (·.blockTime)).getD 0)
      (page (·.1.txId) limit ((range (·.blockTime)
        (Partitions.groupMessages db.rows id) start).filter fun row =>
        afterCursor params.cursor row.1)).mapM
          fun (k, sender) => buildMessageRow db k sender params.blindedGroupId

structure BatchedQuery where
  blindedGroupId : Bytes
  cursor : Option GroupMessageKeyByBlindedGroupId
  limit : Option ℕ

/-- A lane that is checked. -/
structure PreparedLane where
  id : Bytes
  idHex : Bytes
  cursor : Option GroupMessageKeyByBlindedGroupId
  start : ℕ
  limit : ℕ

def prepareLane (q : BatchedQuery) : Except ReadFault PreparedLane :=
  match decodeFixedHex 32 q.blindedGroupId with
  | none => .error .badRequest
  | some id =>
    if q.cursor.any (·.blindedGroupId ≠ id) then .error .badRequest
    else .ok ⟨id, q.blindedGroupId, q.cursor, (q.cursor.map (·.blockTime)).getD 0,
      min (q.limit.getD 10) 50⟩

def readLane (db : Database) (lane : PreparedLane) : Except ReadFault (List GroupMessageResponse) :=
  (page (·.1.txId) lane.limit ((range (·.blockTime)
    (Partitions.groupMessages db.rows lane.id) lane.start).filter
    fun row => afterCursor lane.cursor row.1)).mapM
      fun (k, sender) => buildMessageRow db k sender lane.idHex

/-- Every lane is checked before the first one is read. -/
def postGroupMessagesByBlindedGroupIds (db : Database) (queries : List BatchedQuery) :
    Except ReadFault (List (Bytes × List GroupMessageResponse)) :=
  if 64 < queries.length then .error .badRequest
  else do
    let lanes ← queries.mapM prepareLane
    lanes.mapM fun lane => do
      let messages ← readLane db lane
      return (lane.idHex, messages)

def newer (since : ℕ) (row : GroupMessageKeyByBlindedGroupId × AddressPayload) : Bool :=
  since < row.1.blockTime

/-- The rows of one id that are newer. -/
def rowsSince (db : Database) (limit since : ℕ) (id idHex : Bytes) :
    Except ReadFault (List GroupMessageResponse) :=
  (page (·.1.txId) limit ((range (·.blockTime)
    (Partitions.groupMessages db.rows id) since).filter
    (newer since))).mapM fun (k, sender) => buildMessageRow db k sender idHex

/-- One stream, the oldest first and cut at the limit, with the last block time. -/
def mergeMessages (limit since : ℕ) (all : List GroupMessageResponse) :
    List GroupMessageResponse × ℕ :=
  let messages := (all.insertionSort fun a b =>
    keyOrder a.blockTime [ordinals a.txId] ≤ keyOrder b.blockTime [ordinals b.txId]).take limit
  (messages, ((messages.map (·.blockTime)).max?).getD since)

def postGroupMessagesSince (db : Database) (ids : List Bytes) (since : ℕ) (limit : Option ℕ) :
    Except ReadFault (List GroupMessageResponse × ℕ) :=
  if 256 < ids.length then .error .badRequest
  else
    let limit := min (limit.getD 200) 500
    match ids.mapM fun idHex => (decodeFixedHex 32 idHex).map fun id => (id, idHex) with
    | none => .error .badRequest
    | some ids => do
      let all ← ids.mapM fun (id, idHex) => rowsSince db limit since id idHex
      return mergeMessages limit since all.flatten

end KaChatIndexer.ChatReads

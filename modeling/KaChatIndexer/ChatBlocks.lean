import KaChatIndexer.ChatRows
import KaChatIndexer.Fallible

/-!
# Blocks and chain changes of the chat indexer

A block, a change of the selected chain and the answer to a sender request are each handled in one
write transaction. The sender of a transaction that spends output 0 of an indexed one is the owner of
that output; the first output that is not the sender's names the receiver, and with the transaction's
id the key of its acceptance record.
-/
namespace KaChatIndexer.ChatBlocks
open ByteStrings ChatPayload ChatRows Fallible

structure Outpoint where
  txId : TxId
  index : ℕ
  deriving DecidableEq

structure RpcTransactionOutput where
  value : ℕ
  scriptPublicKey : ScriptPublicKey
  deriving DecidableEq

/-- A transaction with its id, and the outpoints of its inputs. -/
structure RpcTransaction where
  txId : TxId
  inputs : List Outpoint
  outputs : List RpcTransactionOutput
  payload : Bytes
  deriving DecidableEq

structure RpcBlock where
  header : RpcHeader
  transactions : List RpcTransaction
  deriving DecidableEq

/-! ## The acceptance records -/

structure AcceptanceKey where
  txId : TxId
  receiver : AddressPayload
  deriving DecidableEq

/-- The accepting block and its DAA score, all zero before any, and the rows that wait. -/
structure AcceptanceValue where
  acceptingBlockHash : Hash
  acceptingDaa : ℕ
  entries : List InsertionEntry

abbrev Acceptance := Partition AcceptanceKey AcceptanceValue

def zeroHash : Hash := List.replicate 32 0

/-- `headers` holds blue work and DAA score; the pushes are those sent so far, the newest last. -/
structure Database where
  headers : Partition Hash (ℕ × ℕ)
  acceptance : Acceptance
  output0Owner : Partition TxId AddressPayload
  rows : Rows
  acceptingBlockToTxIds : Partition Hash (List TxId)
  pendingSenders : Partition (ℕ × TxId) Unit
  pushes : List PushEvent

def Database.empty : Database := ⟨[], [], [], .empty, [], [], []⟩

/-- What ends the process: the assertion on the records of an id, `unwrap` or `expect` of a missing
input, record, header or chain block, and the error of a handler. -/
inductive Fault where
  | twoKeys
  | noInput
  | missingKey
  | unprocessed
  | noAdded
  | malformed
  deriving DecidableEq

/-- The records under a prefix that is a transaction id. -/
def recordsOf (p : Acceptance) (txId : TxId) : Acceptance := p.filter (·.1.txId = txId)

/-- The only record under the prefix; the process ends when there are more. -/
def onlyRecord (p : Acceptance) (txId : TxId) :
    Except Fault (Option (AcceptanceKey × AcceptanceValue)) :=
  match recordsOf p txId with
  | [] => .ok none
  | [record] => .ok (some record)
  | _ :: _ :: _ => .error .twoKeys

/-- `key_by_tx_id` and `key_by_tx_id_rtx`. -/
def keyByTxId (p : Acceptance) (txId : TxId) : Except Fault (Option AcceptanceKey) :=
  (onlyRecord p txId).map fun record => record.map (·.1)

/-- `acceptance_by_tx_id_rtx`. -/
def acceptanceByTxId (p : Acceptance) (txId : TxId) : Except Fault (Option AcceptanceValue) :=
  (onlyRecord p txId).map fun record => (record.map (·.2)).filter fun v =>
    ¬ (v.acceptingBlockHash = zeroHash ∧ v.acceptingDaa = 0)

/-- Further entries come after those that are there. -/
def insertAcceptance (p : Acceptance) (key : AcceptanceKey) (entries : List InsertionEntry) :
    Acceptance :=
  match get p key with
  | none => put p key ⟨zeroHash, 0, entries⟩
  | some old => put p key { old with entries := old.entries ++ entries }

/-- A key that is not there is not made. -/
def updateRecord (p : Acceptance) (key : AcceptanceKey) (f : AcceptanceValue → AcceptanceValue) :
    Acceptance :=
  match get p key with
  | none => p
  | some old => put p key (f old)

def updateAcceptance (p : Acceptance) (key : AcceptanceKey) (hash : Hash) (daa : ℕ) : Acceptance :=
  updateRecord p key fun old => { old with acceptingBlockHash := hash, acceptingDaa := daa }

def entriesOf (p : Acceptance) (key : AcceptanceKey) : List InsertionEntry :=
  ((get p key).map (·.entries)).getD []

/-! ## Transactions -/

/-- The recorded owner when there is a record, otherwise the parent's receiver. -/
def output0Owner (parentReceiver : AddressPayload) (recorded : Option AddressPayload) :
    Option AddressPayload :=
  match recorded with
  | some owner => if owner = default then none else some owner
  | none => some parentReceiver

/-- The outputs that pay a standard address. -/
def standardOutputs (env : Env) (outputs : List RpcTransactionOutput) :
    List (ℕ × AddressPayload) :=
  outputs.filterMap fun output =>
    (AddressPayload.tryFrom env output.scriptPublicKey).map fun a => (output.value, a)

/-- The first of them that is not the sender's, or else the first. -/
def resolvePrimaryReceiver (env : Env) (outputs : List RpcTransactionOutput)
    (sender : Option AddressPayload) : ℕ × AddressPayload :=
  match standardOutputs env outputs with
  | [] => (0, default)
  | first :: rest =>
    (sender.bind fun s => (first :: rest).find? fun output => output.2 ≠ s).getD first

/-- The address that the first output pays. -/
def output0 (env : Env) (tx : RpcTransaction) : Option AddressPayload :=
  tx.outputs.head?.bind fun output => AddressPayload.tryFrom env output.scriptPublicKey

/-- The parent's key is read from what is committed, its owner through the write transaction. -/
def resolveSender (committed wtx : Database) (outpoint : Outpoint) :
    Except Fault (Option AddressPayload) :=
  if outpoint.index ≠ 0 then .ok none
  else
    (keyByTxId committed.acceptance outpoint.txId).map fun key =>
      key.bind fun key => output0Owner key.receiver (get wtx.output0Owner outpoint.txId)

/-- The records of a transaction whose sender is known or left to the node. -/
def indexTransaction (env : Env) (header : RpcHeader) (tx : RpcTransaction) (op : SealedOperation)
    (sender : Option AddressPayload) (wtx : Database) : Except Fault Database :=
  let (amount, receiver) := resolvePrimaryReceiver env tx.outputs sender
  let owners :=
    if output0 env tx ≠ some receiver then
      put wtx.output0Owner tx.txId ((output0 env tx).getD default)
    else wtx.output0Owner
  let s : Sighting := ⟨header, tx.txId, amount, receiver, sender⟩
  let written :=
    if storeContent env s op then handleOperation s op wtx.rows else some ⟨wtx.rows, [], []⟩
  match written with
  | none => .error .malformed
  | some w =>
    .ok { wtx with
      output0Owner := owners
      rows := w.rows
      acceptance := insertAcceptance wtx.acceptance ⟨tx.txId, receiver⟩ w.entries
      pushes := wtx.pushes ++ w.pushes }

def handleTransaction (env : Env) (committed : Database) (header : RpcHeader) (tx : RpcTransaction)
    (wtx : Database) : Except Fault Database :=
  match parseSealedOperation tx.payload with
  | none => .ok wtx
  | some op =>
    match tx.inputs with
    | [] => .error .noInput
    | outpoint :: _ =>
      (resolveSender committed wtx outpoint).bind fun sender =>
        indexTransaction env header tx op sender wtx

/-- A block whose header is there already is passed over. -/
def handleBlock (env : Env) (block : RpcBlock) (db : Database) : Except Fault Database :=
  let header := block.header
  let wtx := { db with headers := put db.headers header.hash (header.blueWork, header.daaScore) }
  if (get db.headers header.hash).isSome then .ok wtx
  else foldSteps (handleTransaction env db header) block.transactions wtx

/-! ## Changes of the selected chain -/

/-- The chain blocks that leave and that come, and what each of the latter accepts. -/
structure ChainChange where
  removed : List Hash
  added : List Hash
  accepted : List (Hash × List TxId)

def daaOf (db : Database) (hash : Hash) : Except Fault ℕ :=
  match get db.headers hash with
  | none => .error .unprocessed
  | some (_, daa) => .ok daa

/-- A transaction of a removed block: its record names the block, and is not pending any more. -/
def removeAccepted (hash : Hash) (daa : ℕ) (txId : TxId) (db : Database) : Except Fault Database :=
  (keyByTxId db.acceptance txId).bind fun key =>
    match key with
    | none => .error .missingKey
    | some key => .ok { db with
        acceptance := updateAcceptance db.acceptance key hash daa
        pendingSenders :=
          if entriesOf db.acceptance key = [] then db.pendingSenders
          else erase db.pendingSenders (daa, txId) }

def handleVccRemoval (hash : Hash) (db : Database) : Except Fault Database :=
  match get db.acceptingBlockToTxIds hash with
  | none => .ok db
  | some txIds =>
    (daaOf db hash).bind fun daa =>
      foldSteps (removeAccepted hash daa) txIds
        { db with acceptingBlockToTxIds := erase db.acceptingBlockToTxIds hash }

/-- An accepted transaction: one that is not indexed is passed over, one with entries is pending. -/
def addAccepted (hash : Hash) (daa : ℕ) (txId : TxId) (db : Database) : Except Fault Database :=
  (keyByTxId db.acceptance txId).map fun key =>
    match key with
    | none => db
    | some key => { db with
        acceptance := updateAcceptance db.acceptance key hash daa
        pendingSenders :=
          if entriesOf db.acceptance key = [] then db.pendingSenders
          else put db.pendingSenders (daa, txId) () }

/-- The accepted transactions that are indexed. -/
def trackedIds (p : Acceptance) (txIds : List TxId) : List TxId :=
  txIds.filter fun txId => recordsOf p txId ≠ []

def handleVccAddition (block : Hash × List TxId) (db : Database) : Except Fault Database :=
  (daaOf db block.1).bind fun daa =>
    (foldSteps (addAccepted block.1 daa) block.2 db).map fun db =>
      { db with
        acceptingBlockToTxIds :=
          put db.acceptingBlockToTxIds block.1 (trackedIds db.acceptance block.2) }

/-- `handle_vcc` and `handle_vc_resp`. -/
def handleVcc (change : ChainChange) (db : Database) : Except Fault Database :=
  (foldSteps handleVccRemoval change.removed db).bind fun db =>
    (foldSteps handleVccAddition change.accepted db).bind fun db =>
      match change.added.getLast? with
      | none => .error .noAdded
      | some last => (daaOf db last).map fun _ => db

/-! ## Senders from the node -/

/-- What is known when the node has named the sender: `snapshot` are the rows before. -/
structure Resolution where
  sender : AddressPayload
  daa : ℕ
  snapshot : Rows

/-- A push for one row, with what most kinds leave out. -/
def Resolution.push (r : Resolution) (kind : PushEventKind)
    (watched receiver : AddressPayload) (txId : TxId) (payload : Option Bytes) (blockTime : ℕ) :
    PushEvent :=
  ⟨kind, watched, r.sender, receiver, none, txId, none, payload.map fromUtf8Lossy, blockTime, r.daa,
    none, none, none⟩

def resolvePayment (r : Resolution) (key : PaymentKeyByReceiver) (rows : Rows) :
    Rows × List PushEvent :=
  let payment := get r.snapshot.txIdToPayment key.txId
  ({ rows with paymentByReceiver := fill rows.paymentByReceiver key (some r.sender) },
    if r.sender ≠ key.receiver then
      [{ r.push .payment key.receiver key.receiver key.txId (payment.map (·.2)) key.blockTime with
        amount := payment.map (·.1) }]
    else [])

/-- The row and the payload of a group message that is not its sender's. -/
def dropGroupMessage (key : GroupMessageKeyByBlindedGroupId) (rows : Rows) : Rows :=
  { rows with
    groupMessageByBlindedGroupId := erase rows.groupMessageByBlindedGroupId key
    txIdToGroupMessage := erase rows.txIdToGroupMessage key.txId }

/-- The checks that a sighting with a known sender makes, on the stored payload. -/
def resolveGroupMessage (r : Resolution) (key : GroupMessageKeyByBlindedGroupId) (rows : Rows) :
    Option (Rows × List PushEvent) :=
  (get r.snapshot.txIdToGroupMessage key.txId).bind fun payload =>
    match parseSealedOperation (ascii "ciph_msg:1:gcomm:" ++ fromUtf8Lossy payload) with
    | some (.groupMessageV1 message) =>
      (decodeFixedHex 32 message.senderPub).map fun senderPubkey =>
        let admitted := admitGroupMessage rows.groupSenderBinding r.sender key.blindedGroupId
          senderPubkey
        let rows := { rows with groupSenderBinding := admitted.2 }
        if admitted.1 then
          ({ rows with
              groupMessageByBlindedGroupId :=
                fill rows.groupMessageByBlindedGroupId key (some r.sender) },
            [{ r.push .groupMessage default default key.txId (some payload) key.blockTime with
              blindedGroupId := some key.blindedGroupId }])
        else (dropGroupMessage key rows, [])
    | _ => some (dropGroupMessage key rows, [])

/-- A row gets its sender, in the partition and by the action of its entry. -/
def resolveEntry (r : Resolution) (entry : InsertionEntry) (rows : Rows) :
    Option (Rows × List PushEvent) :=
  match entry with
  | .handshakeByReceiver key =>
    some ({ rows with handshakeByReceiver := fill rows.handshakeByReceiver key (some r.sender) },
      [r.push .handshake key.receiver key.receiver key.txId
        (get r.snapshot.txIdToHandshake key.txId) key.blockTime])
  | .handshakeBySender key =>
    some ({ rows with
      handshakeBySender := put rows.handshakeBySender { key with sender := r.sender } () }, [])
  | .contextualMessageBySender key =>
    some ({ rows with
        contextualMessageBySender :=
          put rows.contextualMessageBySender { key with sender := r.sender } () },
      [{ r.push .contextual r.sender key.receiver key.txId
          (get r.snapshot.txIdToContextualMessage key.txId) key.blockTime with
        aliasText := some (fromUtf8Lossy (key.aliasBytes.takeWhile (· ≠ 0))) }])
  | .contextualMessageByInbox key =>
    some ({ rows with
        contextualMessageByInbox := fill rows.contextualMessageByInbox key (some r.sender) },
      [{ r.push .contextual r.sender r.sender key.txId
          (get r.snapshot.txIdToContextualMessage key.txId) key.blockTime with
        inboxTag := some key.inboxTag }])
  | .paymentByReceiver key => some (resolvePayment r key rows)
  | .paymentBySender key =>
    some ({ rows with
      paymentBySender := put rows.paymentBySender { key with sender := r.sender } () }, [])
  | .selfStashByOwner key =>
    some ({ rows with
        selfStashByOwner := put rows.selfStashByOwner { key with owner := r.sender } () },
      [{ r.push .selfStash r.sender default key.txId
          (get r.snapshot.txIdToSelfStash key.txId) key.blockTime with
        aliasText := parseSelfStashAlias key.scope }])
  | .groupMessageByBlindedGroupId key => resolveGroupMessage r key rows
  | .groupControlByRecipient key =>
    some ({ rows with
      groupControlByRecipient := fill rows.groupControlByRecipient key (some r.sender) }, [])
  | .groupControlBySender key =>
    some ({ rows with
        groupControlBySender := put rows.groupControlBySender { key with sender := r.sender } () },
      [{ r.push .groupControl r.sender key.recipient key.txId
          (get r.snapshot.txIdToGroupControl key.txId) key.blockTime with
        groupControlRecipient := if key.recipient ≠ default then some key.recipient else none }])

def resolveEntries (r : Resolution) : List InsertionEntry → Rows → Option (Rows × List PushEvent)
  | [], rows => some (rows, [])
  | entry :: entries, rows =>
    (resolveEntry r entry rows).bind fun (rows, pushes) =>
      (resolveEntries r entries rows).map fun (rows, rest) => (rows, pushes ++ rest)

/-- The entries of the record go, and each row that waits gets its sender. -/
def handleSenderAddress (env : Env) (address : ScriptPublicKey) (txId : TxId) (daa : ℕ)
    (db : Database) : Except Fault Database :=
  match AddressPayload.tryFrom env address with
  | none => .error .malformed
  | some sender =>
    (keyByTxId db.acceptance txId).bind fun key =>
      match key with
      | none => .error .missingKey
      | some key =>
        match resolveEntries ⟨sender, daa, db.rows⟩ (entriesOf db.acceptance key) db.rows with
        | none => .error .malformed
        | some (rows, pushes) => .ok { db with
            pendingSenders := erase db.pendingSenders (daa, txId)
            acceptance := updateRecord db.acceptance key fun old => { old with entries := [] }
            rows := rows
            pushes := db.pushes ++ pushes }

/-! ## Events -/

/-- A block, a change of the chain, the sender that the node names for a transaction, or a read of
its acceptance. -/
inductive Event where
  | block (b : RpcBlock)
  | change (c : ChainChange)
  | resolved (address : ScriptPublicKey) (txId : TxId) (daa : ℕ)
  | read (txId : TxId)

def handle (env : Env) : Event → Database → Except Fault Database
  | .block b, db => handleBlock env b db
  | .change c, db => handleVcc c db
  | .resolved address txId daa, db => handleSenderAddress env address txId daa db
  | .read txId, db => (acceptanceByTxId db.acceptance txId).map fun _ => db

/-- The state after the events, unless one of them ended the process. -/
def run (env : Env) (events : List Event) (db : Database) : Except Fault Database :=
  foldSteps (handle env) events db

end KaChatIndexer.ChatBlocks

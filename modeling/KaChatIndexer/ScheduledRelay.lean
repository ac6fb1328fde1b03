import KaChatIndexer.JsonReading
import KaChatIndexer.ScheduledPosts

/-!
# Relaying a scheduled transaction

The web server reads a stored transaction to compute its id, and posts it to the indexer when it
falls due; the indexer reads it again to submit it. The relay's reader is older than the web
server's: it knows no compute budgets and no covenants, and asks for one member more.
-/
namespace KaChatIndexer.ScheduledRelay
open ByteStrings KaText JsonReading

scoped instance neZero_byte : NeZero (2 ^ 8) := ⟨by decide⟩
scoped instance neZero_short : NeZero (2 ^ 16) := ⟨by decide⟩
scoped instance neZero_long : NeZero (2 ^ 64) := ⟨by decide⟩

/-! ## Transactions -/

structure TransactionOutpoint (Hash : Type) where
  transactionId : Hash
  index : Fin (2 ^ 32)
  deriving DecidableEq

/-- What an input may cost to check. -/
inductive InputLimit
  | sigOpCount (n : Fin (2 ^ 8))
  | computeBudget (n : Fin (2 ^ 16))
  deriving DecidableEq

structure TransactionInput (Hash : Type) where
  previousOutpoint : TransactionOutpoint Hash
  signatureScript : Bytes
  sequence : Fin (2 ^ 64)
  limit : InputLimit
  deriving DecidableEq

structure CovenantBinding (Hash : Type) where
  authorizingInput : Fin (2 ^ 16)
  covenantId : Hash
  deriving DecidableEq

structure ScriptPublicKey where
  version : Fin (2 ^ 16)
  script : Bytes
  deriving DecidableEq

structure TransactionOutput (Hash : Type) where
  value : Fin (2 ^ 64)
  scriptPublicKey : ScriptPublicKey
  covenant : Option (CovenantBinding Hash)
  deriving DecidableEq

structure Transaction (Hash Subnetwork : Type) where
  version : Fin (2 ^ 16)
  inputs : List (TransactionInput Hash)
  outputs : List (TransactionOutput Hash)
  lockTime : Fin (2 ^ 64)
  subnetworkId : Subnetwork
  gas : Fin (2 ^ 64)
  payload : Bytes
  deriving DecidableEq

/-- The parsers, the id and the error texts of other crates. -/
structure Consensus (Hash Subnetwork : Type) where
  /-- `Hash::from_str` -/
  hash : Text → Option Hash
  /-- `SubnetworkId::from_str` -/
  subnetworkId : Text → Option Subnetwork
  /-- `Transaction::id` -/
  id : Transaction Hash Subnetwork → Text
  jsonError : Json → Text
  hashError : Text → Text
  subnetworkError : Text → Text
  hexError : Text → Text

/-! ## The web server's reader -/

/-- The transaction of a request, which may hold it in a member of that name. -/
def innerTx (transaction : Json) : Json := (transaction.get "transaction").getD transaction

structure TxOutpointJson where
  transactionId : Text
  index : Fin (2 ^ 32)

def TxOutpointJson.read (j : Json) : Option TxOutpointJson :=
  if j.fits 2 then do
    let transactionId ← j.field ["transactionId"] 0 Json.text
    let index ← j.field ["index"] 1 (Json.uint 32)
    some ⟨transactionId, index⟩
  else none

structure TxInputJson where
  previousOutpoint : TxOutpointJson
  signatureScript : Text
  sequence : Fin (2 ^ 64)
  sigOpCount : Fin (2 ^ 8)
  computeBudget : Fin (2 ^ 16)

def TxInputJson.read (j : Json) : Option TxInputJson :=
  if j.fits 5 then do
    let previousOutpoint ← j.field ["previousOutpoint"] 0 TxOutpointJson.read
    let signatureScript ← j.fieldOr ["signatureScript"] 1 [] Json.text
    let sequence ← j.field ["sequence"] 2 (Json.uint 64)
    let sigOpCount ← j.fieldOr ["sigOpCount"] 3 0 (Json.uint 8)
    let computeBudget ← j.fieldOr ["computeBudget"] 4 0 (Json.uint 16)
    some ⟨previousOutpoint, signatureScript, sequence, sigOpCount, computeBudget⟩
  else none

structure CovenantJson where
  authorizingInput : Fin (2 ^ 16)
  covenantId : Text

def CovenantJson.read (j : Json) : Option CovenantJson :=
  if j.fits 2 then do
    let authorizingInput ← j.field ["authorizingInput"] 0 (Json.uint 16)
    let covenantId ← j.field ["covenantId"] 1 Json.text
    some ⟨authorizingInput, covenantId⟩
  else none

inductive ScriptJson
  | object (version : Fin (2 ^ 16)) (script : Text)
  /-- Two big-endian version bytes, then the script. -/
  | hex (t : Text)

/-- An untagged variant with fields is only read from an object. -/
def ScriptJson.readObject (j : Json) : Option ScriptJson :=
  if j.isObject then do
    let version ← j.field ["version"] 0 (Json.uint 16)
    let script ← j.field ["scriptPublicKey", "script"] 1 Json.text
    some (.object version script)
  else none

def ScriptJson.read (j : Json) : Option ScriptJson :=
  (readObject j).or (j.text.map .hex)

structure TxOutputJson where
  amount : Fin (2 ^ 64)
  scriptPublicKey : ScriptJson
  covenant : Option CovenantJson

def TxOutputJson.read (j : Json) : Option TxOutputJson :=
  if j.fits 3 then do
    let amount ← j.field ["amount", "value"] 0 (Json.uint 64)
    let scriptPublicKey ← j.field ["scriptPublicKey"] 1 ScriptJson.read
    let covenant ← j.fieldOr ["covenant"] 2 none (Json.optional CovenantJson.read)
    some ⟨amount, scriptPublicKey, covenant⟩
  else none

structure TxJson where
  version : Fin (2 ^ 16)
  inputs : List TxInputJson
  outputs : List TxOutputJson
  lockTime : Fin (2 ^ 64)
  subnetworkId : Text
  gas : Fin (2 ^ 64)
  payload : Text

def TxJson.read (j : Json) : Option TxJson :=
  if j.fits 7 then do
    let version ← j.field ["version"] 0 (Json.uint 16)
    let inputs ← j.field ["inputs"] 1 (Json.items TxInputJson.read)
    let outputs ← j.field ["outputs"] 2 (Json.items TxOutputJson.read)
    let lockTime ← j.field ["lockTime"] 3 (Json.uint 64)
    let subnetworkId ← j.field ["subnetworkId"] 4 Json.text
    let gas ← j.fieldOr ["gas"] 5 0 (Json.uint 64)
    let payload ← j.fieldOr ["payload"] 6 [] Json.text
    some ⟨version, inputs, outputs, lockTime, subnetworkId, gas, payload⟩
  else none

/-- `u16::from_be_bytes`. -/
def u16OfBe (hi lo : UInt8) : Fin (2 ^ 16) :=
  ⟨256 * hi.toNat + lo.toNat, by have := hi.toNat_lt; have := lo.toNat_lt; omega⟩

section
variable {Hash Subnetwork : Type} (lib : Consensus Hash Subnetwork)

def transactionInput (version : Fin (2 ^ 16)) (i : TxInputJson) : Option (TransactionInput Hash) := do
  let id ← lib.hash i.previousOutpoint.transactionId
  let script ← hexDecode i.signatureScript
  some ⟨⟨id, i.previousOutpoint.index⟩, script, i.sequence,
    if 1 ≤ version then .computeBudget i.computeBudget else .sigOpCount i.sigOpCount⟩

def scriptPublicKey : ScriptJson → Option ScriptPublicKey
  | .object version script => (hexDecode script).map (ScriptPublicKey.mk version)
  | .hex t =>
    match hexDecode t with
    | some (hi :: lo :: script) => some ⟨u16OfBe hi lo, script⟩
    | _ => none

def covenantBinding : Option CovenantJson → Option (Option (CovenantBinding Hash))
  | some c => (lib.hash c.covenantId).map fun id => some ⟨c.authorizingInput, id⟩
  | none => some none

def transactionOutput (o : TxOutputJson) : Option (TransactionOutput Hash) := do
  let script ← scriptPublicKey o.scriptPublicKey
  let covenant ← covenantBinding lib o.covenant
  some ⟨o.amount, script, covenant⟩

def transactionOfJson (tx : TxJson) : Option (Transaction Hash Subnetwork) := do
  let inputs ← tx.inputs.mapM (transactionInput lib tx.version)
  let outputs ← tx.outputs.mapM (transactionOutput lib)
  let subnetwork ← lib.subnetworkId tx.subnetworkId
  let payload ← hexDecode tx.payload
  some ⟨tx.version, inputs, outputs, tx.lockTime, subnetwork, tx.gas, payload⟩

/-- The transaction that `transaction_id` builds. -/
def scheduledTransaction (transaction : Json) : Option (Transaction Hash Subnetwork) :=
  (TxJson.read (innerTx transaction)).bind (transactionOfJson lib)

def transactionId (transaction : Json) : Option Text :=
  (scheduledTransaction lib transaction).map lib.id

end

/-- What `tick` posts to the relay for a due row. -/
def submitBody (transaction : Json) : Json := .obj [("transaction", innerTx transaction)]

/-! ## The relay's reader -/

abbrev RelayTxOutpointJson := TxOutpointJson

structure RelayTxInputJson where
  previousOutpoint : RelayTxOutpointJson
  signatureScript : Text
  sequence : Fin (2 ^ 64)
  sigOpCount : Fin (2 ^ 8)

def RelayTxInputJson.read (j : Json) : Option RelayTxInputJson :=
  if j.fits 4 then do
    let previousOutpoint ← j.field ["previousOutpoint"] 0 TxOutpointJson.read
    let signatureScript ← j.fieldOr ["signatureScript"] 1 [] Json.text
    let sequence ← j.field ["sequence"] 2 (Json.uint 64)
    let sigOpCount ← j.fieldOr ["sigOpCount"] 3 0 (Json.uint 8)
    some ⟨previousOutpoint, signatureScript, sequence, sigOpCount⟩
  else none

abbrev RelayScriptJson := ScriptJson

structure RelayTxOutputJson where
  amount : Fin (2 ^ 64)
  scriptPublicKey : RelayScriptJson

def RelayTxOutputJson.read (j : Json) : Option RelayTxOutputJson :=
  if j.fits 2 then do
    let amount ← j.field ["amount", "value"] 0 (Json.uint 64)
    let scriptPublicKey ← j.field ["scriptPublicKey"] 1 ScriptJson.read
    some ⟨amount, scriptPublicKey⟩
  else none

structure RelayTxJson where
  version : Fin (2 ^ 16)
  inputs : List RelayTxInputJson
  outputs : List RelayTxOutputJson
  lockTime : Fin (2 ^ 64)
  subnetworkId : Text
  gas : Fin (2 ^ 64)
  payload : Option Text
  mass : Fin (2 ^ 64)

def RelayTxJson.read (j : Json) : Option RelayTxJson :=
  if j.fits 8 then do
    let version ← j.field ["version"] 0 (Json.uint 16)
    let inputs ← j.field ["inputs"] 1 (Json.items RelayTxInputJson.read)
    let outputs ← j.field ["outputs"] 2 (Json.items RelayTxOutputJson.read)
    let lockTime ← j.field ["lockTime"] 3 (Json.uint 64)
    let subnetworkId ← j.field ["subnetworkId"] 4 Json.text
    let gas ← j.fieldOr ["gas"] 5 0 (Json.uint 64)
    let payload ← j.fieldOr ["payload"] 6 none (Json.optional Json.text)
    let mass ← j.fieldOr ["mass"] 7 0 (Json.uint 64)
    some ⟨version, inputs, outputs, lockTime, subnetworkId, gas, payload, mass⟩
  else none

structure RpcTransactionInput (Hash : Type) where
  previousOutpoint : TransactionOutpoint Hash
  signatureScript : Bytes
  sequence : Fin (2 ^ 64)
  sigOpCount : Fin (2 ^ 8)

structure RpcTransactionOutput where
  value : Fin (2 ^ 64)
  scriptPublicKey : ScriptPublicKey

structure RpcTransaction (Hash Subnetwork : Type) where
  version : Fin (2 ^ 16)
  inputs : List (RpcTransactionInput Hash)
  outputs : List RpcTransactionOutput
  lockTime : Fin (2 ^ 64)
  subnetworkId : Subnetwork
  gas : Fin (2 ^ 64)
  payload : Bytes
  mass : Fin (2 ^ 64)

def okOr {α : Type*} (e : Text) : Option α → Except Text α
  | some a => .ok a
  | none => .error e

section
variable {Hash Subnetwork : Type} (lib : Consensus Hash Subnetwork)

def relayHex (field : Text) (hex : Text) : Except Text Bytes :=
  if ScheduledPosts.utf8Length hex % 2 ≠ 0 then .error (field ++ ": odd-length hex".toList)
  else okOr (field ++ ": ".toList ++ lib.hexError hex) (hexDecode hex)

/-- The inputs from the `n`-th on. -/
def relayInputs : ℕ → List RelayTxInputJson → Except Text (List (RpcTransactionInput Hash))
  | _, [] => .ok []
  | n, i :: is => do
      let id ← okOr ("inputs[".toList ++ decimalText n ++
        "].previousOutpoint.transactionId: ".toList ++
          lib.hashError i.previousOutpoint.transactionId) (lib.hash i.previousOutpoint.transactionId)
      let script ← relayHex lib "signatureScript".toList i.signatureScript
      let rest ← relayInputs (n + 1) is
      .ok (⟨⟨id, i.previousOutpoint.index⟩, script, i.sequence, i.sigOpCount⟩ :: rest)

def relayScript : RelayScriptJson → Except Text ScriptPublicKey
  | .object version script => do
      let bytes ← relayHex lib "scriptPublicKey".toList script
      .ok ⟨version, bytes⟩
  | .hex t => do
      match ← relayHex lib "scriptPublicKey".toList t with
      | hi :: lo :: script => .ok ⟨u16OfBe hi lo, script⟩
      | _ => .error "scriptPublicKey: too short".toList

def relayOutputs : List RelayTxOutputJson → Except Text (List RpcTransactionOutput)
  | [] => .ok []
  | o :: os => do
      let script ← relayScript lib o.scriptPublicKey
      let rest ← relayOutputs os
      .ok (⟨o.amount, script⟩ :: rest)

/-- The object that the relay reads. -/
def relayInner (transaction : Json) : Json :=
  match transaction.get "transaction" with
  | some t => if t.isObject then t else transaction
  | none => transaction

def relayOfJson (tx : RelayTxJson) : Except Text (RpcTransaction Hash Subnetwork) := do
  let inputs ← relayInputs lib 0 tx.inputs
  let outputs ← relayOutputs lib tx.outputs
  let subnetwork ← okOr ("subnetworkId: ".toList ++ lib.subnetworkError tx.subnetworkId)
    (lib.subnetworkId tx.subnetworkId)
  let payload ← relayHex lib "payload".toList (tx.payload.getD [])
  .ok ⟨tx.version, inputs, outputs, tx.lockTime, subnetwork, tx.gas, payload, tx.mass⟩

def relayRpcTransaction (transaction : Json) : Except Text (RpcTransaction Hash Subnetwork) := do
  let tx ← okOr (lib.jsonError (relayInner transaction)) (RelayTxJson.read (relayInner transaction))
  relayOfJson lib tx

/-- `internal_submit_tx` up to the node: the body's member, then the transaction in it. -/
def internalSubmitTx (body : Json) : Except Text (RpcTransaction Hash Subnetwork) :=
  (okOr (lib.jsonError body) (body.field ["transaction"] 0 some)).bind fun transaction =>
    (relayRpcTransaction lib transaction).mapError fun e => "bad transaction json: ".toList ++ e

end

/-! ## What the relay submits -/

section
variable {Hash Subnetwork : Type}

def RpcTransactionInput.transaction (i : RpcTransactionInput Hash) : TransactionInput Hash :=
  ⟨i.previousOutpoint, i.signatureScript, i.sequence, .sigOpCount i.sigOpCount⟩

def RpcTransactionOutput.transaction (o : RpcTransactionOutput) : TransactionOutput Hash :=
  ⟨o.value, o.scriptPublicKey, none⟩

/-- The consensus transaction that a node reads from it. -/
def RpcTransaction.transaction (tx : RpcTransaction Hash Subnetwork) : Transaction Hash Subnetwork :=
  ⟨tx.version, tx.inputs.map RpcTransactionInput.transaction,
    tx.outputs.map RpcTransactionOutput.transaction, tx.lockTime, tx.subnetworkId, tx.gas, tx.payload⟩

end

end KaChatIndexer.ScheduledRelay

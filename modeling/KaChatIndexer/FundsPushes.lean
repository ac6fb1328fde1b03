import KaChatIndexer.ChatReads
import KaChatIndexer.PushRegistry

/-!
# Received-KAS pushes

The block processor keeps which watched address each output paid and tells of every transaction that
pays one, with the watched addresses it spends from. The dispatcher takes these events one by one and
decides for each address which devices are sent a push. Pushes are on.
-/
namespace KaChatIndexer.FundsPushes
open ByteStrings KaText PushFields PushAuth PushRegistry ChatRows ChatBlocks

def watchedSpendRetentionMs : ℕ := 24 * 60 * 60 * 1000

def watchedPruneIntervalMs : ℕ := 10 * 60 * 1000

def watchedPruneBatch : ℕ := 10000

def maxPushFanout : ℕ := 512

def watchOnlyRateMax : ℕ := 30

def watchOnlyRateWindowMs : ℕ := 3600 * 1000

def sentTtlMs : ℕ := 3600 * 1000

/-! ## Watched outpoints -/

structure WatchedOutpointSpendKey where
  spentAtMs : ℕ
  outpoint : Outpoint
  deriving DecidableEq

/-- The partitions that these pushes use. -/
structure WatchedDb where
  headers : Partition Hash (ℕ × ℕ)
  watchedOutpoints : Partition Outpoint AddressPayload
  spends : List WatchedOutpointSpendKey

/-- Up to `limit` spends before the time, in the order of their keys. -/
def spentBefore (spends : List WatchedOutpointSpendKey) (cutoffMs limit : ℕ) :
    List WatchedOutpointSpendKey :=
  ((spends.filter fun k => k.spentAtMs < cutoffMs).insertionSort fun a b =>
    ChatReads.keyOrder a.spentAtMs [ChatReads.ordinals a.outpoint.txId, [a.outpoint.index]] ≤
      ChatReads.keyOrder b.spentAtMs [ChatReads.ordinals b.outpoint.txId, [b.outpoint.index]]).take limit

structure BlockProcessor where
  db : WatchedDb
  lastWatchedPrune : Option ℕ

/-- `instantMs` is read of the clock that only runs forward, `unixMs` of the other. -/
def pruneWatchedSpends (p : BlockProcessor) (instantMs unixMs : ℕ) : BlockProcessor :=
  if p.lastWatchedPrune.any fun pruned => instantMs - pruned < watchedPruneIntervalMs then p
  else
    let expired := spentBefore p.db.spends (unixMs - watchedSpendRetentionMs) watchedPruneBatch
    { db := { p.db with
        watchedOutpoints := expired.foldl (fun rows k => erase rows k.outpoint) p.db.watchedOutpoints
        spends := removeRows p.db.spends expired }
      lastWatchedPrune := some instantMs }

structure FundsPushEvent where
  credited : List (AddressPayload × ℕ)
  senders : List AddressPayload
  txId : TxId
  timestamp : ℕ
  daaScore : ℕ

/-- The addresses that the inputs spend from, each once. -/
def sendersOf (rows : Partition Outpoint AddressPayload) (inputs : List Outpoint) :
    List AddressPayload :=
  (inputs.filterMap (get rows)).foldl (fun senders a => if a ∈ senders then senders else senders ++ [a]) []

/-- The outputs that pay a watched address, with their places. -/
def creditsOf (env : Env) (watchOnly : List AddressPayload) (outputs : List RpcTransactionOutput) :
    List (ℕ × AddressPayload × ℕ) :=
  outputs.zipIdx.filterMap fun entry =>
    ((AddressPayload.tryFrom env entry.1.scriptPublicKey).filter (· ∈ watchOnly)).map fun a =>
      (entry.2, a, entry.1.value)

def emitFundsReceived (env : Env) (watchOnly : List AddressPayload) (header : RpcHeader)
    (tx : RpcTransaction) (unixMs : ℕ) (db : WatchedDb) : WatchedDb × Option FundsPushEvent :=
  if watchOnly = [] then (db, none)
  else
    let spent := tx.inputs.filter fun o => (get db.watchedOutpoints o).isSome
    let credits := creditsOf env watchOnly tx.outputs
    ({ db with
        watchedOutpoints :=
          credits.foldl (fun rows c => put rows ⟨tx.txId, c.1⟩ c.2.1) db.watchedOutpoints
        spends := insertRows db.spends (spent.map fun o => ⟨unixMs, o⟩) },
      if credits = [] then none
      else some ⟨credits.map (·.2), sendersOf db.watchedOutpoints tx.inputs, tx.txId, header.timestamp,
        header.daaScore⟩)

/-- A transaction of a block, the time at which it is handled, and whether the queue has room. -/
structure FundsSighting where
  tx : RpcTransaction
  unixMs : ℕ
  hasRoom : Bool

/-- A block that is handled, the times at which that begins, and whether the write is committed. -/
structure BlockRun where
  header : RpcHeader
  sightings : List FundsSighting
  instantMs : ℕ
  unixMs : ℕ
  committed : Bool

def handleTransaction (env : Env) (watchOnly : List AddressPayload) (header : RpcHeader)
    (state : WatchedDb × List FundsPushEvent) (s : FundsSighting) : WatchedDb × List FundsPushEvent :=
  let emitted := emitFundsReceived env watchOnly header s.tx s.unixMs state.1
  (emitted.1, if s.hasRoom then state.2 ++ emitted.2.toList else state.2)

/-- The events of a block are sent before its write is committed. -/
def handleBlock (env : Env) (watchOnly : List AddressPayload) (p : BlockProcessor) (b : BlockRun) :
    BlockProcessor × List FundsPushEvent :=
  let db := { p.db with
    headers := put p.db.headers b.header.hash (b.header.blueWork, b.header.daaScore) }
  if (get p.db.headers b.header.hash).isSome then
    (if b.committed then { p with db := db } else p, [])
  else
    let pruned := pruneWatchedSpends { p with db := db } b.instantMs b.unixMs
    let handled := b.sightings.foldl (handleTransaction env watchOnly b.header) (pruned.db, [])
    ({ pruned with db := if b.committed then handled.1 else p.db }, handled.2)

/-! ## The dispatcher -/

/-- The keys of other pushes, which the cache holds too, start with the hex of a transaction. -/
structure SentTxCache where
  seen : Partition Text ℕ
  order : List (ℕ × Text)

namespace SentTxCache

def pruneFrom (nowMs : ℕ) (seen : Partition Text ℕ) : List (ℕ × Text) → SentTxCache
  | [] => ⟨seen, []⟩
  | entry :: order =>
    if nowMs - entry.1 ≤ sentTtlMs then ⟨seen, entry :: order⟩
    else pruneFrom nowMs (erase seen entry.2) order

def markSeen (c : SentTxCache) (key : Text) (nowMs : ℕ) : SentTxCache × Bool :=
  let c := pruneFrom nowMs c.seen c.order
  if (get c.seen key).isSome then (c, false)
  else (⟨put c.seen key nowMs, c.order ++ [(nowMs, key)]⟩, true)

end SentTxCache

/-- A device's last sends, the oldest first. -/
def allowWatchOnlyPush (rate : Partition Text (List ℕ)) (token : Text) (nowMs : ℕ) :
    Partition Text (List ℕ) × Bool :=
  let window := ((get rate token).getD []).dropWhile fun front => watchOnlyRateWindowMs < nowMs - front
  if watchOnlyRateMax ≤ window.length then (put rate token window, false)
  else (put rate token (window ++ [nowMs]), true)

def retainAllowed (rate : Partition Text (List ℕ)) (nowMs : ℕ) :
    List Text → Partition Text (List ℕ) × List Text
  | [] => (rate, [])
  | token :: tokens =>
    let allowed := allowWatchOnlyPush rate token nowMs
    let rest := retainAllowed allowed.1 nowMs tokens
    (rest.1, if allowed.2 then token :: rest.2 else rest.2)

/-- `to_rpc_address`; `encode` writes an address of the server's network. -/
def toRpcAddress (encode : ℕ → Bytes → Text) (a : AddressPayload) : Option Text :=
  let version := 255 - a.inverseVersion.toNat
  if a.inverseVersion = 0 then none
  else if version = 0 ∨ version = 8 then some (encode version (a.payload.toList.take 32))
  else if version = 1 then some (encode version a.payload.toList)
  else none

def dedupKey (txId : TxId) (address : Text) : Text :=
  "funds:".toList ++ (hexEncode txId ++ ':' :: address)

def walletApnsTopics : List Text := ["com.kachat.wallet".toList, "kapay.kachat.app".toList]

def kapostsApnsTopics : List Text := ["com.kachat.kaposts".toList, "kapost.kachat.app".toList]

def kachatApnsTopic : Text := "com.kachat.app".toList

def kachatPushTypes : List Text :=
  ["contextual".toList, "handshake".toList, "payment".toList, "group_message".toList,
    "group_control".toList]

def walletPushTypes : List Text := ["address_activity".toList, "name_event".toList]

def kapostsPushTypes : List Text := ["kaposts".toList, "broadcast".toList]

def topicTakesPush (topic : Option Text) (eventType : Text) : Bool :=
  match topic with
  | none => eventType ∈ kachatPushTypes
  | some t =>
    if t = kachatApnsTopic then eventType ∈ kachatPushTypes
    else if t ∈ walletApnsTopics then eventType ∈ walletPushTypes
    else if t ∈ kapostsApnsTopics then eventType ∈ kapostsPushTypes
    else true

variable {Address Ext : Type}

/-- The devices whose app takes the push. -/
def deliver (r : Registry AddressPayload Ext) (tokens : List Text) (eventType : Text) : List Text :=
  tokens.filter fun token =>
    topicTakesPush ((r.devices.lookup token).bind (·.apnsTopic)) eventType

/-- What is decided of an address that a transaction pays: whom the rate limit lets through and whom
the push is sent to. -/
structure FundsPush where
  txId : TxId
  address : AddressPayload
  amount : ℕ
  timestamp : ℕ
  markedMs : ℕ
  decidedMs : ℕ
  allowed : List Text
  sent : List Text

/-- `remaining` are the credits of the event that is being handled. -/
structure PushDispatcher where
  sentCache : SentTxCache
  watchOnlyRate : Partition Text (List ℕ)
  remaining : List (FundsPushEvent × AddressPayload × ℕ)
  pushes : List FundsPush

section
variable [DecidableEq Ext] (env : RegistryEnv Address AddressPayload) (encode : ℕ → Bytes → Text)
  (r : Registry AddressPayload Ext)

/-- One round of `handle_funds_event`. -/
def handleCredit (d : PushDispatcher) (event : FundsPushEvent) (credit : AddressPayload × ℕ)
    (markMs nowMs : ℕ) : PushDispatcher :=
  match toRpcAddress encode credit.1 with
  | none => d
  | some address =>
    let marked := d.sentCache.markSeen (dedupKey event.txId address) markMs
    if marked.2 then
      let tokens := sortedSet (watchOnlyTokens env r credit.1 event.senders)
      let retained := retainAllowed d.watchOnlyRate nowMs tokens
      let sent := deliver r (retained.2.take maxPushFanout) "address_activity".toList
      { d with
        sentCache := marked.1
        watchOnlyRate := retained.1
        pushes := d.pushes ++
          [⟨event.txId, credit.1, credit.2, event.timestamp, markMs, nowMs, retained.2, sent⟩] }
    else { d with sentCache := marked.1 }

/-! ## The two actors -/

structure FundsService where
  processor : BlockProcessor
  queue : List FundsPushEvent
  dispatcher : PushDispatcher

def FundsService.new : FundsService := ⟨⟨⟨[], [], []⟩, none⟩, [], ⟨⟨[], []⟩, [], [], []⟩⟩

/-- `take` is the dispatcher's next event, `credit` its next round. -/
inductive FundsEvent
  | block (b : BlockRun)
  | take
  | credit (markMs nowMs : ℕ)

variable (chat : Env)

/-- The union that the registry hands to the block processor at the start. -/
def watchOnlySet : List AddressPayload := (rebuildWatchOnlyGlobal env r).watchOnlyGlobal

def step (s : FundsService) : FundsEvent → FundsService
  | .block b =>
      let handled := handleBlock chat (watchOnlySet env r) s.processor b
      { s with processor := handled.1, queue := s.queue ++ handled.2 }
  | .take =>
      match s.dispatcher.remaining, s.queue with
      | [], event :: queue =>
        { s with
          queue := queue
          dispatcher := { s.dispatcher with remaining := event.credited.map fun c => (event, c) } }
      | _, _ => s
  | .credit markMs nowMs =>
      match s.dispatcher.remaining with
      | [] => s
      | (event, credit) :: remaining =>
        { s with
          dispatcher :=
            handleCredit env encode r { s.dispatcher with remaining := remaining } event credit markMs
              nowMs }

def run (events : List FundsEvent) : FundsService := events.foldl (step env encode r chat) .new

end

end KaChatIndexer.FundsPushes

import KaChatIndexer.ChatBlocks

/-!
# Following the selected chain

The processor of the selected chain, the syncers that it spawns, and what they send each other: a
syncer asks the node for what follows a block, hands the answer over and waits for a word before it
asks again. Blocks and changes of the moment come to the processor by two more channels.
-/
namespace KaChatIndexer.ChainSync
open ByteStrings ChatRows
open ChatBlocks (ChainChange)

inductive Fault
  /-- `unreachable!` -/
  | unreachable
  /-- `assert_eq!(notification_syncer_id, *syncer_id)` -/
  | otherSyncer
  /-- `assert!(sync_queue.is_none())` -/
  | queueTaken
  /-- the last added block of a change that adds none -/
  | noAdded
  /-- a block that is not among the processed ones -/
  | unprocessed
  /-- a word to a syncer that has ended -/
  | channelClosed
  /-- `Syncer {} stopped but we are still syncing` -/
  | stillSyncing
  deriving DecidableEq

structure CompactHeader where
  blockHash : Hash
  blueWork : ℕ
  daaScore : ℕ
  deriving DecidableEq

structure Cursor where
  blueWork : ℕ
  blockHash : Hash
  daaScore : ℕ
  deriving DecidableEq

/-! ## State -/

inductive SyncState
  | initial
  | synced (lastSyncerId : ℕ) (lastAcceptingBlock : Hash × ℕ)
  | syncing (lastAcceptingBlock : Hash × ℕ) (syncerId : ℕ) (targetBlock : Hash × ℕ)
      (syncQueue : Option ChainChange)

inductive Source
  | syncer
  | realtime
  deriving DecidableEq

/-- A change that is written, and the last accepting block before it. -/
structure WrittenChange where
  source : Source
  base : Hash
  change : ChainChange

/-- What the processor holds in memory, the cursor that it stores and what it has written. -/
structure VirtualProcessor where
  syncState : SyncState
  shuttingDown : Bool
  finished : Bool
  processedBlocks : Partition Hash (ℕ × ℕ)
  realtimeQueueVcc : List ChainChange
  latestAcceptingBlockCursor : Option Cursor
  written : List WrittenChange

inductive NotificationAck
  | proceed
  | stop
  deriving DecidableEq

inductive SyncerPhase
  | asking
  | waiting
  | stopped
  deriving DecidableEq

/-- `ack` is the one place of the channel to it. -/
structure VirtualChainSyncer where
  vcFrom : Hash
  phase : SyncerPhase
  ack : Option NotificationAck
  deriving DecidableEq

inductive SyncVccNotification
  | virtualChain (syncerId : ℕ) (virtualChain : ChainChange)
  | stopped (syncerId : ℕ)

inductive RealTimeVccNotification
  | connected (sink : Hash) (sinkBlueWork : ℕ) (pp : Hash)
  | disconnected
  | shutdown
  | notification (vcc : ChainChange)

structure System where
  processor : VirtualProcessor
  syncers : Partition ℕ VirtualChainSyncer
  syncerQueue : List SyncVccNotification

/-! ## Syncers -/

/-- The syncer takes the word that waits for it. -/
def takeAck (id : ℕ) (s : System) : Except Fault System :=
  match get s.syncers id with
  | none => .ok s
  | some y =>
    match y.phase, y.ack with
    | .asking, some .proceed => .error .unreachable
    | .waiting, some .proceed =>
      .ok { s with syncers := put s.syncers id { y with phase := .asking, ack := none } }
    | .asking, some .stop | .waiting, some .stop =>
      .ok { s with
        syncers := put s.syncers id { y with phase := .stopped, ack := none }
        syncerQueue := s.syncerQueue ++ [.stopped id] }
    | _, _ => .ok s

/-- A word to a syncer; where one is still there, the syncer takes that first. -/
def sendAck (id : ℕ) (ack : NotificationAck) (s : System) : Except Fault System :=
  (if ((get s.syncers id).bind (·.ack)).isSome then takeAck id s else .ok s).bind fun s =>
    match get s.syncers id with
    | none => .error .channelClosed
    | some y =>
      if y.phase = .stopped then .error .channelClosed
      else .ok { s with syncers := put s.syncers id { y with ack := some ack } }

/-- The node answers. -/
def answer (id : ℕ) (vc : ChainChange) (s : System) : System :=
  match get s.syncers id with
  | none => s
  | some y =>
    if y.phase = .asking then
      { s with
        syncers := put s.syncers id
          { y with vcFrom := vc.added.getLast?.getD y.vcFrom, phase := .waiting }
        syncerQueue := s.syncerQueue ++ [.virtualChain id vc] }
    else s

/-- The node answers with an error, and the cursor is cleared where the block is pruned. -/
def refuse (id : ℕ) (pruned : Bool) (s : System) : System :=
  match get s.syncers id with
  | none => s
  | some y =>
    if y.phase = .asking then
      { processor :=
          if pruned then { s.processor with latestAcceptingBlockCursor := none } else s.processor
        syncers := put s.syncers id { y with phase := .stopped, ack := none }
        syncerQueue := s.syncerQueue ++ [.stopped id] }
    else s

def spawnSyncer (id : ℕ) (vcFrom : Hash) (s : System) : System :=
  { s with syncers := put s.syncers id ⟨vcFrom, .asking, none⟩ }

/-! ## Writes -/

/-- An added block that is not processed yet. -/
def unprocessed (p : VirtualProcessor) (c : ChainChange) : Bool :=
  c.added.any fun hash => (get p.processedBlocks hash).isNone

/-- `handle_vcc` and `handle_vc_resp`, with the last block of the change. -/
def handleVcc (source : Source) (base : Hash) (c : ChainChange) (p : VirtualProcessor) :
    Except Fault (VirtualProcessor × (Hash × ℕ)) :=
  if c.accepted.any fun block => (get p.processedBlocks block.1).isNone then .error .unprocessed
  else
    match c.added.getLast? with
    | none => .error .noAdded
    | some last =>
      match get p.processedBlocks last with
      | none => .error .unprocessed
      | some (daaScore, blueWork) =>
        .ok ({ p with
          latestAcceptingBlockCursor := some ⟨blueWork, last, daaScore⟩
          written := p.written ++ [⟨source, base, c⟩] }, (last, blueWork))

/-- The last block is the target or has more work. -/
def reaches (p : VirtualProcessor) (target : Hash × ℕ) (c : ChainChange) : Except Fault Bool :=
  match c.added.getLast? with
  | none => .error .noAdded
  | some last =>
    if last = target.1 then .ok true
    else
      match get p.processedBlocks last with
      | none => .error .unprocessed
      | some (_, blueWork) => .ok (target.2 < blueWork)

/-- An answer whose blocks are all processed. -/
def handleAnswer (last : Hash × ℕ) (id : ℕ) (target : Hash × ℕ) (queue : Option ChainChange)
    (c : ChainChange) (s : System) : Except Fault System :=
  (reaches s.processor target c).bind fun reached =>
    if reached then
      (sendAck id .stop s).bind fun s =>
        (handleVcc .syncer last.1 c s.processor).map fun written =>
          { s with processor := { written.1 with syncState := .synced id written.2 } }
    else
      (handleVcc .syncer last.1 c s.processor).bind fun written =>
        sendAck id .proceed
          { s with processor := { written.1 with syncState := .syncing written.2 id target queue } }

/-! ## The processor -/

def handleConnect (sink : Hash) (sinkBlueWork : ℕ) (pp : Hash) (s : System) : System :=
  match s.processor.syncState with
  | .initial =>
    let last : Hash × ℕ :=
      match s.processor.latestAcceptingBlockCursor with
      | none => (pp, 0)
      | some cursor => (cursor.blockHash, cursor.blueWork)
    spawnSyncer 0 last.1
      { s with processor :=
          { s.processor with syncState := .syncing last 0 (sink, sinkBlueWork) none } }
  | .syncing last id _ queue =>
    { s with processor :=
        { s.processor with syncState := .syncing last id (sink, sinkBlueWork) queue } }
  | .synced id last =>
    if last.1 = sink ∨ sinkBlueWork < last.2 then s
    else
      spawnSyncer (id + 1) last.1
        { s with processor :=
            { s.processor with syncState := .syncing last (id + 1) (sink, sinkBlueWork) none } }

def handleShutdown (s : System) : Except Fault System :=
  let s : System := { s with processor := { s.processor with shuttingDown := true } }
  match s.processor.syncState with
  | .initial | .synced _ _ => .ok { s with processor := { s.processor with finished := true } }
  | .syncing _ id _ _ => sendAck id .stop s

def handleSyncerVc (syncerId : ℕ) (c : ChainChange) (s : System) : Except Fault System :=
  match s.processor.syncState with
  | .initial | .synced _ _ => .error .unreachable
  | .syncing last id target queue =>
    if syncerId ≠ id then .error .otherSyncer
    else if c.removed = [] ∧ c.added = [] then sendAck id .proceed s
    else if unprocessed s.processor c then
      if queue.isSome then .error .queueTaken
      else
        .ok { s with processor := { s.processor with syncState := .syncing last id target (some c) } }
    else handleAnswer last id target queue c s

def handleSyncerStopped (syncerId : ℕ) (s : System) : Except Fault System :=
  match s.processor.syncState with
  | .initial => .error .unreachable
  | .synced id _ =>
    if syncerId = id ∧ s.processor.shuttingDown then
      .ok { s with processor := { s.processor with finished := true } }
    else .ok s
  | .syncing _ id _ _ =>
    if syncerId = id then
      if s.processor.shuttingDown then
        .ok { s with processor := { s.processor with finished := true } }
      else .error .stillSyncing
    else .ok s

def handleRealtimeVcc (c : ChainChange) (s : System) : Except Fault System :=
  match s.processor.syncState with
  | .initial => .error .unreachable
  | .synced id last =>
    if c.removed = [] ∧ c.added = [] then .ok s
    else if s.processor.realtimeQueueVcc ≠ [] ∨ unprocessed s.processor c then
      .ok { s with processor :=
        { s.processor with realtimeQueueVcc := s.processor.realtimeQueueVcc ++ [c] } }
    else
      (handleVcc .realtime last.1 c s.processor).map fun written =>
        { s with processor := { written.1 with syncState := .synced id written.2 } }
  | .syncing _ _ _ _ =>
    .ok { s with processor :=
      { s.processor with realtimeQueueVcc := s.processor.realtimeQueueVcc ++ [c] } }

/-- A known block keeps its place. -/
def insertBlock (blocks : Partition Hash (ℕ × ℕ)) (h : CompactHeader) : Partition Hash (ℕ × ℕ) :=
  if (get blocks h.blockHash).isSome then
    blocks.map fun row => if row.1 = h.blockHash then (row.1, h.daaScore, h.blueWork) else row
  else blocks ++ [(h.blockHash, h.daaScore, h.blueWork)]

/-- The changes that wait, up to the first with a block that is not processed. -/
def drain (id : ℕ) (last : Hash × ℕ) (p : VirtualProcessor) :
    List ChainChange → Except Fault VirtualProcessor
  | [] => .ok { p with realtimeQueueVcc := [], syncState := .synced id last }
  | c :: queue =>
    if c.removed = [] ∧ c.added = [] then drain id last p queue
    else if unprocessed p c then
      .ok { p with realtimeQueueVcc := c :: queue, syncState := .synced id last }
    else (handleVcc .realtime last.1 c p).bind fun written => drain id written.2 written.1 queue

def handleProcessedBlock (syncedCapacity : ℕ) (h : CompactHeader) (s : System) :
    Except Fault System :=
  let kept := s.processor.processedBlocks.drop
    (s.processor.processedBlocks.length + 1 - syncedCapacity)
  match s.processor.syncState with
  | .initial =>
    .ok { s with processor :=
      { s.processor with processedBlocks := insertBlock s.processor.processedBlocks h } }
  | .synced id last =>
    let p := { s.processor with processedBlocks := insertBlock kept h }
    (drain id last p p.realtimeQueueVcc).map fun p => { s with processor := p }
  | .syncing last id target queue =>
    let p := { s.processor with processedBlocks := insertBlock kept h }
    match queue with
    | none => .ok { s with processor := p }
    | some c =>
      if unprocessed p c then .ok { s with processor := p }
      else handleAnswer last id target none c { s with processor := p }

/-! ## Runs -/

inductive Event
  | vcc (notification : RealTimeVccNotification)
  | block (h : CompactHeader)
  /-- the processor takes the next message of the syncers -/
  | syncer
  | answer (id : ℕ) (virtualChain : ChainChange)
  | refuse (id : ℕ) (pruned : Bool)
  | ack (id : ℕ)

def handleVccNotification (s : System) : RealTimeVccNotification → Except Fault System
  | .connected sink sinkBlueWork pp => .ok (handleConnect sink sinkBlueWork pp s)
  | .disconnected => .ok { s with processor := { s.processor with realtimeQueueVcc := [] } }
  | .shutdown => handleShutdown s
  | .notification c => handleRealtimeVcc c s

def handleSyncer (s : System) : Except Fault System :=
  match s.syncerQueue with
  | [] => .ok s
  | .virtualChain id c :: queue => handleSyncerVc id c { s with syncerQueue := queue }
  | .stopped id :: queue => handleSyncerStopped id { s with syncerQueue := queue }

def step (syncedCapacity : ℕ) (e : Event) (s : System) : Except Fault System :=
  match e with
  | .vcc n => if s.processor.finished then .ok s else handleVccNotification s n
  | .block h => if s.processor.finished then .ok s else handleProcessedBlock syncedCapacity h s
  | .syncer => if s.processor.finished then .ok s else handleSyncer s
  | .answer id vc => .ok (answer id vc s)
  | .refuse id pruned => .ok (refuse id pruned s)
  | .ack id => takeAck id s

/-- The processor as it starts. -/
def start (processedBlocks : Partition Hash (ℕ × ℕ)) (cursor : Option Cursor) : System where
  processor := ⟨.initial, false, false, processedBlocks, [], cursor, []⟩
  syncers := []
  syncerQueue := []

def run (syncedCapacity : ℕ) (events : List Event) (s : System) : Except Fault System :=
  Fallible.foldSteps (step syncedCapacity) events s

end KaChatIndexer.ChainSync

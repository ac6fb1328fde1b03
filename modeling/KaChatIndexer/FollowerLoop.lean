import KaChatIndexer.NamesApply

/-!
# The follower's main loop

`Follower::step` undoes the removed blocks, applies the accepted transactions and prunes the undo
journal. Around it the main loop checks that a reorg can be undone, leaves out what the bootstrap
walk applied, and keeps the history rows.
-/
namespace KaChatIndexer.FollowerLoop
open ByteStrings NamesState NamesEnv NamesTemplates NamesRegistry NamesApply

/-- One virtual-chain batch: blocks removed by a reorg, the transactions newly accepted, and the new
tip. -/
structure VccBatch where
  removedBlocks : List Bytes32
  accepted : List Tx
  tip : Option Bytes32

/-- The tracked registry, the last processed chain block, and how many undo entries to keep. -/
structure Follower where
  registry : Registry
  checkpoint : Option Bytes32
  finalityKeep : ℕ

def Follower.new (finalityKeep : ℕ) : Follower := ⟨Registry.new, none, finalityKeep⟩

def Follower.seed (f : Follower) (scanFrom : Bytes32) (op : Outpoint) (gap : GapState) : Follower :=
  { f with registry := f.registry.seedGenesis op gap, checkpoint := some scanFrom }

def Follower.seedShards (f : Follower) (shards : List (Outpoint × PriceState)) : Follower :=
  { f with registry := shards.foldl (fun r s => r.seedShard s.1 s.2) f.registry }

/-- What the manifest says a registry starts from. -/
structure Manifest where
  scanFrom : Bytes32
  genesisOutpoint : Outpoint
  genesisGap : GapState
  priceShards : List (Outpoint × PriceState)

/-- The follower at the start block of the manifest. -/
def Manifest.start (m : Manifest) (journalKeep : ℕ) : Follower :=
  ((Follower.new journalKeep).seed m.scanFrom m.genesisOutpoint m.genesisGap).seedShards m.priceShards

section
variable (env : Env) (t : Templates)

/-- Undo the removed blocks, apply the accepted transactions, advance the checkpoint and prune. -/
def Follower.step (f : Follower) (batch : VccBatch) : Follower × List Event :=
  let registry := batch.removedBlocks.foldl undoBlock f.registry
  let events := runEvents env t registry batch.accepted
  let registry := applyAll env t registry batch.accepted
  ({ f with
      registry := pruneJournal registry f.finalityKeep
      checkpoint := batch.tip.or f.checkpoint }, events)

/-- The main loop: the follower, the rows of `names_history`, and the ids of the transactions that
the bootstrap walk applied. -/
structure MainLoop where
  follower : Follower
  history : List Event
  bootstrappedTxids : List Bytes32

def historyHasBlock (history : List Event) (block : Bytes32) : Bool :=
  history.any fun e => e.block = block

/-- A removed block has history rows, and nothing in the undo journal. -/
def unrevertable (l : MainLoop) (removedBlocks : List Bytes32) : Option Bytes32 :=
  removedBlocks.find? fun b =>
    !journalHasBlock l.follower.registry b && historyHasBlock l.history b

/-- Start over from the manifest. -/
def rewind (m : Manifest) (l : MainLoop) : MainLoop :=
  ⟨m.start l.follower.finalityKeep, [], []⟩

/-- Rows of removed blocks go, those of the batch's events come. -/
def persistHistory (history : List Event) (removedBlocks : List Bytes32) (events : List Event) :
    List Event :=
  (history.filter fun e => e.block ∉ removedBlocks) ++ events

/-- One batch of the main loop. -/
def MainLoop.onBatch (m : Manifest) (l : MainLoop) (batch : VccBatch) : MainLoop :=
  match unrevertable l batch.removedBlocks with
  | some _ => rewind m l
  | none =>
    let accepted := batch.accepted.filter fun tx => tx.id ∉ l.bootstrappedTxids
    let (follower, events) := l.follower.step env t { batch with accepted }
    { l with follower, history := persistHistory l.history batch.removedBlocks events }

end

end KaChatIndexer.FollowerLoop

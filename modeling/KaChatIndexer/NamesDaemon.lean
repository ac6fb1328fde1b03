import KaChatIndexer.FollowerBootstrap
import KaChatIndexer.FollowerLoop
import KaChatIndexer.NamesStore

/-!
# The names follower with its tables

Around the main loop: what is written to the tables after each batch and after a complete bootstrap
walk, and what a new process starts from.
-/
namespace KaChatIndexer.NamesDaemon
open ByteStrings NamesState NamesEnv NamesTemplates NamesRegistry NamesApply NamesStore
open FollowerBootstrap FollowerLoop

/-- The process and its tables: the main loop with the rows of `names_history`, whether the live set
has never been written, and what an incomplete bootstrap walk has applied so far. -/
structure Daemon where
  loop : MainLoop
  dirty : Bool
  boot : Report
  tables : Tables

def Daemon.registry (s : Daemon) : Registry := s.loop.follower.registry

/-- What happens to the process: a batch of the node, an attempt to rebuild from the REST API with
the candidates of each round (`sink` when no spend is left unresolved), or a restart. -/
inductive Tick
  | batch (batch : VccBatch)
  | walk (rounds : List (List RestTx)) (sink : Option Bytes32)
  | restart

section
variable (env : Env) (x : TextEnv) (t : Templates) (m : Manifest)

/-- The process before its first iteration: the registry of the tables, seeded from the manifest
where they hold no checkpoint. -/
def Daemon.load (journalKeep : ℕ) (history : List Event) (tables : Tables) : Daemon :=
  let follower := { Follower.new journalKeep with registry := NamesStore.load env x tables }
  match tables.checkpoint with
  | some checkpoint =>
    ⟨⟨{ follower with checkpoint := some checkpoint }, history, []⟩, false, ⟨[], []⟩, tables⟩
  | none =>
    let follower := (follower.seed m.scanFrom m.genesisOutpoint m.genesisGap).seedShards m.priceShards
    ⟨⟨follower, history, []⟩, true, ⟨[], []⟩, tables⟩

def Daemon.restart (s : Daemon) : Daemon :=
  Daemon.load env x m s.loop.follower.finalityKeep s.loop.history s.tables

/-- Transactions the REST bootstrap already applied are not applied again. -/
def notBootstrapped (l : MainLoop) (batch : VccBatch) : VccBatch :=
  { batch with accepted := batch.accepted.filter fun tx => tx.id ∉ l.bootstrappedTxids }

/-- Whether the live set is to be written: never written before, blocks removed, something
happened, or another set of outpoints than before. -/
def Daemon.changed (s : Daemon) (batch : VccBatch) : Bool :=
  let (follower, events) := s.loop.follower.step env t (notBootstrapped s.loop batch)
  let before := (env.iter s.registry.utxos).1
  let after := (env.iter follower.registry.utxos).1
  s.dirty || !batch.removedBlocks.isEmpty || !events.isEmpty || after.length != before.length ||
    after.any fun op => op ∉ before

/-- One batch of the main loop, with what it writes. -/
def Daemon.onBatch (s : Daemon) (batch : VccBatch) : Daemon :=
  let loop := s.loop.onBatch env t m batch
  match unrevertable s.loop batch.removedBlocks with
  | some _ => ⟨loop, true, ⟨[], []⟩, Tables.empty⟩
  | none =>
    let checkpoint := loop.follower.checkpoint
    if s.changed env t batch then
      { s with loop, dirty := false, tables := persist env x loop.follower.registry checkpoint }
    else { s with loop, tables := { s.tables with checkpoint } }

/-- A bootstrap walk. Only a complete one is written; until then its progress accumulates. -/
def Daemon.onWalk (s : Daemon) (rounds : List (List RestTx)) (sink : Option Bytes32) : Daemon :=
  let w := rounds.foldl (fun w candidates => (applyCandidates env t w candidates).1)
    ⟨s.registry, s.boot⟩
  match sink with
  | none =>
    { s with loop := { s.loop with follower := { s.loop.follower with registry := w.registry } },
             boot := w.report }
  | some sink =>
    let follower := { s.loop.follower with registry := w.registry, checkpoint := some sink }
    ⟨⟨follower, persistHistory s.loop.history [] w.report.events, w.report.applied.map Tx.id⟩,
      false, ⟨[], []⟩, persist env x w.registry (some sink)⟩

def Daemon.next (s : Daemon) : Tick → Daemon
  | .batch batch => s.onBatch env x t m batch
  | .walk rounds sink => s.onWalk env x t rounds sink
  | .restart => s.restart env x m

/-- The first start, on empty tables. -/
def Daemon.start (journalKeep : ℕ) : Daemon := Daemon.load env x m journalKeep [] Tables.empty

/-- Every state of a run, the first one included. -/
def Daemon.states (s : Daemon) : List Tick → List Daemon
  | [] => [s]
  | k :: ticks => s :: (s.next env x t m k).states ticks

def Daemon.run (s : Daemon) (ticks : List Tick) : Daemon :=
  ticks.foldl (Daemon.next env x t m) s

end

end KaChatIndexer.NamesDaemon

import KaChatIndexer.FollowerLoop

/-!
# The profiles follower

The profile rules alone, on every network, with `names_profiles` and the checkpoint as its tables.
The undo journal lives in memory only. The statistics kept beside the profiles (`profile_saves` and
the times taken from it) are left out: the follower never reads them.
-/
namespace KaChatIndexer.ProfilesFollower
open ByteStrings NamesEnv NamesRegistry NamesApply FollowerLoop

/-- The address of a script, where it has one, and the order in which a `HashSet` of scripts is
iterated: its elements, each once. -/
structure ProfilesEnv where
  /-- `spk_address(prefix, spk)` -/
  spkAddress : Bytes → Option Bytes
  iter : (s : Finset Bytes) → { l : List Bytes // l.Nodup ∧ ∀ spk, spk ∈ l ↔ spk ∈ s }

section
variable (env : Env)

/-- Apply only the profile rules to one accepted transaction; tells whether its record was
accepted. -/
def applyProfileOnly (r : Registry) (tx : Tx) : Registry × Bool :=
  match applyProfile env tx r.profiles with
  | (profiles, some prior) =>
    ({ r with profiles, journal := r.journal ++ [⟨tx.acceptingBlock, [], [], some prior⟩] }, true)
  | (_, none) => (r, false)

def applyProfiles (r : Registry) (txs : List Tx) : Registry :=
  txs.foldl (fun r tx => (applyProfileOnly env r tx).1) r

/-- The step of the names follower with the profile rules only. -/
def stepProfiles (f : Follower) (batch : VccBatch) : Follower :=
  let registry := applyProfiles env (batch.removedBlocks.foldl undoBlock f.registry) batch.accepted
  { f with
    registry := pruneJournal registry f.finalityKeep
    checkpoint := batch.tip.or f.checkpoint }

end

/-- The scripts whose profile differs. -/
def changedProfiles (before after : ProfileMap) : Finset Bytes :=
  (before.keys ∪ after.keys).filter fun spk => before.lookup spk ≠ after.lookup spk

/-- Upsert or delete the row of one script; a script without an address has no row. -/
def writeRow (p : ProfilesEnv) (after rows : ProfileMap) (spk : Bytes) : ProfileMap :=
  match after.lookup spk with
  | some row => if (p.spkAddress spk).isSome then rows.insert spk row else rows
  | none => rows.erase spk

def writeRows (p : ProfilesEnv) (before after rows : ProfileMap) : ProfileMap :=
  (p.iter (changedProfiles before after)).1.foldl (writeRow p after) rows

/-- The follower, the rows of `names_profiles` and the stored checkpoint. -/
structure Profiles where
  follower : Follower
  rows : ProfileMap
  checkpoint : Option Bytes32

/-- The batch removes blocks or carries a profile payload. -/
def touches (batch : VccBatch) : Bool :=
  batch.removedBlocks ≠ [] ||
    batch.accepted.any fun tx => (ascii "kchat:1:profile:").isPrefixOf tx.payload

/-- One iteration of the loop: step, then write what changed together with the checkpoint. -/
def Profiles.onBatch (env : Env) (p : ProfilesEnv) (s : Profiles) (batch : VccBatch) : Profiles :=
  let follower := stepProfiles env s.follower batch
  { follower
    rows :=
      if touches batch then
        writeRows p s.follower.registry.profiles follower.registry.profiles s.rows
      else s.rows
    checkpoint := follower.checkpoint }

/-- A new process: the profiles from `names_profiles` and an empty journal, at the stored checkpoint
or else where the scan starts. -/
def Profiles.restart (s : Profiles) (journalKeep : ℕ) (scanFrom : Bytes32) : Profiles :=
  { s with follower :=
      { Follower.new journalKeep with
        registry := { Registry.new with profiles := s.rows }
        checkpoint := s.checkpoint.or (some scanFrom) } }

/-- A first run, with empty tables. -/
def Profiles.start (journalKeep : ℕ) (scanFrom : Bytes32) : Profiles :=
  Profiles.restart ⟨Follower.new journalKeep, ∅, none⟩ journalKeep scanFrom

end KaChatIndexer.ProfilesFollower

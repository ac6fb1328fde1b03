import KaChatIndexer.FollowerLoop
import KaChatIndexer.NamesReorg

/-!
# Reorgs after pruning

A pruned journal still undoes the live set as long as it holds, for the blocks removed, every entry
that changed the live set. The guard of the main loop asks for less: some entry of the block, or no
history row of it.
-/
namespace KaChatIndexer.FollowerReorg
open ByteStrings NamesState NamesEnv NamesTemplates NamesRegistry NamesApply NamesStep NamesReorg
open FollowerLoop FinmapPatch UndoLog

/-- The part of an undo entry that reverses the live set. -/
structure LiveEntry where
  block : Bytes32
  added : List Outpoint
  removed : List (Outpoint × Tracked)
  deriving DecidableEq

/-- An entry may have replaced a profile and nothing else. -/
def liveEntry (e : UndoEntry) : Option LiveEntry :=
  if e.added = [] ∧ e.removed = [] then none else some ⟨e.block, e.added, e.removed⟩

def liveEntries (journal : List UndoEntry) : List LiveEntry := journal.filterMap liveEntry

def LiveEntry.undo (utxos : UtxoMap) (e : LiveEntry) : UtxoMap :=
  insertAll e.removed (eraseAll e.added utxos)

theorem seen_utxos : Seen undoEntry UndoEntry.block LiveEntry.undo LiveEntry.block
    (Prod.fst : UtxoMap × ProfileMap → UtxoMap) liveEntry where
  some {s e e'} h := by
    unfold liveEntry at h
    split at h
    · cases h
    · cases h
      rfl
  none {s e} h := by
    unfold liveEntry at h
    split at h
    · next hnil =>
      simp only [undoEntry, hnil.1, hnil.2]
      rfl
    · cases h
  tag {e e'} h := by
    unfold liveEntry at h
    split at h
    · cases h
    · cases h
      rfl

theorem undoBlocks_live (r : Registry) (removed : List Bytes32) :
    ((undoBlocks r removed).utxos, liveEntries (undoBlocks r removed).journal) =
      undoTags LiveEntry.undo LiveEntry.block (r.utxos, liveEntries r.journal) removed := by
  have hseen := seen_undoTags seen_utxos (Registry.rows r, r.journal) removed
  rw [← undoBlocks_rows] at hseen
  exact hseen

section
variable {env : Env} {t : Templates}

/-- What a transaction does to the live set, and the entry for it, depend on the live set only. -/
theorem liveEntries_undoEntries (tx : Tx) (r : Registry) :
    liveEntries (undoEntries env t tx r) = (liveEntry ⟨tx.acceptingBlock, addedOf env t tx r.utxos,
      removedOf t tx r.utxos, none⟩).toList := by
  unfold undoEntries liveEntries liveEntry
  dsimp only
  by_cases hnone : addedOf env t tx r.utxos = [] ∧ removedOf t tx r.utxos = []
  · rw [if_pos hnone]
    split <;> simp [hnone]
  · rw [if_neg hnone, if_pos (by rw [← or_assoc]; exact .inl (not_and_or.mp hnone))]
    simp [hnone]

theorem run_congr {r r' : Registry} (h : r.utxos = r'.utxos) (txs : List Tx) :
    (applyAll env t r txs).utxos = (applyAll env t r' txs).utxos ∧
      liveEntries (runEntries env t r txs) = liveEntries (runEntries env t r' txs) := by
  induction txs generalizing r r' with
  | nil => exact ⟨h, rfl⟩
  | cons tx txs ih =>
    have hstep : (applyTx env t tx r).1.utxos = (applyTx env t tx r').1.utxos := by
      rw [applyTx_utxos, applyTx_utxos, h]
    obtain ⟨hutxos, hentries⟩ := ih hstep
    refine ⟨hutxos, ?_⟩
    simp only [runEntries, liveEntries, List.filterMap_append] at hentries ⊢
    rw [hentries]
    congr 1
    have hlive := @liveEntries_undoEntries env t tx
    simp only [liveEntries] at hlive
    rw [hlive, hlive, h]

theorem undo_live_run {r : Registry} {txs : List Tx} (hfresh : FreshRun env t r txs) :
    undoAll LiveEntry.undo (applyAll env t r txs).utxos (liveEntries (runEntries env t r txs)) =
      r.utxos := by
  have hlogged := congrArg Prod.fst (logged_applyAll hfresh)
  rw [seen_undoAll seen_utxos] at hlogged
  exact hlogged

/-- The live set is that of a replay, and the journal ends the way the replay's does: nothing but
older entries was pruned. -/
structure Replays (env : Env) (t : Templates) (base r : Registry) (txs : List Tx) : Prop where
  utxos : r.utxos = (applyAll env t base txs).utxos
  journal : liveEntries r.journal <:+ liveEntries (runEntries env t base txs)

/-- The entries that `txs`, applied after `before`, wrote for the live set are all in the journal. -/
def Unpruned (env : Env) (t : Templates) (base r : Registry) (before txs : List Tx) : Prop :=
  liveEntries (runEntries env t (applyAll env t base before) txs) <:+ liveEntries r.journal

variable {base r : Registry} {txs : List Tx}

theorem Replays.apply (h : Replays env t base r txs) (more : List Tx) :
    Replays env t base (applyAll env t r more) (txs ++ more) where
  utxos := by rw [applyAll_append, (run_congr h.utxos more).1]
  journal := by
    rw [applyAll_journal, runEntries_append]
    unfold liveEntries
    rw [List.filterMap_append, List.filterMap_append]
    have hmore := (@run_congr env t _ _ h.utxos more).2
    unfold liveEntries at hmore
    rw [hmore, List.suffix_append_self_iff]
    exact h.journal

theorem Replays.prune (h : Replays env t base r txs) (keepLast : ℕ) :
    Replays env t base (pruneJournal r keepLast) txs where
  utxos := h.utxos
  journal := ((List.drop_suffix _ _).filterMap _).trans h.journal

theorem liveEntry_block {e : UndoEntry} {e' : LiveEntry} (h : liveEntry e = some e') :
    e'.block = e.block := seen_utxos.tag h

theorem runEntries_mem_block {e : UndoEntry} (he : e ∈ runEntries env t r txs) :
    ∃ tx ∈ txs, e.block = tx.acceptingBlock := by
  induction txs generalizing r with
  | nil => simp [runEntries] at he
  | cons tx txs ih =>
    rcases List.mem_append.mp he with he | he
    · exact ⟨tx, List.mem_cons_self, undoEntries_block he⟩
    · obtain ⟨tx', htx', hblock⟩ := ih he
      exact ⟨tx', List.mem_cons_of_mem tx htx', hblock⟩

/-- Undoing, newest first, the blocks that were applied last, from a journal that still holds their
entries. -/
theorem Replays.undo {before : List Tx} {blocks : List ChainBlock}
    (h : Replays env t base r (before ++ chainTxs blocks))
    (hunpruned : Unpruned env t base r before (chainTxs blocks))
    (hfresh : FreshRun env t base (before ++ chainTxs blocks)) (hnodup : (hashes blocks).Nodup)
    (hapart : ∀ tx ∈ before, tx.acceptingBlock ∉ hashes blocks) :
    Replays env t base (undoBlocks r (hashes blocks).reverse) before := by
  obtain ⟨older, holder⟩ := hunpruned
  have hkept : older <:+ liveEntries (runEntries env t base before) := by
    have hjournal := h.journal
    rw [← holder, runEntries_append] at hjournal
    unfold liveEntries at hjournal ⊢
    rwa [List.filterMap_append, List.suffix_append_self_iff] at hjournal
  have hblocks : ∀ e ∈ older, e.block ∉ hashes blocks := by
    intro e he
    obtain ⟨e', he', hlive⟩ := List.mem_filterMap.mp (hkept.subset he)
    obtain ⟨tx, htx, hblock⟩ := runEntries_mem_block he'
    rw [liveEntry_block hlive, hblock]
    exact hapart tx htx
  -- the entries of the removed blocks, block by block
  set groups := (blockGroups env t (applyAll env t base before) blocks).map
    fun g => (g.1, liveEntries g.2) with hgroups
  have hfst : groups.map Prod.fst = hashes blocks := by
    rw [hgroups, List.map_map]
    exact blockGroups_hashes _ blocks
  have hsnd : groups.flatMap Prod.snd =
      liveEntries (runEntries env t (applyAll env t base before) (chainTxs blocks)) := by
    rw [hgroups, ← blockGroups_entries, List.flatMap_map]
    exact (List.filterMap_flatMap ..).symm
  have htagged : ∀ g ∈ groups, ∀ e ∈ g.2, e.block = g.1 := by
    intro g hg e he
    obtain ⟨g', hg', rfl⟩ := List.mem_map.mp hg
    obtain ⟨e', he', hlive⟩ := List.mem_filterMap.mp he
    rw [liveEntry_block hlive]
    exact blockGroups_block g' hg' e' he'
  have hundo : undoTags LiveEntry.undo LiveEntry.block (r.utxos, older ++ groups.flatMap Prod.snd)
      (groups.map Prod.fst).reverse = _ :=
    undoTags_groups _ _ (by rwa [hfst]) (by rwa [hfst]) htagged
  rw [hfst, hsnd, holder, ← undoBlocks_live] at hundo
  obtain ⟨hutxos, hjournal⟩ := Prod.mk.inj hundo
  rw [freshRun_append] at hfresh
  refine ⟨?_, by rwa [hjournal]⟩
  rw [hutxos, h.utxos, applyAll_append]
  exact undo_live_run hfresh.2

end

/-- What the node reports between two batches: how many of the newest chain blocks go, and which
blocks come. -/
structure Change where
  depth : ℕ
  blocks : List ChainBlock

/-- The main loop with the chain blocks it has processed. -/
structure Following where
  loop : MainLoop
  chain : List ChainBlock

def Following.registry (s : Following) : Registry := s.loop.follower.registry

section
variable (s : Following) (c : Change)

def kept : List ChainBlock := s.chain.take (s.chain.length - c.depth)

def dropped : List ChainBlock := s.chain.drop (s.chain.length - c.depth)

/-- The batch that tells the change, removed blocks newest first. -/
def batchOf : VccBatch where
  removedBlocks := (hashes (dropped s c)).reverse
  accepted := chainTxs c.blocks
  tip := (hashes c.blocks).getLast?

/-- The guard of the main loop lets the batch through. -/
def LetThrough : Prop := unrevertable s.loop (batchOf s c).removedBlocks = none

instance : Decidable (LetThrough s c) := inferInstanceAs (Decidable (_ = none))

/-- The processed chain after the batch; a rewind starts over from the start block. -/
def nextChain : List ChainBlock := if LetThrough s c then kept s c ++ c.blocks else []

end

def follow (env : Env) (t : Templates) (m : Manifest) (s : Following) (c : Change) : Following :=
  ⟨s.loop.onBatch env t m (batchOf s c), nextChain s c⟩

/-- What holds of each change of a run, at the state in which it comes. -/
def Along {σ : Type} (next : σ → Change → σ) (P : σ → Change → Prop) : σ → List Change → Prop
  | _, [] => True
  | s, c :: cs => P s c ∧ Along next P (next s c) cs

/-- Distinct blocks, and transactions accepted once, none of which created a seed. -/
structure ValidChain (base : Registry) (chain : List ChainBlock) : Prop where
  blocks : (hashes chain).Nodup
  ids : ((chainTxs chain).map Tx.id).Nodup
  new : ∀ op ∈ base.utxos, op.1 ∉ (chainTxs chain).map Tx.id

instance (base : Registry) (chain : List ChainBlock) : Decidable (ValidChain base chain) :=
  have := decidableBall base.utxos fun op => op.1 ∉ (chainTxs chain).map Tx.id
  decidable_of_iff ((hashes chain).Nodup ∧ ((chainTxs chain).map Tx.id).Nodup ∧
      ∀ op ∈ base.utxos, op.1 ∉ (chainTxs chain).map Tx.id)
    ⟨fun h => ⟨h.1, h.2.1, h.2.2⟩, fun h => ⟨h.blocks, h.ids, h.new⟩⟩

theorem Manifest.start_journal (m : Manifest) (keep : ℕ) : (m.start keep).registry.journal = [] :=
  List.foldlRecOn (motive := fun r : Registry => r.journal = []) _ _ rfl fun _ h _ _ => h

section
variable {env : Env} {t : Templates} {base : Registry} {s : Following} {c : Change}

theorem kept_append_dropped (s : Following) (c : Change) : kept s c ++ dropped s c = s.chain :=
  List.take_append_drop ..

theorem chainTxs_append (bs cs : List ChainBlock) : chainTxs (bs ++ cs) = chainTxs bs ++ chainTxs cs :=
  List.flatMap_append ..

theorem mem_chainTxs_block {blocks : List ChainBlock} {tx : Tx} (h : tx ∈ chainTxs blocks) :
    tx.acceptingBlock ∈ hashes blocks := by
  obtain ⟨b, hb, htx⟩ := List.mem_flatMap.mp h
  rw [b.accepts tx htx]
  exact List.mem_map_of_mem hb

theorem ValidChain.fresh {chain : List ChainBlock} (h : ValidChain base chain) :
    FreshRun env t base (chainTxs chain) := freshRun_of_nodup h.ids h.new

theorem ValidChain.apart (h : ValidChain base s.chain) :
    (hashes (dropped s c)).Nodup ∧
      ∀ tx ∈ chainTxs (kept s c), tx.acceptingBlock ∉ hashes (dropped s c) := by
  have hnodup := h.blocks
  rw [← kept_append_dropped s c, hashes, List.map_append, List.nodup_append] at hnodup
  exact ⟨hnodup.2.1, fun tx htx hmem => hnodup.2.2 _ (mem_chainTxs_block htx) _ hmem rfl⟩

/-- The entries that the transactions of the removed blocks wrote for the live set are all in the
journal. -/
def EntriesKept (env : Env) (t : Templates) (base : Registry) (s : Following) (c : Change) : Prop :=
  Unpruned env t base s.registry (chainTxs (kept s c)) (chainTxs (dropped s c))

/-- The live set after undoing the removed blocks is that of a replay without them. -/
def UndoneIsReplay (env : Env) (t : Templates) (base : Registry) (s : Following) (c : Change) : Prop :=
  (undoBlocks s.registry (batchOf s c).removedBlocks).utxos =
    (applyBlocks env t base (kept s c)).utxos

theorem undone_replays (hvalid : ValidChain base s.chain)
    (h : Replays env t base s.registry (chainTxs s.chain)) (hkept : EntriesKept env t base s c) :
    Replays env t base (undoBlocks s.registry (batchOf s c).removedBlocks) (chainTxs (kept s c)) := by
  have hfresh : FreshRun env t base (chainTxs s.chain) := hvalid.fresh
  rw [← kept_append_dropped s c, chainTxs_append] at h hfresh
  exact h.undo hkept hfresh hvalid.apart.1 hvalid.apart.2

/-- What the follower's step leaves of a replay that the undone blocks left intact. -/
theorem step_replays {f : Follower} {batch : VccBatch} {txs : List Tx}
    (h : Replays env t base (undoBlocks f.registry batch.removedBlocks) txs) :
    Replays env t base (f.step env t batch).1.registry (txs ++ batch.accepted) :=
  (h.apply batch.accepted).prune f.finalityKeep

theorem onBatch_letThrough {m : Manifest} {l : MainLoop} {batch : VccBatch}
    (h : unrevertable l batch.removedBlocks = none) :
    (l.onBatch env t m batch).follower = (l.follower.step env t { batch with
        accepted := batch.accepted.filter fun tx => tx.id ∉ l.bootstrappedTxids }).1 ∧
      (l.onBatch env t m batch).bootstrappedTxids = l.bootstrappedTxids := by
  simp [MainLoop.onBatch, h]

theorem onBatch_rewind {m : Manifest} {l : MainLoop} {batch : VccBatch}
    (h : unrevertable l batch.removedBlocks ≠ none) : l.onBatch env t m batch = rewind m l := by
  obtain ⟨b, hb⟩ := Option.ne_none_iff_exists'.mp h
  simp [MainLoop.onBatch, hb]

/-- Nothing was bootstrapped, and the live set replays the processed chain. -/
structure Follows (env : Env) (t : Templates) (base : Registry) (s : Following) : Prop where
  valid : ValidChain base s.chain
  replays : Replays env t base s.registry (chainTxs s.chain)
  none : s.loop.bootstrappedTxids = []

variable {m : Manifest} {keep : ℕ}

theorem follows_start {l : MainLoop} (hr : l.follower.registry = (m.start keep).registry)
    (hnone : l.bootstrappedTxids = []) :
    Follows env t (m.start keep).registry ⟨l, []⟩ where
  valid := ⟨List.nodup_nil, List.nodup_nil, fun _ _ => List.not_mem_nil⟩
  replays := ⟨by rw [Following.registry, hr]; rfl, by
    rw [Following.registry, hr, Manifest.start_journal]
    exact List.nil_suffix⟩
  none := hnone

theorem Follows.next (h : Follows env t (m.start keep).registry s)
    (hvalid : ValidChain (m.start keep).registry (nextChain s c))
    (hkept : LetThrough s c → EntriesKept env t (m.start keep).registry s c) :
    Follows env t (m.start keep).registry (follow env t m s c) := by
  by_cases hpass : LetThrough s c
  · have hundone := undone_replays h.valid h.replays (hkept hpass)
    obtain ⟨hfollower, hids⟩ := @onBatch_letThrough env t m s.loop (batchOf s c) hpass
    refine ⟨hvalid, ?_, hids.trans h.none⟩
    have hstep := @step_replays env t _ s.loop.follower (batchOf s c) _ hundone
    have hall : (batchOf s c).accepted.filter (fun tx => tx.id ∉ s.loop.bootstrappedTxids) =
        (batchOf s c).accepted := by simp [h.none]
    rw [Following.registry, follow, hfollower, hall, nextChain, if_pos hpass, chainTxs_append]
    exact hstep
  · have hrewind : s.loop.onBatch env t m (batchOf s c) = rewind m s.loop := onBatch_rewind hpass
    rw [follow, hrewind, nextChain, if_neg hpass]
    exact follows_start rfl rfl

/-- The loop at the start of the chain. -/
def Following.start (m : Manifest) (keep : ℕ) : Following := ⟨⟨m.start keep, [], []⟩, []⟩

/-- In a run whose batches find in the journal every entry that the removed blocks wrote for the
live set, each batch let through undoes them to the live set of a replay. -/
theorem guarded_reorgs_undo (m : Manifest) (keep : ℕ) (changes : List Change)
    (hvalid : Along (follow env t m) (fun s c => ValidChain (m.start keep).registry (nextChain s c))
      (.start m keep) changes)
    (hkept : Along (follow env t m)
      (fun s c => LetThrough s c → EntriesKept env t (m.start keep).registry s c)
      (.start m keep) changes) :
    Along (follow env t m) (fun s c => LetThrough s c → UndoneIsReplay env t (m.start keep).registry s c)
      (.start m keep) changes := by
  have hstart : Follows env t (m.start keep).registry (.start m keep) := follows_start rfl rfl
  generalize Following.start m keep = s at *
  induction changes generalizing s with
  | nil => trivial
  | cons c changes ih =>
    refine ⟨fun hpass => ?_, ih _ hvalid.2 hkept.2 (hstart.next hvalid.1 hkept.1)⟩
    exact (undone_replays hstart.valid hstart.replays (hkept.1 hpass)).utxos

end

def sampleManifest : Manifest := ⟨NamesSample.fill 0, NamesSample.genesis, NamesSample.genesisGap, []⟩

/-- `alice` and an offer for her, accepted by one block. -/
def aliceBlock : ChainBlock where
  hash := NamesSample.fill 0xbb
  txs := [NamesSample.registerAlice, { NamesSample.makeOffer with
    acceptingBlock := NamesSample.fill 0xbb }]
  accepts := by decide

/-- A run with a reorg of the one block. -/
theorem alice_block_undone :
    Along (follow NamesSample.env NamesSample.templates sampleManifest)
      (fun s c => LetThrough s c → UndoneIsReplay NamesSample.env NamesSample.templates
        (sampleManifest.start 2).registry s c)
      (.start sampleManifest 2) [⟨0, [aliceBlock]⟩, ⟨1, []⟩] :=
  guarded_reorgs_undo sampleManifest 2 _
    ⟨by decide +kernel, by decide +kernel, trivial⟩
    ⟨fun _ => by unfold EntriesKept Unpruned; decide +kernel,
      fun _ => by unfold EntriesKept Unpruned; decide +kernel, trivial⟩

/-- With one entry kept, undoing the block takes the offer back and leaves `alice`. -/
theorem half_pruned_block_undone :
    ¬ ∀ (env : Env) (t : Templates) (m : Manifest) (keep : ℕ) (changes : List Change),
      Along (follow env t m) (fun s c => ValidChain (m.start keep).registry (nextChain s c))
        (.start m keep) changes →
      Along (follow env t m)
        (fun s c => LetThrough s c → UndoneIsReplay env t (m.start keep).registry s c)
        (.start m keep) changes := by
  intro h
  have hrun := h NamesSample.env NamesSample.templates sampleManifest 1 [⟨0, [aliceBlock]⟩, ⟨1, []⟩]
    ⟨by decide +kernel, by decide +kernel, trivial⟩
  have hundone := congrArg (Finmap.lookup NamesSample.genesis) (hrun.2.1 (by decide +kernel))
  revert hundone
  decide +kernel

end KaChatIndexer.FollowerReorg

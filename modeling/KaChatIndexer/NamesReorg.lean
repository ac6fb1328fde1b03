import KaChatIndexer.NamesSample
import KaChatIndexer.NamesStep

/-!
# Reorgs

A transaction with a fresh id is reversed by the undo entry it journaled, so undoing the last
blocks of a run, newest first, gives back the registry before them.
-/
namespace KaChatIndexer.NamesReorg
open ByteStrings NamesState NamesEnv NamesTemplates NamesProfile NamesRegistry NamesApply NamesStep
open FinmapPatch UndoLog

section
variable {env : Env} {t : Templates} {tx : Tx}

/-- No tracked outpoint is an output of the transaction. -/
def FreshId (utxos : UtxoMap) (tx : Tx) : Prop := ∀ op ∈ utxos, op.1 ≠ tx.id

instance (utxos : UtxoMap) (tx : Tx) : Decidable (FreshId utxos tx) :=
  decidableBall utxos fun op => op.1 ≠ tx.id

theorem undo_utxos {utxos : UtxoMap} (hfresh : FreshId utxos tx) :
    insertAll (removedOf t tx utxos) (eraseAll (addedOf env t tx utxos) (applyUtxos env t tx utxos)) =
      utxos := by
  refine insertAll_eraseAll (fun op => mem_addedOf) (fun x hx => removedOf_lookup hx) ?_
  intro op hop hrem
  rw [removedOf_fst] at hrem
  rw [applyUtxos_other (hfresh op hop), if_neg hrem]

/-- Put the prior row of a replaced profile back. -/
def undoProfile (profiles : ProfileMap) : Option (Bytes × Option ProfileRow) → ProfileMap
  | some (addr, some row) => profiles.insert addr row
  | some (addr, none) => profiles.erase addr
  | none => profiles

theorem undo_profile (profiles : ProfileMap) :
    undoProfile (applyProfile env tx profiles).1 (applyProfile env tx profiles).2 = profiles := by
  unfold applyProfile
  split
  · rfl
  · next addr row _ =>
    dsimp only
    split
    · apply Finmap.ext_lookup
      intro a
      cases hp : profiles.lookup addr with
      | none =>
        simp only [undoProfile, lookup_erase_of, lookup_insert_of]
        split
        · next h => rw [h, hp]
        · rfl
      | some prior =>
        simp only [undoProfile, lookup_insert_of]
        split
        · next h => rw [h, hp]
        · rfl
    · rfl

/-- The UTXOs and profiles, which the journal reverses. -/
def Registry.rows (r : Registry) : UtxoMap × ProfileMap := (r.utxos, r.profiles)

theorem logged_applyTx {r : Registry} (hfresh : FreshId r.utxos tx) :
    Logged undoEntry (Registry.rows r) (Registry.rows (applyTx env t tx r).1)
      (undoEntries env t tx r) := by
  have hrows : undoEntry (Registry.rows (applyTx env t tx r).1) ⟨tx.acceptingBlock,
      addedOf env t tx r.utxos, removedOf t tx r.utxos, (applyProfile env tx r.profiles).2⟩ =
      Registry.rows r := by
    refine Prod.ext ?_ (undo_profile r.profiles)
    simp only [undoEntry, Registry.rows, applyTx_utxos]
    exact undo_utxos hfresh
  unfold undoEntries
  dsimp only
  split
  · exact hrows
  · next hnone =>
    simp only [ne_eq, not_or, not_not, Bool.not_eq_true, Option.isSome_eq_false_iff,
      Option.isNone_iff_eq_none] at hnone
    rw [hnone.1, hnone.2.1, hnone.2.2] at hrows
    exact hrows

/-- Every transaction of the run is fresh when it is applied. -/
def FreshRun (env : Env) (t : Templates) : Registry → List Tx → Prop
  | _, [] => True
  | r, tx :: txs => FreshId r.utxos tx ∧ FreshRun env t (applyTx env t tx r).1 txs

/-- What a run of transactions adds to the journal. -/
def runEntries (env : Env) (t : Templates) : Registry → List Tx → List UndoEntry
  | _, [] => []
  | r, tx :: txs => undoEntries env t tx r ++ runEntries env t (applyTx env t tx r).1 txs

theorem applyAll_append (r : Registry) (txs txs' : List Tx) :
    applyAll env t r (txs ++ txs') = applyAll env t (applyAll env t r txs) txs' :=
  List.foldl_append ..

theorem freshRun_append {r : Registry} {txs txs' : List Tx} : FreshRun env t r (txs ++ txs') ↔
    FreshRun env t r txs ∧ FreshRun env t (applyAll env t r txs) txs' := by
  induction txs generalizing r with
  | nil => simp [FreshRun, applyAll]
  | cons tx txs ih => rw [List.cons_append, FreshRun, ih, FreshRun, and_assoc]; rfl

theorem runEntries_append {r : Registry} {txs txs' : List Tx} : runEntries env t r (txs ++ txs') =
    runEntries env t r txs ++ runEntries env t (applyAll env t r txs) txs' := by
  induction txs generalizing r with
  | nil => rfl
  | cons tx txs ih => rw [List.cons_append, runEntries, ih, runEntries, List.append_assoc]; rfl

theorem applyAll_journal (r : Registry) (txs : List Tx) :
    (applyAll env t r txs).journal = r.journal ++ runEntries env t r txs := by
  induction txs generalizing r with
  | nil => exact (List.append_nil _).symm
  | cons tx txs ih =>
    have hstep := ih (applyTx env t tx r).1
    rw [applyTx_journal, List.append_assoc] at hstep
    exact hstep

theorem logged_applyAll {r : Registry} {txs : List Tx} (hfresh : FreshRun env t r txs) :
    Logged undoEntry (Registry.rows r) (Registry.rows (applyAll env t r txs))
      (runEntries env t r txs) := by
  induction txs generalizing r with
  | nil => exact Logged.refl _
  | cons tx txs ih => exact (logged_applyTx hfresh.1).trans (ih hfresh.2)

theorem runEntries_block {r : Registry} {txs : List Tx} {b : Bytes32}
    (h : ∀ tx ∈ txs, tx.acceptingBlock = b) : ∀ e ∈ runEntries env t r txs, e.block = b := by
  induction txs generalizing r with
  | nil => simp [runEntries]
  | cons tx txs ih =>
    intro e he
    rcases List.mem_append.mp he with he | he
    · rw [undoEntries_block he, h tx List.mem_cons_self]
    · exact ih (fun tx' h' => h tx' (List.mem_cons_of_mem tx h')) e he

theorem mem_applyUtxos {utxos : UtxoMap} {op : Outpoint} (h : op ∈ applyUtxos env t tx utxos) :
    op ∈ utxos ∨ op.1 = tx.id := by
  by_contra hno
  rw [not_or] at hno
  have hlookup := @applyUtxos_other env t tx utxos op hno.2
  rw [Finmap.lookup_eq_none.mpr hno.1, ite_self] at hlookup
  exact Finmap.lookup_eq_none.mp hlookup h

/-- Distinct ids that no tracked outpoint carries make a run fresh. -/
theorem freshRun_of_nodup {r : Registry} {txs : List Tx} (hnodup : (txs.map Tx.id).Nodup)
    (hnew : ∀ op ∈ r.utxos, op.1 ∉ txs.map Tx.id) : FreshRun env t r txs := by
  induction txs generalizing r with
  | nil => trivial
  | cons tx txs ih =>
    rw [List.map_cons, List.nodup_cons] at hnodup
    refine ⟨fun op hop heq => hnew op hop (by simp [heq]), ih hnodup.2 fun op hop hmem => ?_⟩
    rw [applyTx_utxos] at hop
    rcases mem_applyUtxos hop with hold | hid
    · exact hnew op hold (List.mem_cons_of_mem _ hmem)
    · exact hnodup.1 (hid ▸ hmem)

end

/-- A chain block with the transactions it accepted, in chain order. -/
structure ChainBlock where
  hash : Bytes32
  txs : List Tx
  accepts : ∀ tx ∈ txs, tx.acceptingBlock = hash

def chainTxs (blocks : List ChainBlock) : List Tx := blocks.flatMap ChainBlock.txs

def hashes (blocks : List ChainBlock) : List Bytes32 := blocks.map ChainBlock.hash

def undoBlocks (r : Registry) (removed : List Bytes32) : Registry := removed.foldl undoBlock r

section
variable (env : Env) (t : Templates)

def applyBlocks (r : Registry) (blocks : List ChainBlock) : Registry :=
  applyAll env t r (chainTxs blocks)

/-- The journal entries of consecutive blocks, block by block. -/
def blockGroups : Registry → List ChainBlock → List (Bytes32 × List UndoEntry)
  | _, [] => []
  | r, b :: bs => (b.hash, runEntries env t r b.txs) :: blockGroups (applyAll env t r b.txs) bs

variable {env t}

theorem blockGroups_hashes (r : Registry) (blocks : List ChainBlock) :
    (blockGroups env t r blocks).map Prod.fst = hashes blocks := by
  induction blocks generalizing r with
  | nil => rfl
  | cons b bs ih => simp only [blockGroups, List.map_cons, ih, hashes]

theorem blockGroups_entries (r : Registry) (blocks : List ChainBlock) :
    (blockGroups env t r blocks).flatMap Prod.snd = runEntries env t r (chainTxs blocks) := by
  induction blocks generalizing r with
  | nil => rfl
  | cons b bs ih =>
    rw [blockGroups, List.flatMap_cons, ih]
    exact runEntries_append.symm

theorem blockGroups_block {r : Registry} {blocks : List ChainBlock} :
    ∀ g ∈ blockGroups env t r blocks, ∀ e ∈ g.2, e.block = g.1 := by
  induction blocks generalizing r with
  | nil => simp [blockGroups]
  | cons b bs ih =>
    intro g hg
    rcases List.mem_cons.mp hg with rfl | hg
    · exact runEntries_block b.accepts
    · exact ih g hg

theorem undoBlocks_rows (r : Registry) (removed : List Bytes32) :
    (Registry.rows (undoBlocks r removed), (undoBlocks r removed).journal) =
      undoTags undoEntry UndoEntry.block (Registry.rows r, r.journal) removed := by
  induction removed generalizing r with
  | nil => rfl
  | cons b removed ih => exact ih (undoBlock r b)

theorem registry_ext {r r' : Registry} (hrows : Registry.rows r = Registry.rows r')
    (hjournal : r.journal = r'.journal) : r = r' := by
  cases r
  cases r'
  cases hrows
  cases hjournal
  rfl

theorem runEntries_mem_hashes {r : Registry} {blocks : List ChainBlock} {e : UndoEntry}
    (he : e ∈ runEntries env t r (chainTxs blocks)) : e.block ∈ hashes blocks := by
  rw [← blockGroups_entries] at he
  obtain ⟨g, hg, he⟩ := List.mem_flatMap.mp he
  rw [blockGroups_block g hg e he, ← @blockGroups_hashes env t r blocks]
  exact List.mem_map_of_mem hg

/-- Undoing the blocks that were applied last. -/
theorem undo_applyBlocks {r : Registry} {blocks : List ChainBlock}
    (hfresh : FreshRun env t r (chainTxs blocks)) (hnodup : (hashes blocks).Nodup)
    (hjournal : ∀ e ∈ r.journal, e.block ∉ hashes blocks) :
    undoBlocks (applyBlocks env t r blocks) (hashes blocks).reverse = r := by
  have hgroups : undoTags undoEntry UndoEntry.block (Registry.rows (applyBlocks env t r blocks),
      r.journal ++ (blockGroups env t r blocks).flatMap Prod.snd)
      ((blockGroups env t r blocks).map Prod.fst).reverse = _ :=
    undoTags_groups _ _ (by rwa [blockGroups_hashes]) (by rwa [blockGroups_hashes]) blockGroups_block
  rw [blockGroups_hashes, blockGroups_entries, ← applyAll_journal] at hgroups
  have hundo := (undoBlocks_rows (applyBlocks env t r blocks) (hashes blocks).reverse).trans hgroups
  exact registry_ext ((congrArg Prod.fst hundo).trans (logged_applyAll hfresh))
    (congrArg Prod.snd hundo)

/-- Undoing the last `k` blocks of a run, newest first, gives back the UTXOs, the profiles and
the journal that stood before them. -/
theorem undo_last_blocks (r : Registry) (blocks : List ChainBlock) (k : ℕ)
    (hfresh : FreshRun env t r (chainTxs blocks)) (hnodup : (hashes blocks).Nodup)
    (hjournal : ∀ e ∈ r.journal, e.block ∉ hashes blocks) :
    undoBlocks (applyBlocks env t r blocks) (hashes (blocks.drop (blocks.length - k))).reverse =
      applyBlocks env t r (blocks.take (blocks.length - k)) := by
  set kept := blocks.take (blocks.length - k) with hkept
  set gone := blocks.drop (blocks.length - k) with hgone
  have hsplit : blocks = kept ++ gone := (List.take_append_drop _ _).symm
  have happly : applyBlocks env t r blocks = applyBlocks env t (applyBlocks env t r kept) gone := by
    rw [hsplit, applyBlocks, chainTxs, List.flatMap_append, applyAll_append]; rfl
  rw [hsplit, chainTxs, List.flatMap_append, freshRun_append] at hfresh
  rw [hsplit, hashes, List.map_append, List.nodup_append] at hnodup
  obtain ⟨-, hgoneNodup, hdisjoint⟩ := hnodup
  rw [happly]
  refine undo_applyBlocks hfresh.2 hgoneNodup fun e he hmem => ?_
  rw [applyBlocks, applyAll_journal] at he
  rcases List.mem_append.mp he with he | he
  · refine hjournal e he ?_
    rw [hsplit, hashes, List.map_append]
    exact List.mem_append_right _ hmem
  · exact hdisjoint _ (runEntries_mem_hashes he) _ hmem rfl

/-- The block that accepts the one transaction. -/
def soleBlock (tx : Tx) : ChainBlock := ⟨tx.acceptingBlock, [tx], by simp⟩

/-- An offer for a name, undone down to the block that registered the name. -/
theorem undo_offer_block :
    undoBlocks (applyBlocks NamesSample.env NamesSample.templates NamesSample.seeded
        [soleBlock NamesSample.registerAlice, soleBlock NamesSample.makeOffer])
        [NamesSample.fill 0xbc] =
      applyBlocks NamesSample.env NamesSample.templates NamesSample.seeded
        [soleBlock NamesSample.registerAlice] :=
  undo_last_blocks NamesSample.seeded
    [soleBlock NamesSample.registerAlice, soleBlock NamesSample.makeOffer] 1
    (freshRun_of_nodup (by decide) (by
      intro op hop
      obtain rfl | hop := Finmap.mem_insert.mp hop
      · decide
      · exact absurd hop (Finmap.notMem_empty)))
    (by decide) (by simp [NamesSample.seeded, Registry.new, Registry.seedGenesis])

end

end KaChatIndexer.NamesReorg

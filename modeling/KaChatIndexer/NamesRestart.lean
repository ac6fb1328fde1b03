import KaChatIndexer.NamesConfluence
import KaChatIndexer.NamesDaemon
import KaChatIndexer.NamesPadding
import KaChatIndexer.NamesReapply
import KaChatIndexer.ProfilesRestart

/-!
# Restarts of the names follower

A batch that changes nothing by the test of the main loop leaves the live set alone, so the rows
written last still describe it; and a new process, which reads the rows and the journal back, undoes
blocks as the old one would.
-/
namespace KaChatIndexer.NamesRestart
open ByteStrings NamesState NamesEnv NamesTemplates NamesRegistry NamesApply NamesStep NamesReorg
open NamesSoundness NamesReapply NamesStore NamesReadBack NamesPadding NamesDaemon FollowerBootstrap
open FollowerLoop FollowerReorg GatedConfluence UndoLog

/-- No transaction spends an output of a later one. -/
def ChainOrdered (txs : List Tx) : Prop :=
  txs.Pairwise fun a b => ∀ i ∈ a.inputs, i.previousOutpoint.1 ≠ b.id

instance (txs : List Tx) : Decidable (ChainOrdered txs) :=
  inferInstanceAs (Decidable (List.Pairwise ..))

section
variable {env : Env} {t : Templates} {r : Registry} {txs : List Tx}

/-- What is not tracked comes back only as an output of a transaction applied. -/
theorem applyAll_untracked {op : Outpoint} (h : op ∉ r.utxos) (hne : ∀ tx ∈ txs, op.1 ≠ tx.id) :
    op ∉ (applyAll env t r txs).utxos := by
  induction txs generalizing r with
  | nil => exact h
  | cons tx txs ih =>
    refine ih (r := (applyTx env t tx r).1) ?_ fun tx' h' => hne tx' (List.mem_cons_of_mem tx h')
    rw [applyTx_utxos]
    intro hop
    rcases mem_applyUtxos hop with hop | hop
    · exact h hop
    · exact hne tx List.mem_cons_self hop

/-- A transaction that spends something takes its outpoint away for good. -/
theorem spends_gone {tx : Tx} (hordered : ChainOrdered (tx :: txs)) {s : Spend}
    (hs : s ∈ spendsOf t tx r.utxos) :
    s.outpoint ∉ (applyAll env t (applyTx env t tx r).1 txs).utxos := by
  apply applyAll_untracked
  · rw [applyTx_utxos, ← Finmap.lookup_eq_none, applyUtxos_lookup]
    exact if_pos (List.mem_map_of_mem hs)
  · intro tx' htx'
    obtain ⟨input, hget, hop⟩ := spend_input hs
    rw [hop]
    exact List.rel_of_pairwise_cons hordered htx' input (List.mem_of_getElem? hget)

/-- Transactions that tell of nothing and end with every outpoint still tracked did nothing. -/
theorem unchanged_run (hordered : ChainOrdered txs) (hquiet : runEvents env t r txs = [])
    (hkept : ∀ op ∈ r.utxos, op ∈ (applyAll env t r txs).utxos) :
    (applyAll env t r txs).utxos = r.utxos ∧ liveEntries (runEntries env t r txs) = [] := by
  induction txs generalizing r with
  | nil => exact ⟨rfl, rfl⟩
  | cons tx txs ih =>
    obtain ⟨hevents, hrest⟩ := List.append_eq_nil_iff.mp hquiet
    have hspends : spendsOf t tx r.utxos = [] := by
      rw [List.eq_nil_iff_forall_not_mem]
      intro s hs
      exact spends_gone hordered hs (hkept s.outpoint (Finmap.mem_iff.mpr ⟨_, spend_lookup hs⟩))
    have hmarker : createdOffer env t tx = none := by
      cases hoffer : createdOffer env t tx with
      | none => rfl
      | some offer => simp [applyTx, applyWork, hspends, applyOfferMarker, hoffer] at hevents
    have hutxos : applyUtxos env t tx r.utxos = r.utxos := by
      rw [applyUtxos_of_nothing (nothingToSpend_iff.mpr hspends), marked, applyOfferMarker, hmarker]
    have hentries : liveEntries (undoEntries env t tx r) = [] := by
      have hadded : addedOf env t tx r.utxos = [] := by
        rw [List.eq_nil_iff_forall_not_mem]
        intro op hop
        obtain ⟨hnew, hold⟩ := mem_addedOf.mp hop
        rw [hutxos] at hnew
        exact hold hnew
      rw [liveEntries_undoEntries, hadded, removedOf, hspends]
      rfl
    have hstep : (applyTx env t tx r).1.utxos = r.utxos := applyTx_utxos.trans hutxos
    obtain ⟨hfinal, hlive⟩ := ih (List.Pairwise.of_cons hordered) hrest (by rwa [hstep])
    refine ⟨hfinal.trans hstep, ?_⟩
    unfold liveEntries at hentries hlive ⊢
    rw [runEntries, List.filterMap_append, hentries, hlive, List.append_nil]

end

section
variable {env : Env} {x : TextEnv} {t : Templates} {m : Manifest} {s : Daemon} {batch : VccBatch}

theorem changed_eq_false (h : s.changed env t batch = false) : s.dirty = false ∧
    batch.removedBlocks = [] ∧
    runEvents env t s.registry (notBootstrapped s.loop batch).accepted = [] ∧
    ∀ op ∈ s.registry.utxos,
      op ∈ (applyAll env t s.registry (notBootstrapped s.loop batch).accepted).utxos := by
  simp only [Daemon.changed, Bool.or_eq_false_iff, Bool.not_eq_false', List.isEmpty_iff,
    bne_eq_false_iff_eq, List.any_eq_false, decide_eq_true_eq, not_not] at h
  obtain ⟨⟨⟨⟨hdirty, hremoved⟩, hevents⟩, hlength⟩, hsubset⟩ := h
  have hundone : (notBootstrapped s.loop batch).removedBlocks = [] := hremoved
  set after := applyAll env t s.registry (notBootstrapped s.loop batch).accepted with hafter
  have hstep : (s.loop.follower.step env t (notBootstrapped s.loop batch)).1.registry.utxos =
      after.utxos := by
    rw [hafter, Follower.step, hundone]
    rfl
  rw [hstep] at hlength hsubset
  simp only [Follower.step, hundone, List.foldl_nil] at hevents
  refine ⟨hdirty, hremoved, hevents, fun op hop => ?_⟩
  have hperm := (List.subperm_of_subset (env.iter after.utxos).2.1 hsubset).perm_of_length_le
    hlength.ge
  exact ((env.iter _).2.2 op).mp (hperm.mem_iff.mpr (((env.iter _).2.2 op).mpr hop))

/-- Where the test of the main loop says that nothing changed, the live set did not. -/
theorem unchanged_live (hordered : ChainOrdered batch.accepted)
    (h : s.changed env t batch = false) (hpass : unrevertable s.loop batch.removedBlocks = none) :
    (s.onBatch env x t m batch).registry.utxos = s.registry.utxos ∧
      liveEntries (s.onBatch env x t m batch).registry.journal <:+ liveEntries s.registry.journal := by
  obtain ⟨-, hremoved, hquiet, hkept⟩ := changed_eq_false h
  have hsub : ChainOrdered (notBootstrapped s.loop batch).accepted :=
    List.Pairwise.sublist List.filter_sublist hordered
  obtain ⟨hutxos, hentries⟩ := unchanged_run hsub hquiet hkept
  have hregistry : (s.onBatch env x t m batch).registry = pruneJournal (applyAll env t s.registry
      (notBootstrapped s.loop batch).accepted) s.loop.follower.finalityKeep := by
    obtain ⟨hfollower, -⟩ := @onBatch_letThrough env t m s.loop batch hpass
    simp only [Daemon.registry, Daemon.onBatch, hpass, h, Bool.false_eq_true, if_false]
    rw [hfollower]
    simp only [Follower.step, hremoved, List.foldl_nil]
    rfl
  rw [hregistry]
  refine ⟨hutxos, ?_⟩
  have hjournal := @applyAll_journal env t s.registry (notBootstrapped s.loop batch).accepted
  have hlive : liveEntries (applyAll env t s.registry
      (notBootstrapped s.loop batch).accepted).journal = liveEntries s.registry.journal := by
    rw [hjournal]
    unfold liveEntries at hentries ⊢
    rw [List.filterMap_append, hentries, List.append_nil]
  rw [← hlive]
  exact (List.drop_suffix _ _).filterMap _

end

/-- The text written for a journal parses to the value it was printed from. -/
def Parses (x : TextEnv) (journal : List UndoEntry) : Prop :=
  x.parse (encodeJournal x journal) = some (journalValue x journal)

/-- The tables hold what `persist` wrote of the registry. -/
structure Holds (env : Env) (x : TextEnv) (tables : Tables) (r : Registry) : Prop where
  padded : NamesPadded r
  parses : Parses x r.journal
  rows : tables.utxos = utxoRows env r.utxos
  journal : tables.undoJournal = some (encodeJournal x r.journal)
  checkpoint : tables.checkpoint.isSome

/-- A live entry as the store gives it back. -/
def readLive (e : LiveEntry) : LiveEntry :=
  { e with removed := e.removed.map fun p => (p.1, readState p.2) }

theorem readLive_readLive (e : LiveEntry) : readLive (readLive e) = readLive e := by
  simp [readLive, Function.comp_def, readState_readState]

theorem liveEntries_readJournal (journal : List UndoEntry) :
    liveEntries (readJournal journal) = (liveEntries journal).map readLive := by
  unfold liveEntries readJournal
  induction journal with
  | nil => rfl
  | cons e journal ih =>
    by_cases hnil : e.added = [] ∧ e.removed = []
    · have hnone : liveEntry e = none := if_pos hnil
      rw [List.filter_cons_of_neg (by simp [hnil]), ih, List.filterMap_cons_none hnone]
    · have hsome : liveEntry e = some ⟨e.block, e.added, e.removed⟩ := if_neg hnil
      have hlive : liveEntry (readEntry e) = some (readLive ⟨e.block, e.added, e.removed⟩) :=
        if_neg (by simpa [readEntry] using hnil)
      rw [List.filter_cons_of_pos (by simpa using not_and_or.mp hnil), List.map_cons,
        List.filterMap_cons_some hlive, ih, List.filterMap_cons_some hsome, List.map_cons]

section
variable {env : Env} {x : TextEnv} {t : Templates} {m : Manifest} {tables : Tables} {r : Registry}

theorem Holds.load (hhex : ∀ b, env.hexDecode (x.hexEncode b) = some b)
    (h : Holds env x tables r) : (NamesStore.load env x tables).utxos = r.utxos ∧
      (NamesStore.load env x tables).journal = readJournal r.journal := by
  simp only [NamesStore.load, h.rows, h.journal, Option.bind_some]
  rw [journal_read hhex h.parses]
  exact ⟨loadUtxos_utxoRows h.padded.tracked, rfl⟩

theorem NamesPadded.read (h : NamesPadded r) {r' : Registry} (hutxos : r'.utxos = r.utxos)
    (hjournal : r'.journal = readJournal r.journal) : NamesPadded r' := by
  intro y hy
  rcases hy with hy | ⟨e, he, hy⟩
  · exact h.tracked y.1 y.2 (hutxos ▸ hy)
  · rw [hjournal] at he
    obtain ⟨e', he', rfl⟩ := List.mem_map.mp he
    obtain ⟨p, hp, rfl⟩ := List.mem_map.mp hy
    have hpadded : IsPadded p.2 := h p (.inr ⟨e', (List.mem_filter.mp he').1, hp⟩)
    obtain ⟨op, s⟩ := p
    cases s with
    | gap | offer | shard => exact True.intro
    | name n => exact hpadded

/-- What every state of the process keeps: padded names, a checkpoint, tables that are empty or hold
some registry; and with nothing unwritten, they hold the live set in memory, with a journal that ends
the way the one in memory does. -/
structure Durable (env : Env) (x : TextEnv) (s : Daemon) : Prop where
  padded : NamesPadded s.registry
  checkpoint : s.loop.follower.checkpoint.isSome
  stored : s.dirty = true ∧ s.tables = Tables.empty ∨ ∃ r, Holds env x s.tables r
  saved : s.dirty = false → s.boot.applied = [] → ∃ r, Holds env x s.tables r ∧
    r.utxos = s.registry.utxos ∧
    (liveEntries s.registry.journal).map readLive <:+ (liveEntries r.journal).map readLive

theorem durable_persisted {s : Daemon} {checkpoint : Option Bytes32}
    (hpadded : NamesPadded s.registry) (hparses : Parses x s.registry.journal)
    (hsome : s.loop.follower.checkpoint.isSome) (heq : s.loop.follower.checkpoint = checkpoint)
    (htables : s.tables = persist env x s.registry checkpoint) : Durable env x s := by
  have hholds : Holds env x s.tables s.registry := by
    rw [htables]
    exact ⟨hpadded, hparses, rfl, rfl, heq ▸ hsome⟩
  exact ⟨hpadded, hsome, .inr ⟨_, hholds⟩, fun _ _ => ⟨_, hholds, rfl, List.suffix_rfl⟩⟩

theorem load_registry (h : Holds env x tables r) {journalKeep : ℕ} {history : List Event} :
    (Daemon.load env x m journalKeep history tables).registry = NamesStore.load env x tables := by
  obtain ⟨checkpoint, hsome⟩ := Option.isSome_iff_exists.mp h.checkpoint
  simp [Daemon.load, hsome, Daemon.registry]

theorem padded_seeded {f : Follower} (h : NamesPadded f.registry) :
    NamesPadded ((f.seed m.scanFrom m.genesisOutpoint m.genesisGap).seedShards m.priceShards).registry :=
  List.foldlRecOn (motive := NamesPadded) m.priceShards _
    (h.seed (s := .gap m.genesisGap) True.intro) fun _ hr p _ => hr.seed (s := .shard p.2) True.intro

theorem padded_new : NamesPadded Registry.new := by
  rintro y (hy | ⟨e, he, -⟩)
  · simp [Registry.new] at hy
  · simp [Registry.new] at he

theorem durable_load (hhex : ∀ b, env.hexDecode (x.hexEncode b) = some b) {journalKeep : ℕ}
    {history : List Event} (h : tables = Tables.empty ∨ ∃ r, Holds env x tables r) :
    Durable env x (Daemon.load env x m journalKeep history tables) := by
  rcases h with rfl | ⟨r, h⟩
  · exact ⟨padded_seeded padded_new, rfl, .inl ⟨rfl, rfl⟩, fun hdirty => absurd hdirty (by simp
      [Daemon.load, Tables.empty])⟩
  · obtain ⟨checkpoint, hsome⟩ := Option.isSome_iff_exists.mp h.checkpoint
    obtain ⟨hutxos, hjournal⟩ := h.load hhex
    have hload := @load_registry env x m tables r h journalKeep history
    have htables : (Daemon.load env x m journalKeep history tables).tables = tables := by
      simp [Daemon.load, hsome]
    refine ⟨?_, by simp [Daemon.load, hsome], .inr ⟨r, by rwa [htables]⟩, fun _ _ =>
      ⟨r, by rwa [htables], by rw [hload, hutxos], ?_⟩⟩
    · rw [hload]
      exact NamesPadded.read h.padded hutxos hjournal
    · rw [hload, hjournal, liveEntries_readJournal, List.map_map]
      simp only [Function.comp_def, readLive_readLive]
      exact List.suffix_rfl

theorem walk_applies (w : Walk) (rounds : List (List RestTx)) : ∃ done : List Tx,
    (rounds.foldl (fun w candidates => (applyCandidates env t w candidates).1) w).registry =
      applyAll env t w.registry done ∧
    (rounds.foldl (fun w candidates => (applyCandidates env t w candidates).1) w).report.applied =
      w.report.applied ++ done := by
  induction rounds generalizing w with
  | nil => exact ⟨[], rfl, (List.append_nil _).symm⟩
  | cons candidates rounds ih =>
    obtain ⟨done, rest, hout, -⟩ :=
      passes_spec (fun w rt => isReady t w.registry.utxos rt) (applyRest env t) w
        (candidates.mergeSort acceptingLe)
    have hround : (applyCandidates env t w candidates).1 = run (applyRest env t) w done :=
      congrArg Prod.fst hout
    obtain ⟨hregistry, happlied⟩ := @NamesConfluence.run_applyRest env t w done
    obtain ⟨more, hmore, hmoreApplied⟩ := ih (applyCandidates env t w candidates).1
    refine ⟨done.map RestTx.tx ++ more, ?_, ?_⟩
    · rw [List.foldl_cons, hmore, hround, hregistry, applyAll_append]
    · rw [List.foldl_cons, hmoreApplied, hround, happlied, List.append_assoc]

variable {s : Daemon}

theorem Durable.batch (h : Durable env x s) {batch : VccBatch}
    (hordered : ChainOrdered batch.accepted)
    (hparses : Parses x (s.onBatch env x t m batch).registry.journal) :
    Durable env x (s.onBatch env x t m batch) := by
  cases hguard : unrevertable s.loop batch.removedBlocks with
  | some b =>
    have hrewind : s.onBatch env x t m batch =
        ⟨rewind m s.loop, true, ⟨[], []⟩, Tables.empty⟩ := by
      simp only [Daemon.onBatch, hguard]
      rw [onBatch_rewind (by simp [hguard])]
    rw [hrewind]
    exact ⟨padded_seeded padded_new, rfl, .inl ⟨rfl, rfl⟩, fun hdirty => absurd hdirty (by simp)⟩
  | none =>
    obtain ⟨hfollower, -⟩ := @onBatch_letThrough env t m s.loop batch hguard
    have hregistry : (s.onBatch env x t m batch).loop = s.loop.onBatch env t m batch := by
      simp only [Daemon.onBatch, hguard]
      split <;> rfl
    have hpadded : NamesPadded (s.onBatch env x t m batch).registry := by
      rw [Daemon.registry, hregistry, hfollower]
      exact ((h.padded.undoBlocks _).applyAll _).prune _
    have hsome : (s.onBatch env x t m batch).loop.follower.checkpoint.isSome := by
      rw [hregistry, hfollower]
      simp only [Follower.step]
      cases batch.tip with
      | none => simpa using h.checkpoint
      | some tip => rfl
    cases hchanged : s.changed env t batch with
    | true =>
      refine durable_persisted hpadded hparses hsome rfl ?_
      simp only [Daemon.onBatch, hguard, hchanged, if_true]
      rfl
    | false =>
      obtain ⟨hutxos, hlive⟩ := @unchanged_live env x t m s batch hordered hchanged hguard
      have hdirty := (changed_eq_false hchanged).1
      have hafter : (s.onBatch env x t m batch).tables = { s.tables with
            checkpoint := (s.onBatch env x t m batch).loop.follower.checkpoint } ∧
          (s.onBatch env x t m batch).boot = s.boot := by
        simp only [Daemon.onBatch, hguard, hchanged]
        exact ⟨rfl, rfl⟩
      have hholds {r : Registry} (hr : Holds env x s.tables r) :
          Holds env x (s.onBatch env x t m batch).tables r := by
        rw [hafter.1]
        exact ⟨hr.padded, hr.parses, hr.rows, hr.journal, hsome⟩
      have hstored := h.stored.resolve_left fun hfirst => by simp [hfirst.1] at hdirty
      obtain ⟨r, hr⟩ := hstored
      refine ⟨hpadded, hsome, .inr ⟨r, hholds hr⟩, fun _ hboot => ?_⟩
      obtain ⟨r, hr, hsame, hsuffix⟩ := h.saved hdirty (by rwa [hafter.2] at hboot)
      exact ⟨r, hholds hr, hsame.trans hutxos.symm, (hlive.map readLive).trans hsuffix⟩

theorem Durable.walk (h : Durable env x s) {rounds : List (List RestTx)} {sink : Option Bytes32}
    (hparses : Parses x (s.onWalk env x t rounds sink).registry.journal) :
    Durable env x (s.onWalk env x t rounds sink) := by
  obtain ⟨done, hregistry, happlied⟩ := @walk_applies env t ⟨s.registry, s.boot⟩ rounds
  have hpadded : NamesPadded (s.onWalk env x t rounds sink).registry := by
    have happly : (s.onWalk env x t rounds sink).registry = applyAll env t s.registry done := by
      rw [← hregistry]
      cases sink <;> rfl
    rw [happly]
    exact h.padded.applyAll done
  cases sink with
  | none =>
    refine ⟨hpadded, h.checkpoint, h.stored, fun hdirty hboot => ?_⟩
    -- a walk that is still empty has not moved the registry
    have hnone : s.boot.applied = [] ∧ done = [] := List.append_eq_nil_iff.mp (happlied ▸ hboot)
    obtain ⟨r, hr, hsame, hsuffix⟩ := h.saved hdirty hnone.1
    have hstill : (s.onWalk env x t rounds none).registry = s.registry := by
      rw [hnone.2] at hregistry
      exact hregistry
    rw [hstill]
    exact ⟨r, hr, hsame, hsuffix⟩
  | some sink => exact durable_persisted hpadded hparses rfl rfl rfl

/-- The batches of a run come in chain order. -/
def InOrder : Tick → Prop
  | .batch batch => ChainOrdered batch.accepted
  | _ => True

theorem Durable.next (hhex : ∀ b, env.hexDecode (x.hexEncode b) = some b) (h : Durable env x s)
    {k : Tick} (hordered : InOrder k) (hparses : Parses x (s.next env x t m k).registry.journal) :
    Durable env x (s.next env x t m k) := by
  cases k with
  | batch batch => exact h.batch hordered hparses
  | walk rounds sink => exact h.walk hparses
  | restart =>
    refine durable_load hhex (h.stored.imp_left And.right)

theorem mem_states (s : Daemon) (ticks : List Tick) : s ∈ s.states env x t m ticks := by
  cases ticks <;> simp [Daemon.states]

theorem run_mem_states (s : Daemon) (ticks : List Tick) :
    s.run env x t m ticks ∈ s.states env x t m ticks := by
  induction ticks generalizing s with
  | nil => simp [Daemon.run, Daemon.states]
  | cons k ticks ih => exact List.mem_cons_of_mem s (ih (s.next env x t m k))

theorem durable_run (hhex : ∀ b, env.hexDecode (x.hexEncode b) = some b) {ticks : List Tick}
    (hs : Durable env x s) (hordered : ∀ k ∈ ticks, InOrder k)
    (hparses : ∀ s' ∈ s.states env x t m ticks, Parses x s'.registry.journal) :
    Durable env x (s.run env x t m ticks) := by
  induction ticks generalizing s with
  | nil => exact hs
  | cons k ticks ih =>
    have hrest : ∀ s' ∈ (s.next env x t m k).states env x t m ticks,
        Parses x s'.registry.journal := fun s' hs' => hparses s' (List.mem_cons_of_mem s hs')
    have hnext := hs.next hhex (hordered k List.mem_cons_self) (hrest _ (mem_states _ ticks))
    exact ih hnext (fun k' hk' => hordered k' (List.mem_cons_of_mem k hk')) hrest

end

/-- No integer of a state that the entries would restore is the one without an encoding. -/
def HasEncoding (journal : List UndoEntry) : Prop :=
  ∀ e ∈ journal, ∀ p ∈ e.removed, ∀ v ∈ stateInts p.2, v ≠ Int64.minValue

/-- The journal without its profile undo. -/
def withoutProfiles (journal : List UndoEntry) : List UndoEntry :=
  (journal.filter fun e => e.added ≠ [] ∨ e.removed ≠ []).map fun e => { e with profile := none }

/-- The live entries that undo a block. -/
def entriesOf (r : Registry) (block : Bytes32) : List LiveEntry :=
  (liveEntries r.journal).filter fun e => e.block = block

theorem undoBlock_utxos (r : Registry) (block : Bytes32) :
    (undoBlock r block).utxos = undoAll LiveEntry.undo r.utxos (entriesOf r block) :=
  congrArg Prod.fst (undoBlocks_live r [block])

theorem readStates_eq {removed : List (Outpoint × Tracked)}
    (h : ∀ p ∈ removed, ∀ v ∈ stateInts p.2, v ≠ Int64.minValue) :
    removed.map (fun p => (p.1, readState p.2)) = removed := by
  conv_rhs => rw [← List.map_id removed]
  exact List.map_congr_left fun p hp => Prod.ext rfl (readState_eq (h p hp))

theorem readJournal_eq {journal : List UndoEntry} (h : HasEncoding journal) :
    readJournal journal = withoutProfiles journal := by
  refine List.map_congr_left fun e he => ?_
  simp only [readEntry, readStates_eq (h e (List.mem_filter.mp he).1)]

/-- What the process is to show at a state of its run. -/
structure RestartTransparent (env : Env) (x : TextEnv) (t : Templates) (m : Manifest) (s : Daemon) :
    Prop where
  /-- A batch that changes nothing by the test of the main loop leaves the live set alone. -/
  unchanged : ∀ batch, ChainOrdered batch.accepted →
    unrevertable s.loop batch.removedBlocks = none → s.changed env t batch = false →
      (s.onBatch env x t m batch).registry.utxos = s.registry.utxos
  /-- Where it says that something changed, the rows are those of the live set after it. -/
  rewritten : ∀ batch, unrevertable s.loop batch.removedBlocks = none →
    s.changed env t batch = true → (s.onBatch env x t m batch).tables.utxos =
      utxoRows env (s.onBatch env x t m batch).registry.utxos
  /-- With nothing unwritten, the rows are those of the live set in memory. -/
  described : s.dirty = false → s.boot.applied = [] →
    s.tables.utxos = utxoRows env s.registry.utxos
  /-- What is written now loads as the same live set, and as the same journal but for profiles. -/
  loaded : ∀ checkpoint,
    (load env x (persist env x s.registry checkpoint)).utxos = s.registry.utxos ∧
      (HasEncoding s.registry.journal → (load env x (persist env x s.registry checkpoint)).journal =
        withoutProfiles s.registry.journal)
  /-- Undoing a block, none of whose stored entries has been pruned from memory since, comes to the
  same after a restart. -/
  undone : s.dirty = false → s.boot.applied = [] → ∀ block,
    (entriesOf (s.restart env x m).registry block).length = (entriesOf s.registry block).length →
    HasEncoding (s.registry.journal.filter fun e => e.block = block) →
      (undoBlock (s.restart env x m).registry block).utxos = (undoBlock s.registry block).utxos

section
variable {env : Env} {x : TextEnv} {t : Templates} {m : Manifest} {s : Daemon}

theorem entriesOf_read {r : Registry} {block : Bytes32}
    (h : HasEncoding (r.journal.filter fun e => e.block = block)) :
    (entriesOf r block).map readLive = entriesOf r block := by
  conv_rhs => rw [← List.map_id (entriesOf r block)]
  refine List.map_congr_left fun e he => ?_
  obtain ⟨hmem, hblock⟩ := List.mem_filter.mp he
  obtain ⟨e', he', hlive⟩ := List.mem_filterMap.mp hmem
  have hblock' : e'.block = block := by
    rw [← liveEntry_block hlive]
    simpa using hblock
  have hremoved : e.removed = e'.removed := by
    unfold liveEntry at hlive
    split at hlive <;> cases hlive
    rfl
  have hencoding := h e' (List.mem_filter.mpr ⟨he', by simpa using hblock'⟩)
  simp only [readLive, id, readStates_eq (hremoved ▸ hencoding)]

theorem Durable.transparent (hhex : ∀ b, env.hexDecode (x.hexEncode b) = some b)
    (h : Durable env x s) (hparses : Parses x s.registry.journal) :
    RestartTransparent env x t m s where
  unchanged batch hordered hpass hchanged := (unchanged_live hordered hchanged hpass).1
  rewritten batch hpass hchanged := by
    simp only [Daemon.onBatch, hpass, hchanged, if_true]
    rfl
  described hdirty hboot := by
    obtain ⟨r, hr, hsame, -⟩ := h.saved hdirty hboot
    rw [hr.rows, hsame]
  loaded checkpoint := by
    have hholds : Holds env x (persist env x s.registry (some zero32)) s.registry :=
      ⟨h.padded, hparses, rfl, rfl, rfl⟩
    obtain ⟨hutxos, hjournal⟩ := hholds.load hhex
    exact ⟨hutxos, fun hencoding => hjournal.trans (readJournal_eq hencoding)⟩
  undone hdirty hboot block hlength hencoding := by
    obtain ⟨r, hr, hsame, hsuffix⟩ := h.saved hdirty hboot
    obtain ⟨hutxos, hjournal⟩ := hr.load hhex
    have hrestart : (s.restart env x m).registry = NamesStore.load env x s.tables := load_registry hr
    have hstored : entriesOf (s.restart env x m).registry block =
        ((liveEntries r.journal).map readLive).filter fun e => e.block = block := by
      rw [entriesOf, hrestart, hjournal, liveEntries_readJournal]
    have hmemory : (entriesOf s.registry block).map readLive =
        ((liveEntries s.registry.journal).map readLive).filter fun e => e.block = block := by
      rw [List.filter_map]
      rfl
    have hsame' : entriesOf s.registry block = entriesOf (s.restart env x m).registry block := by
      rw [← entriesOf_read hencoding]
      refine List.IsSuffix.eq_of_length ?_ (by rw [List.length_map, hlength])
      rw [hmemory, hstored]
      exact hsuffix.filter _
    rw [undoBlock_utxos, undoBlock_utxos, ← hsame', hrestart, hutxos, hsame]

/-- In every run whose batches come in chain order. -/
theorem restart_transparent (env : Env) (x : TextEnv) (t : Templates) (m : Manifest)
    (journalKeep : ℕ) (ticks : List Tick) (hhex : ∀ b, env.hexDecode (x.hexEncode b) = some b)
    (hordered : ∀ k ∈ ticks, InOrder k)
    (hparses : ∀ s ∈ (Daemon.start env x m journalKeep).states env x t m ticks,
      Parses x s.registry.journal) :
    RestartTransparent env x t m ((Daemon.start env x m journalKeep).run env x t m ticks) := by
  have hstart : Durable env x (Daemon.start env x m journalKeep) := durable_load hhex (.inl rfl)
  have hrun := durable_run hhex hstart hordered hparses
  exact hrun.transparent hhex (hparses _ (run_mem_states _ ticks))

end

mutual
/-- `Value::to_string`, on values whose strings need no escape. -/
def printJson : Json → Bytes
  | .null => ascii "null"
  | .bool b => ascii (if b then "true" else "false")
  | .u64 n => decimal n.toNat
  | .number => ascii "-1"
  | .string s => [0x22] ++ s ++ [0x22]
  | .array items => [0x5b] ++ printItems items ++ [0x5d]
  | .object members => [0x7b] ++ printMembers members ++ [0x7d]

def printItems : List Json → Bytes
  | [] => []
  | [v] => printJson v
  | v :: vs => printJson v ++ [0x2c] ++ printItems vs

def printMembers : List (Bytes × Json) → Bytes
  | [] => []
  | [(key, v)] => [0x22] ++ key ++ [0x22, 0x3a] ++ printJson v
  | (key, v) :: ms => [0x22] ++ key ++ [0x22, 0x3a] ++ printJson v ++ [0x2c] ++ printMembers ms
end

/-- The crates as far as they write. -/
def writer : TextEnv := ⟨NamesSample.hexEncode, printJson, fun _ => none⟩

/-- The crates on the journals of a list: a text parses if one of them is written so. -/
def sampleTexts (journals : List (List UndoEntry)) : TextEnv :=
  { writer with
    parse := fun text =>
      (journals.find? fun j => encodeJournal writer j = text).map (journalValue writer) }

/-- The entries that are written. -/
def written (journal : List UndoEntry) : List UndoEntry :=
  journal.filter fun e => e.added ≠ [] ∨ e.removed ≠ []

/-- The first journal of the list with the text of this one has the same entries written. -/
def Listed (journals : List (List UndoEntry)) (journal : List UndoEntry) : Prop :=
  (journals.find? fun j => encodeJournal writer j = encodeJournal writer journal).map written =
    some (written journal)

instance (journals : List (List UndoEntry)) (journal : List UndoEntry) :
    Decidable (Listed journals journal) := inferInstanceAs (Decidable (_ = _))

theorem journalValue_congr {x y : TextEnv} (h : x.hexEncode = y.hexEncode) :
    journalValue x = journalValue y := by
  cases x
  cases y
  cases h
  rfl

theorem Listed.parses {journals : List (List UndoEntry)} {journal : List UndoEntry}
    (h : Listed journals journal) : Parses (sampleTexts journals) journal := by
  obtain ⟨j, hfind, hwritten⟩ := Option.map_eq_some_iff.mp h
  have hvalue : journalValue (sampleTexts journals) = journalValue writer := journalValue_congr rfl
  have hparse : (sampleTexts journals).parse (encodeJournal writer journal) =
      some (journalValue writer j) := congrArg (Option.map (journalValue writer)) hfind
  rw [Parses, encodeJournal, hvalue]
  refine hparse.trans ?_
  exact congrArg (fun l => some (Json.array (l.map (entryValue writer)))) hwritten

theorem hexDigit_encode : ∀ b : BitVec 8,
    (NamesSample.hexEncode [⟨b⟩]).map NamesSample.hexDigit =
      [some (⟨b⟩ / 16), some (⟨b⟩ % 16)] ∧ 16 * (⟨b⟩ / 16) + ⟨b⟩ % 16 = (⟨b⟩ : UInt8) := by
  decide +kernel

theorem hexDecode_hexEncode (b : Bytes) :
    NamesSample.env.hexDecode (NamesSample.hexEncode b) = some b := by
  change NamesSample.hexDecode _ = _
  induction b with
  | nil => rfl
  | cons c b ih =>
    obtain ⟨hdigits, hsum⟩ := hexDigit_encode c.toBitVec
    simp only [NamesSample.hexEncode, List.flatMap_cons, List.flatMap_nil, List.append_nil,
      List.map_cons, List.map_nil, List.cons.injEq, and_true, List.cons_append, List.nil_append,
      NamesSample.hexDecode] at hdigits ih ⊢
    rw [hdigits.1, hdigits.2, ih]
    exact congrArg (fun d => some (d :: b)) hsum

def sampleManifest : Manifest :=
  ⟨NamesSample.fill 0, NamesSample.genesis, NamesSample.genesisGap, []⟩

/-- The batch that accepts one transaction. -/
def accepts (tx : Tx) : Tick := .batch ⟨[], [tx], some tx.acceptingBlock⟩

instance : ∀ k, Decidable (InOrder k)
  | .batch batch => inferInstanceAs (Decidable (ChainOrdered batch.accepted))
  | .walk _ _ | .restart => isTrue True.intro

/-- The states of a run over the sample registry. -/
def sampleStates (x : TextEnv) (journalKeep : ℕ) (ticks : List Tick) : List Daemon :=
  (Daemon.start ProfilesRestart.sampleEnv x sampleManifest journalKeep).states
    ProfilesRestart.sampleEnv x NamesSample.templates sampleManifest ticks

def sampleRun (x : TextEnv) (journalKeep : ℕ) (ticks : List Tick) : Daemon :=
  (Daemon.start ProfilesRestart.sampleEnv x sampleManifest journalKeep).run
    ProfilesRestart.sampleEnv x NamesSample.templates sampleManifest ticks

/-- The crates on the journals of a run without restarts, which reads no text. -/
def runTexts (journalKeep : ℕ) (ticks : List Tick) : TextEnv :=
  sampleTexts ((sampleStates writer journalKeep ticks).map fun s => s.registry.journal)

/-- `alice` registered, then a profile saved: with one entry kept, the second prunes the first. -/
def registerThenSave : List Tick :=
  [accepts NamesSample.registerAlice, accepts ProfilesRestart.saveProfile]

/-- The same with a restart in between. -/
def restartBetween : List Tick :=
  [accepts NamesSample.registerAlice, .restart, accepts ProfilesRestart.saveProfile]

/-- Every journal of a run is written like one that its crates know. -/
theorem run_parses {journals : List (List UndoEntry)} {journalKeep : ℕ} {ticks : List Tick}
    (h : ∀ s ∈ sampleStates (sampleTexts journals) journalKeep ticks,
      Listed journals s.registry.journal) :
    ∀ s ∈ sampleStates (sampleTexts journals) journalKeep ticks,
      Parses (sampleTexts journals) s.registry.journal := fun s hs => (h s hs).parses

/-- After the restart, the new process prunes what the old one wrote. -/
theorem restart_between : RestartTransparent ProfilesRestart.sampleEnv
    (runTexts 1 registerThenSave) NamesSample.templates sampleManifest
    (sampleRun (runTexts 1 registerThenSave) 1 restartBetween) :=
  restart_transparent ProfilesRestart.sampleEnv (runTexts 1 registerThenSave) NamesSample.templates
    sampleManifest 1 restartBetween hexDecode_hexEncode (by decide +kernel)
    (run_parses (by decide +kernel))

/-- The property holds at the end of every run. -/
def InEveryRun (P : Env → TextEnv → Manifest → Daemon → Prop) : Prop :=
  ∀ env x t m journalKeep ticks, (∀ b, env.hexDecode (x.hexEncode b) = some b) →
    (∀ k ∈ ticks, InOrder k) → (∀ s ∈ (Daemon.start env x m journalKeep).states env x t m ticks,
      Parses x s.registry.journal) → P env x m ((Daemon.start env x m journalKeep).run env x t m ticks)

def RowsDescribe (env : Env) (_ : TextEnv) (_ : Manifest) (s : Daemon) : Prop :=
  s.tables.utxos = utxoRows env s.registry.utxos

def CleanRowsDescribe (env : Env) (_ : TextEnv) (_ : Manifest) (s : Daemon) : Prop :=
  s.dirty = false → s.tables.utxos = utxoRows env s.registry.utxos

def JournalLoads (env : Env) (x : TextEnv) (_ : Manifest) (s : Daemon) : Prop :=
  (load env x (persist env x s.registry none)).journal = withoutProfiles s.registry.journal

def UndoUnseen (env : Env) (x : TextEnv) (m : Manifest) (s : Daemon) : Prop :=
  ∀ block, (undoBlock (s.restart env x m).registry block).utxos = (undoBlock s.registry block).utxos

/-- `alice` for sale at the least integer, written as a nine-byte script number. -/
def listAlice : Tx where
  id := NamesSample.fill 0x45
  inputs := [NamesSample.input NamesSample.aliceOutpoint [[0, 0, 0, 0, 0, 0, 0, 0x80, 0]]
    [0x67, 0x4a, 0x8e, 0xa4] (NamesSample.templates.name.redeem
      (NamesSample.aliceName (NamesSample.fill 7)).encode)]
  outputs := [NamesSample.output (NamesSample.templates.nameSpk NamesSample.env
    { NamesSample.aliceName (NamesSample.fill 7) with price := Int64.minValue })]
  payload := []
  acceptingBlock := NamesSample.fill 0xbc
  acceptingDaa := 585800000
  blockTime := NamesSample.now
  inputs_le := by decide
  outputs_le := by decide
  inputs_ne_id := by decide

/-- The listed name in other hands. -/
def takeAlice : Tx where
  id := NamesSample.fill 0x46
  inputs := [NamesSample.input (NamesSample.fill 0x45, 0) [(NamesSample.fill 8).toList]
    [0x79, 0x4d, 0xca, 0x54] [0x51]]
  outputs := [NamesSample.output (NamesSample.templates.nameSpk NamesSample.env
    (NamesSample.aliceName (NamesSample.fill 8)))]
  payload := []
  acceptingBlock := NamesSample.fill 0xbd
  acceptingDaa := 585800000
  blockTime := NamesSample.now
  inputs_le := by decide
  outputs_le := NamesSample.transferAlice.outputs_le
  inputs_ne_id := by decide

def listThenTake : List Tick :=
  [accepts NamesSample.registerAlice, accepts listAlice, accepts takeAlice]

/-- The registration, pruned from memory by the profile, is removed by a reorg. -/
def saveThenReorg : List Tick := registerThenSave ++
  [.batch ⟨[NamesSample.registerAlice.acceptingBlock], [], none⟩]

/-- A transfer that an incomplete walk applies after the registration was written. -/
def registerThenWalk : List Tick :=
  [accepts NamesSample.registerAlice, .walk [[⟨NamesSample.transferAlice, [none]⟩]] none]

/-- The rows that a rewind emptied, a walk that is not yet written, a price without an encoding, and
an entry that only the store still has. -/
theorem restart_seen : ¬ InEveryRun RowsDescribe ∧ ¬ InEveryRun CleanRowsDescribe ∧
    ¬ InEveryRun JournalLoads ∧ ¬ InEveryRun UndoUnseen := by
  refine ⟨fun h => ?_, fun h => ?_, fun h => ?_, fun h => ?_⟩
  · have hrun := h ProfilesRestart.sampleEnv (runTexts 1 saveThenReorg) NamesSample.templates
      sampleManifest 1 saveThenReorg hexDecode_hexEncode (by decide +kernel)
      (run_parses (by decide +kernel))
    exact absurd (congrArg List.length hrun) (by decide +kernel)
  · have hrun := h ProfilesRestart.sampleEnv (runTexts 1 registerThenWalk) NamesSample.templates
      sampleManifest 1 registerThenWalk hexDecode_hexEncode (by decide +kernel)
      (run_parses (by decide +kernel)) (by decide +kernel)
    exact absurd hrun (by decide +kernel)
  · have hrun := h ProfilesRestart.sampleEnv (runTexts 1 listThenTake) NamesSample.templates
      sampleManifest 1 listThenTake hexDecode_hexEncode (by decide +kernel)
      (run_parses (by decide +kernel))
    unfold JournalLoads at hrun
    exact absurd hrun (by decide +kernel)
  · have hrun := h ProfilesRestart.sampleEnv (runTexts 1 registerThenSave) NamesSample.templates
      sampleManifest 1 registerThenSave hexDecode_hexEncode (by decide +kernel)
      (run_parses (by decide +kernel)) (NamesSample.fill 0xbb)
    exact absurd (congrArg (Finmap.lookup NamesSample.genesis) hrun) (by decide +kernel)

end KaChatIndexer.NamesRestart

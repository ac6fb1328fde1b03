import KaChatIndexer.FollowerReorg
import KaChatIndexer.NewestWins
import KaChatIndexer.ProfilesFollower

/-!
# Profiles across reorgs and restarts

The stored profiles of addresses are newest-wins registers over the records of the chain. A restart
keeps the registers and loses the log, so a reorg undoes only what was applied since.
-/
namespace KaChatIndexer.ProfilesRestart
open ByteStrings NamesState NamesEnv NamesRegistry NamesApply NamesStep NamesReorg FollowerLoop
open FollowerReorg ProfilesFollower FinmapPatch UndoLog ReplayLog NewestWins

/-- The order of profile rows: by accepting DAA score, then by transaction id. -/
def rowGt (a b : ProfileRow) : Bool := orderGt a.2 b.2

abbrev ProfileWrite := Write Bytes32 Bytes ProfileRow
abbrev ProfileEntry := Entry Bytes32 Bytes ProfileRow

section
variable (env : Env) (p : ProfilesEnv)

/-- The record of a transaction, as a write to the profile of its address. -/
def profileWrite (tx : Tx) : Option ProfileWrite :=
  ((profileRecord env tx).filter fun r => (p.spkAddress r.1).isSome).map fun r =>
    ⟨tx.acceptingBlock, r.1, r.2⟩

/-- The valid self-send records of addresses, in chain order. -/
def profileWrites (txs : List Tx) : List ProfileWrite := txs.filterMap (profileWrite env p)

/-- The profiles of addresses. -/
def addressed (profiles : ProfileMap) (spk : Bytes) : Option ProfileRow :=
  if (p.spkAddress spk).isSome then profiles.lookup spk else none

def profileEntry (e : UndoEntry) : Option ProfileEntry :=
  (e.profile.filter fun r => (p.spkAddress r.1).isSome).map fun r => ⟨e.block, r.1, r.2⟩

def profileEntries (journal : List UndoEntry) : List ProfileEntry := journal.filterMap (profileEntry p)

end

section
variable {env : Env} {p : ProfilesEnv}

theorem addressed_insert (profiles : ProfileMap) (spk : Bytes) (row : ProfileRow) :
    addressed p (profiles.insert spk row) =
      if (p.spkAddress spk).isSome then Function.update (addressed p profiles) spk (some row)
      else addressed p profiles := by
  funext k
  by_cases hk : k = spk
  · subst hk
    by_cases h : (p.spkAddress k).isSome <;> simp [addressed, h]
  · by_cases h : (p.spkAddress spk).isSome <;> simp [addressed, h, hk]

theorem addressed_erase (profiles : ProfileMap) (spk : Bytes) :
    addressed p (profiles.erase spk) =
      if (p.spkAddress spk).isSome then Function.update (addressed p profiles) spk none
      else addressed p profiles := by
  funext k
  by_cases hk : k = spk
  · subst hk
    by_cases h : (p.spkAddress k).isSome <;> simp [addressed, h]
  · by_cases h : (p.spkAddress spk).isSome <;> simp [addressed, h, hk]

/-- What the journal undoes to the profiles of addresses. -/
theorem seen_profiles : Seen undoEntry UndoEntry.block NewestWins.undo Entry.tag
    (fun s : UtxoMap × ProfileMap => addressed p s.2) (profileEntry p) where
  some {s e e'} h := by
    obtain ⟨⟨spk, prior⟩, hfilter, rfl⟩ := Option.map_eq_some_iff.mp h
    obtain ⟨hp, haddr⟩ := Option.filter_eq_some_iff.mp hfilter
    cases prior <;> simp [undoEntry, hp, NewestWins.undo, addressed_insert, addressed_erase, haddr]
  none {s e} h := by
    cases hp : e.profile with
    | none => simp [undoEntry, hp]
    | some r =>
      obtain ⟨spk, prior⟩ := r
      have haddr : ¬ (p.spkAddress spk).isSome = true := by
        intro haddr
        simp [profileEntry, hp, Option.filter, haddr] at h
      cases prior <;> simp [undoEntry, hp, addressed_insert, addressed_erase, haddr]
  tag {e e'} h := by
    obtain ⟨r, -, rfl⟩ := Option.map_eq_some_iff.mp h
    rfl

theorem undoBlocks_addressed (r : Registry) (removed : List Bytes32) :
    (addressed p (undoBlocks r removed).profiles, profileEntries p (undoBlocks r removed).journal) =
      undoTags NewestWins.undo Entry.tag (addressed p r.profiles, profileEntries p r.journal)
        removed := by
  have hseen := seen_undoTags (@seen_profiles p) (Registry.rows r, r.journal) removed
  rw [← undoBlocks_rows] at hseen
  exact hseen

theorem profileWrites_cons (tx : Tx) (txs : List Tx) :
    profileWrites env p (tx :: txs) = (profileWrite env p tx).toList ++ profileWrites env p txs := by
  cases h : profileWrite env p tx <;> simp [profileWrites, h]

/-- An accepted transaction writes its record to the profiles of addresses, and logs the write. -/
theorem applyProfileOnly_addressed (r : Registry) (tx : Tx) :
    (addressed p (applyProfileOnly env r tx).1.profiles,
        profileEntries p (applyProfileOnly env r tx).1.journal) =
      ((registers rowGt).run (addressed p r.profiles) (profileWrite env p tx).toList,
        profileEntries p r.journal ++
          (registers rowGt).runLog (addressed p r.profiles) (profileWrite env p tx).toList) := by
  cases hrec : profileRecord env tx with
  | none =>
    have hwrite : profileWrite env p tx = none := by simp [profileWrite, hrec]
    simp [applyProfileOnly, applyProfile, hrec, hwrite, Machine.run, Machine.runLog]
  | some x =>
    obtain ⟨spk, row⟩ := x
    by_cases haddr : (p.spkAddress spk).isSome = true
    · have hwrite : profileWrite env p tx = some ⟨tx.acceptingBlock, spk, row⟩ := by
        simp [profileWrite, hrec, Option.filter, haddr]
      have hlookup : addressed p r.profiles spk = r.profiles.lookup spk := if_pos haddr
      by_cases hnew : (r.profiles.lookup spk).all (fun prior => orderGt row.2 prior.2) = true
      · have hnewer : newer rowGt (addressed p r.profiles)
            (⟨tx.acceptingBlock, spk, row⟩ : ProfileWrite) = true := by
          rw [newer, hlookup]
          exact hnew
        simp [applyProfileOnly, applyProfile, hrec, hwrite, hnew, Machine.run, Machine.runLog,
          registers, write, entries, hnewer, addressed_insert, haddr, hlookup, profileEntries,
          profileEntry, Option.filter]
      · have hnewer : ¬ newer rowGt (addressed p r.profiles)
            (⟨tx.acceptingBlock, spk, row⟩ : ProfileWrite) = true := by
          rw [newer, hlookup]
          exact hnew
        simp [applyProfileOnly, applyProfile, hrec, hwrite, hnew, Machine.run, Machine.runLog,
          registers, write, entries, hnewer]
    · have hwrite : profileWrite env p tx = none := by
        simp [profileWrite, hrec, Option.filter, haddr]
      rw [hwrite]
      by_cases hnew : (r.profiles.lookup spk).all (fun prior => orderGt row.2 prior.2) = true <;>
        simp [applyProfileOnly, applyProfile, hrec, hnew, Machine.run, Machine.runLog,
          addressed_insert, haddr, profileEntries, profileEntry, Option.filter]

theorem applyProfiles_addressed (r : Registry) (txs : List Tx) :
    (addressed p (applyProfiles env r txs).profiles,
        profileEntries p (applyProfiles env r txs).journal) =
      ((registers rowGt).run (addressed p r.profiles) (profileWrites env p txs),
        profileEntries p r.journal ++
          (registers rowGt).runLog (addressed p r.profiles) (profileWrites env p txs)) := by
  induction txs generalizing r with
  | nil => simp [applyProfiles, profileWrites, Machine.run, Machine.runLog]
  | cons tx txs ih =>
    have hstep := @applyProfileOnly_addressed env p r tx
    rw [Prod.mk.injEq] at hstep
    have hcons : applyProfiles env r (tx :: txs) = applyProfiles env (applyProfileOnly env r tx).1 txs :=
      rfl
    rw [hcons, ih, hstep.1, hstep.2, profileWrites_cons, Machine.run_append, Machine.runLog_append,
      List.append_assoc]

/-- Rows of addresses, written where the profile changed. -/
theorem lookup_writeRow {after rows : ProfileMap}
    (hrows : ∀ spk, (p.spkAddress spk).isSome = false → rows.lookup spk = none) (spk k : Bytes) :
    (writeRow p after rows spk).lookup k = if k = spk then addressed p after k else rows.lookup k := by
  unfold writeRow
  cases hafter : after.lookup spk with
  | none =>
    simp only [lookup_erase_of]
    split
    · next hk => rw [hk, addressed, hafter, ite_self]
    · rfl
  | some row =>
    by_cases haddr : (p.spkAddress spk).isSome = true
    · simp only [haddr, if_true, lookup_insert_of]
      split
      · next hk => rw [hk, addressed, if_pos haddr, hafter]
      · rfl
    · simp only [haddr, if_false, Bool.false_eq_true]
      split
      · next hk => rw [hk, addressed, if_neg haddr, hrows spk (by simpa using haddr)]
      · rfl

theorem lookup_foldl_writeRow {after : ProfileMap} (spks : List Bytes) {rows : ProfileMap}
    (hrows : ∀ spk, (p.spkAddress spk).isSome = false → rows.lookup spk = none) (k : Bytes) :
    (spks.foldl (writeRow p after) rows).lookup k =
      if k ∈ spks then addressed p after k else rows.lookup k := by
  induction spks generalizing rows with
  | nil => simp
  | cons spk spks ih =>
    have hnext : ∀ k, (p.spkAddress k).isSome = false →
        (writeRow p after rows spk).lookup k = none := by
      intro k hk
      rw [lookup_writeRow hrows]
      split
      · simp [addressed, hk]
      · exact hrows k hk
    rw [List.foldl_cons, ih hnext, lookup_writeRow hrows]
    by_cases hk : k = spk
    · subst hk
      simp
    · simp [hk]

theorem writeRows_addressed {before after rows : ProfileMap}
    (hrows : ∀ spk, rows.lookup spk = addressed p before spk) (spk : Bytes) :
    (writeRows p before after rows).lookup spk = addressed p after spk := by
  have hnone : ∀ spk, (p.spkAddress spk).isSome = false → rows.lookup spk = none := by
    intro spk haddr
    rw [hrows, addressed, if_neg (by simp [haddr])]
  unfold writeRows
  rw [lookup_foldl_writeRow _ hnone]
  split
  · rfl
  · next hmem =>
    have hsame : before.lookup spk = after.lookup spk := by
      by_contra hne
      apply hmem
      rw [(p.iter _).2.2, changedProfiles, Finset.mem_filter, Finset.mem_union, Finmap.mem_keys,
        Finmap.mem_keys]
      refine ⟨?_, hne⟩
      by_contra hout
      rw [not_or, ← Finmap.lookup_eq_none, ← Finmap.lookup_eq_none] at hout
      exact hne (hout.1.trans hout.2.symm)
    rw [hrows, addressed, addressed, hsame]

/-- A batch without removed blocks and profile payloads leaves the profiles alone. -/
theorem applyProfileOnly_other {r : Registry} {tx : Tx}
    (h : (ascii "kchat:1:profile:").isPrefixOf tx.payload = false) :
    (applyProfileOnly env r tx).1 = r := by
  have hstrip : stripPrefix (ascii "kchat:1:profile:") tx.payload = none := by
    cases hs : stripPrefix (ascii "kchat:1:profile:") tx.payload with
    | none => rfl
    | some rest => rw [stripPrefix_isPrefixOf hs] at h; cases h
  have hrec : profileRecord env tx = none := by
    unfold profileRecord
    rw [hstrip]
    cases isUtf8 tx.payload <;> simp [guard, failure]
  simp [applyProfileOnly, applyProfile, hrec]

theorem onBatch_rows {s : Profiles} {batch : VccBatch}
    (hrows : ∀ spk, s.rows.lookup spk = addressed p s.follower.registry.profiles spk) (spk : Bytes) :
    (s.onBatch env p batch).rows.lookup spk =
      addressed p (s.onBatch env p batch).follower.registry.profiles spk := by
  by_cases htouches : touches batch = true
  · simp only [Profiles.onBatch, if_pos htouches]
    exact writeRows_addressed hrows spk
  · have hrows' : (s.onBatch env p batch).rows = s.rows := by
      simp only [Profiles.onBatch, if_neg htouches]
    simp only [touches, ne_eq, decide_not, Bool.or_eq_true, Bool.not_eq_true', decide_eq_false_iff_not,
      List.any_eq_true, not_or, not_not, not_exists, not_and, Bool.not_eq_true] at htouches
    have hsame : applyProfiles env s.follower.registry batch.accepted = s.follower.registry :=
      List.foldlRecOn (motive := fun r => r = s.follower.registry) batch.accepted _ rfl
        fun r hr tx htx => by rw [applyProfileOnly_other (htouches.2 tx htx), hr]
    have hprofiles : (s.onBatch env p batch).follower.registry.profiles =
        s.follower.registry.profiles := by
      simp only [Profiles.onBatch, stepProfiles, htouches.1, List.foldl_nil, hsame, pruneJournal]
    rw [hrows', hrows, hprofiles]

end

/-- What comes next: a batch, or a restart of the process. -/
inductive Tick
  | batch (c : Change)
  | restart (journalKeep : ℕ) (scanFrom : Bytes32)

/-- The profiles follower with the chain blocks it has processed. -/
structure Tracking where
  profiles : Profiles
  chain : List ChainBlock

/-- What holds of each tick of a run, at the state in which it comes. -/
def Throughout (next : Tracking → Tick → Tracking) (P : Tracking → Tick → Prop) :
    Tracking → List Tick → Prop
  | _, [] => True
  | s, k :: ticks => P s k ∧ Throughout next P (next s k) ticks

instance decidableThroughout {next : Tracking → Tick → Tracking} {P : Tracking → Tick → Prop}
    [∀ s k, Decidable (P s k)] : ∀ s ticks, Decidable (Throughout next P s ticks)
  | _, [] => isTrue trivial
  | s, k :: ticks =>
    have : Decidable (Throughout next P (next s k) ticks) := decidableThroughout (next s k) ticks
    inferInstanceAs (Decidable (P s k ∧ Throughout next P (next s k) ticks))

section
variable (env : Env) (p : ProfilesEnv)

def remaining (s : Tracking) (c : Change) : List ChainBlock := s.chain.take (s.chain.length - c.depth)

def undone (s : Tracking) (c : Change) : List ChainBlock := s.chain.drop (s.chain.length - c.depth)

def nextTip (s : Tracking) (c : Change) : List ChainBlock := remaining s c ++ c.blocks

/-- The batch that tells the change, removed blocks newest first. -/
def tickBatch (s : Tracking) (c : Change) : VccBatch where
  removedBlocks := (hashes (undone s c)).reverse
  accepted := chainTxs c.blocks
  tip := (hashes c.blocks).getLast?

def Tracking.next (s : Tracking) : Tick → Tracking
  | .batch c => ⟨s.profiles.onBatch env p (tickBatch s c), nextTip s c⟩
  | .restart journalKeep scanFrom => ⟨s.profiles.restart journalKeep scanFrom, s.chain⟩

def Tracking.start (journalKeep : ℕ) (scanFrom : Bytes32) : Tracking :=
  ⟨Profiles.start journalKeep scanFrom, []⟩

/-- A chain as the node reports it: distinct blocks, each transaction accepted once, and accepting
DAA scores that grow from block to block. -/
structure ProfileChain (chain : List ChainBlock) : Prop where
  blocks : (hashes chain).Nodup
  ids : ((chainTxs chain).map Tx.id).Nodup
  daa : chain.Pairwise fun b b' => ∀ tx ∈ b.txs, ∀ tx' ∈ b'.txs, tx.acceptingDaa < tx'.acceptingDaa

instance (chain : List ChainBlock) : Decidable (ProfileChain chain) :=
  decidable_of_iff ((hashes chain).Nodup ∧ ((chainTxs chain).map Tx.id).Nodup ∧
      chain.Pairwise fun b b' => ∀ tx ∈ b.txs, ∀ tx' ∈ b'.txs, tx.acceptingDaa < tx'.acceptingDaa)
    ⟨fun h => ⟨h.1, h.2.1, h.2.2⟩, fun h => ⟨h.blocks, h.ids, h.daa⟩⟩

def Reported (s : Tracking) : Tick → Prop
  | .batch c => ProfileChain (nextTip s c)
  | .restart _ _ => True

instance (s : Tracking) (k : Tick) : Decidable (Reported s k) :=
  match k with
  | .batch c => inferInstanceAs (Decidable (ProfileChain (nextTip s c)))
  | .restart _ _ => isTrue trivial

/-- The undo entries that the records of `txs` leave when they are applied after `before`. -/
def recordEntries (before txs : List Tx) : List UndoEntry :=
  (applyProfiles env ⟨∅, (applyProfiles env Registry.new before).profiles, []⟩ txs).journal

/-- The entries that the records of the removed blocks left are still in the journal in memory. -/
def Held (s : Tracking) : Tick → Prop
  | .batch c => profileEntries p (recordEntries env (chainTxs (remaining s c)) (chainTxs (undone s c)))
      <:+ profileEntries p s.profiles.follower.registry.journal
  | .restart _ _ => True

instance (s : Tracking) (k : Tick) : Decidable (Held env p s k) :=
  match k with
  | .batch _ => inferInstanceAs (Decidable (_ <:+ _))
  | .restart _ _ => isTrue trivial

/-- The profile stored for an address is the newest of its records on the chain. -/
structure StoredNewest (s : Tracking) : Prop where
  newest (spk : Bytes) : (p.spkAddress spk).isSome →
    IsNewest rowGt (profileWrites env p (chainTxs s.chain)) spk (s.profiles.rows.lookup spk)

end

section
variable {env : Env} {p : ProfilesEnv} {s : Tracking} {c : Change}

theorem remaining_append_undone (s : Tracking) (c : Change) : remaining s c ++ undone s c = s.chain :=
  List.take_append_drop ..

theorem profileWrites_append (txs more : List Tx) :
    profileWrites env p (txs ++ more) = profileWrites env p txs ++ profileWrites env p more :=
  List.filterMap_append

theorem profileWrites_chain (blocks : List ChainBlock) :
    (blocks.map fun b => (b.hash, profileWrites env p b.txs)).flatMap Prod.snd =
      profileWrites env p (chainTxs blocks) := by
  induction blocks with
  | nil => rfl
  | cons b bs ih =>
    rw [List.map_cons, List.flatMap_cons, ih, ← profileWrites_append]
    rfl

theorem profileWrites_tag {txs : List Tx} {w : ProfileWrite} (h : w ∈ profileWrites env p txs) :
    ∃ tx ∈ txs, w.tag = tx.acceptingBlock := by
  obtain ⟨tx, htx, hw⟩ := List.mem_filterMap.mp h
  obtain ⟨r, -, rfl⟩ := Option.map_eq_some_iff.mp hw
  exact ⟨tx, htx, rfl⟩

theorem recordEntries_addressed (before txs : List Tx) :
    profileEntries p (recordEntries env before txs) = (registers rowGt).runLog
      ((registers rowGt).run (fun _ => none) (profileWrites env p before)) (profileWrites env p txs) := by
  have hnew : addressed p Registry.new.profiles = fun _ => none := by
    funext spk
    simp [addressed, Registry.new]
  have hbefore := (Prod.mk.inj (@applyProfiles_addressed env p Registry.new before)).1
  rw [hnew] at hbefore
  have hrun := (Prod.mk.inj (@applyProfiles_addressed env p
    ⟨∅, (applyProfiles env Registry.new before).profiles, []⟩ txs)).2
  rw [← hbefore]
  exact hrun

/-- The profiles of addresses replay the records of the chain, and so do their rows. -/
structure Tracks (env : Env) (p : ProfilesEnv) (s : Tracking) : Prop where
  blocks : (hashes s.chain).Nodup
  replays : (registers rowGt).Replays (fun _ => none)
    (addressed p s.profiles.follower.registry.profiles,
      profileEntries p s.profiles.follower.registry.journal) (profileWrites env p (chainTxs s.chain))
  rows : ∀ spk, s.profiles.rows.lookup spk = addressed p s.profiles.follower.registry.profiles spk

/-- Undoing the removed blocks leads to a replay of the others. -/
theorem Tracks.undo (h : Tracks env p s) (hheld : Held env p s (.batch c)) :
    (registers rowGt).Replays (fun _ => none)
      (addressed p (undoBlocks s.profiles.follower.registry (tickBatch s c).removedBlocks).profiles,
        profileEntries p (undoBlocks s.profiles.follower.registry (tickBatch s c).removedBlocks).journal)
      (profileWrites env p (chainTxs (remaining s c))) := by
  set blocks := (undone s c).map fun b => (b.hash, profileWrites env p b.txs) with hblocks
  have hfst : blocks.map Prod.fst = hashes (undone s c) := by
    rw [hblocks, List.map_map]
    rfl
  have hsnd : blocks.flatMap Prod.snd = profileWrites env p (chainTxs (undone s c)) :=
    profileWrites_chain _
  have hnodup := h.blocks
  rw [← remaining_append_undone s c, hashes, List.map_append, List.nodup_append] at hnodup
  have hreplays := h.replays
  rw [← remaining_append_undone s c, chainTxs_append, profileWrites_append, ← hsnd] at hreplays
  have hundo := hreplays.undo entries_tag logged_write
    (by
      rintro b hb w hw
      obtain ⟨b', -, rfl⟩ := List.mem_map.mp hb
      obtain ⟨tx, htx, htag⟩ := profileWrites_tag hw
      exact htag.trans (b'.accepts tx htx))
    (by
      have hentries := @recordEntries_addressed env p (chainTxs (remaining s c)) (chainTxs (undone s c))
      rw [hsnd, ← hentries]
      exact hheld)
    (by rw [hfst]; exact hnodup.2.1)
    (by
      intro w hw hmem
      obtain ⟨tx, htx, htag⟩ := profileWrites_tag hw
      rw [hfst, htag] at hmem
      exact hnodup.2.2 _ (mem_chainTxs_block htx) _ hmem rfl)
  rw [hfst] at hundo
  have hseen := @undoBlocks_addressed p s.profiles.follower.registry (hashes (undone s c)).reverse
  rw [show (tickBatch s c).removedBlocks = (hashes (undone s c)).reverse from rfl, hseen]
  exact hundo

theorem Tracks.next {k : Tick} (h : Tracks env p s) (hreported : Reported s k)
    (hheld : Held env p s k) : Tracks env p (s.next env p k) := by
  cases k with
  | restart journalKeep scanFrom =>
    have hrows : addressed p s.profiles.rows = addressed p s.profiles.follower.registry.profiles := by
      funext spk
      rw [addressed, h.rows, addressed]
      split <;> rfl
    refine ⟨h.blocks, ⟨hrows.trans h.replays.state, List.nil_suffix⟩, fun spk => ?_⟩
    exact (h.rows spk).trans (congrFun hrows spk).symm
  | batch c =>
    have hundone := h.undo hheld
    have happlied := hundone.apply (profileWrites env p (chainTxs c.blocks))
    have hrun := @applyProfiles_addressed env p
      (undoBlocks s.profiles.follower.registry (tickBatch s c).removedBlocks) (chainTxs c.blocks)
    rw [← hrun, ← profileWrites_append, ← chainTxs_append] at happlied
    refine ⟨hreported.blocks, ?_, onBatch_rows h.rows⟩
    exact happlied.shorten ((List.drop_suffix _ _).filterMap _)

theorem tracks_start (journalKeep : ℕ) (scanFrom : Bytes32) :
    Tracks env p (.start journalKeep scanFrom) where
  blocks := List.nodup_nil
  replays := ⟨by funext spk; simp [addressed, Tracking.start, Profiles.start, Profiles.restart,
    chainTxs, profileWrites, Machine.run], List.nil_suffix⟩
  rows spk := by simp [addressed, Tracking.start, Profiles.start, Profiles.restart]

theorem Tracks.stored (h : Tracks env p s) : StoredNewest env p s := by
  refine ⟨fun spk haddr => ?_⟩
  have hstate : addressed p s.profiles.follower.registry.profiles = _ := h.replays.state
  rw [h.rows, hstate]
  have hirrefl : ∀ r, rowGt r r = false := fun r => orderGt_irrefl r.2
  exact run_newest hirrefl orderGt_trans _ spk

/-- With batches that find in memory the undo entries of the records they remove, the profile stored
for every address is the newest record on the chain, across any restarts. -/
theorem stored_profiles_newest (env : Env) (p : ProfilesEnv) (journalKeep : ℕ) (scanFrom : Bytes32)
    (ticks : List Tick)
    (hreported : Throughout (Tracking.next env p) Reported (.start journalKeep scanFrom) ticks)
    (hheld : Throughout (Tracking.next env p) (Held env p) (.start journalKeep scanFrom) ticks) :
    StoredNewest env p (ticks.foldl (Tracking.next env p) (.start journalKeep scanFrom)) := by
  have hstart : Tracks env p (.start journalKeep scanFrom) := tracks_start journalKeep scanFrom
  generalize Tracking.start journalKeep scanFrom = s at *
  induction ticks generalizing s with
  | nil => exact hstart.stored
  | cons k ticks ih => exact ih _ hreported.2 hheld.2 (hstart.next hreported.1 hheld.1)

end

/-- The scripts of a set in one fixed order. -/
def sortedScripts (s : Finset Bytes) : List Bytes :=
  Quot.liftOn s.val (List.insertionSort fun a b => a.map UInt8.toNat ≤ b.map UInt8.toNat) <| by
    intro l l' hperm
    have : Std.Antisymm fun a b : Bytes => a.map UInt8.toNat ≤ b.map UInt8.toNat :=
      ⟨fun a b h h' => List.map_injective_iff.mpr (fun _ _ h => UInt8.toNat_inj.mp h)
        (le_antisymm h h')⟩
    have : IsTrans Bytes fun a b => a.map UInt8.toNat ≤ b.map UInt8.toNat :=
      ⟨fun _ _ _ h h' => le_trans h h'⟩
    have : Std.Total fun a b : Bytes => a.map UInt8.toNat ≤ b.map UInt8.toNat :=
      ⟨fun a b => le_total _ _⟩
    exact (((List.perm_insertionSort _ l).trans hperm).trans
      (List.perm_insertionSort _ l').symm).eq_of_pairwise'
      (List.pairwise_insertionSort _ l) (List.pairwise_insertionSort _ l')

theorem sortedScripts_perm (s : Finset Bytes) : (sortedScripts s : Multiset Bytes) = s.val := by
  unfold sortedScripts
  induction s.val using Quot.inductionOn with
  | _ l => exact Quot.sound (List.perm_insertionSort _ l)

/-- Every script is its own address. -/
def sampleProfiles : ProfilesEnv where
  spkAddress := some
  iter s := ⟨sortedScripts s, by
    rw [← Multiset.coe_nodup, sortedScripts_perm]
    exact s.nodup, fun spk => by
    rw [← Multiset.mem_coe, sortedScripts_perm]
    exact Iff.rfl⟩

/-- The JSON reader on records of which only the version matters. -/
def sampleEnv : Env := { NamesSample.env with rawProfile := fun _ => some ⟨some 1, none, none, none, none, none⟩ }

/-- A profile saved by the owner of the one-byte script `[1]`. -/
def saveProfile : Tx where
  id := NamesSample.fill 0x61
  inputs := [⟨NamesSample.genesis, [], [1], none⟩]
  outputs := [NamesSample.output [1]]
  payload := ascii "kchat:1:profile:{}"
  acceptingBlock := NamesSample.fill 0xd1
  acceptingDaa := 100
  blockTime := NamesSample.now
  inputs_le := by decide
  outputs_le := by decide
  inputs_ne_id := by decide

/-- The same profile saved again, in a block that replaces the first. -/
def saveAgain : Tx :=
  { saveProfile with
    id := NamesSample.fill 0x62
    acceptingBlock := NamesSample.fill 0xd2
    acceptingDaa := 101
    inputs_ne_id := by decide }

/-- A save, a restart, and a reorg of a later save. -/
def laterReorg : List Tick :=
  [.batch ⟨0, [soleBlock saveProfile]⟩, .restart 10 (NamesSample.fill 0),
    .batch ⟨0, [soleBlock saveAgain]⟩, .batch ⟨1, []⟩]

theorem reorg_since_restart :
    StoredNewest sampleEnv sampleProfiles (laterReorg.foldl (Tracking.next sampleEnv sampleProfiles)
      (.start 10 (NamesSample.fill 0))) :=
  stored_profiles_newest sampleEnv sampleProfiles 10 (NamesSample.fill 0) laterReorg
    (by decide +kernel) (by decide +kernel)

/-- A save, a restart, and a reorg that removes the save. -/
def earlierReorg : List Tick :=
  [.batch ⟨0, [soleBlock saveProfile]⟩, .restart 10 (NamesSample.fill 0), .batch ⟨1, []⟩]

/-- The undo entry went with the process that wrote it, so the profile stays stored. -/
theorem reorg_past_restart :
    ¬ ∀ (env : Env) (p : ProfilesEnv) (journalKeep : ℕ) (scanFrom : Bytes32) (ticks : List Tick),
      Throughout (Tracking.next env p) Reported (.start journalKeep scanFrom) ticks →
      StoredNewest env p (ticks.foldl (Tracking.next env p) (.start journalKeep scanFrom)) := by
  intro h
  have hrun := h sampleEnv sampleProfiles 10 (NamesSample.fill 0) earlierReorg
    (by decide +kernel)
  generalize hend : earlierReorg.foldl (Tracking.next sampleEnv sampleProfiles)
    (.start 10 (NamesSample.fill 0)) = s at hrun
  have hstored : s.profiles.rows.lookup [1] = some (ascii "{}", 100, NamesSample.fill 0x61) := by
    rw [← hend]
    decide +kernel
  have hchain : profileWrites sampleEnv sampleProfiles (chainTxs s.chain) = [] := by
    rw [← hend]
    decide +kernel
  have hnewest := hrun.newest [1] rfl
  rw [hstored, hchain] at hnewest
  obtain ⟨⟨w, hw, -⟩, -⟩ := hnewest
  cases hw

end KaChatIndexer.ProfilesRestart

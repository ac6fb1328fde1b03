import KaChatIndexer.FollowerReorg
import KaChatIndexer.NamesConfluence

/-!
# Following the chain after a bootstrap walk

The walk has applied the transactions accepted up to its checkpoint, and perhaps some that the chain
carries later. The main loop leaves out every transaction that the walk applied, for as long as it
runs, also one whose block a reorg has removed since.
-/
namespace KaChatIndexer.FollowerResume
open ByteStrings NamesState NamesEnv NamesTemplates NamesRegistry NamesApply NamesReorg
open FollowerLoop FollowerReorg FollowerBootstrap NamesConfluence

/-- The main loop after a walk: the transactions whose effects the live set has, in the order in which
they were applied, and those among them that the processed chain has not carried yet. -/
structure Resumed extends Following where
  applied : List Tx
  ahead : List Tx

def resume (env : Env) (t : Templates) (m : Manifest) (s : Resumed) (c : Change) : Resumed where
  toFollowing := follow env t m s.toFollowing c
  applied := if LetThrough s.toFollowing c then
      s.applied.filter (fun tx => tx.acceptingBlock ∉ hashes (dropped s.toFollowing c)) ++
        (chainTxs c.blocks).filter fun tx => tx.id ∉ s.loop.bootstrappedTxids
    else []
  ahead := if LetThrough s.toFollowing c then
      s.ahead.filter fun tx => tx.id ∉ (chainTxs c.blocks).map Tx.id
    else []

/-- A batch that neither carries a transaction of the walk that a removal has undone, nor removes
transactions other than the last applied, nor finds their undo entries pruned. -/
structure Undisturbed (env : Env) (t : Templates) (base : Registry) (s : Resumed) (c : Change) :
    Prop where
  carried : ∀ tx ∈ chainTxs c.blocks, tx.id ∈ s.loop.bootstrappedTxids → tx ∈ s.ahead
  last : ∃ before, s.applied = before ++ chainTxs (dropped s.toFollowing c) ∧
    Unpruned env t base s.registry before (chainTxs (dropped s.toFollowing c))
  apart : ∀ tx ∈ s.ahead, tx.acceptingBlock ∉ hashes (dropped s.toFollowing c)

/-- The live set replays the transactions of the processed chain and those ahead of it, each once. -/
structure Resumes (env : Env) (t : Templates) (base : Registry) (s : Resumed) : Prop where
  valid : ValidChain base s.chain
  replays : Replays env t base s.registry s.applied
  perm : s.applied.Perm (chainTxs s.chain ++ s.ahead)
  ids : ((chainTxs s.chain ++ s.ahead).map Tx.id).Nodup
  new : ∀ op ∈ base.utxos, op.1 ∉ s.ahead.map Tx.id
  walked : ∀ tx ∈ s.ahead, tx.id ∈ s.loop.bootstrappedTxids

section
variable {env : Env} {t : Templates} {base : Registry} {s : Resumed} {c : Change}

theorem Resumes.fresh (h : Resumes env t base s) : FreshRun env t base s.applied := by
  refine freshRun_of_nodup ((h.perm.map Tx.id).nodup_iff.mpr h.ids) fun op hop hmem => ?_
  rw [(h.perm.map Tx.id).mem_iff, List.map_append, List.mem_append] at hmem
  exact hmem.elim (h.valid.new op hop) (h.new op hop)

/-- Before the removed blocks' transactions came those of the kept blocks and those ahead. -/
theorem Resumes.before (h : Resumes env t base s) {before : List Tx}
    (hlast : s.applied = before ++ chainTxs (dropped s.toFollowing c)) :
    before.Perm (chainTxs (kept s.toFollowing c) ++ s.ahead) := by
  have hperm := h.perm
  rw [hlast, ← kept_append_dropped s.toFollowing c, chainTxs_append] at hperm
  have hswap : (chainTxs (kept s.toFollowing c) ++ chainTxs (dropped s.toFollowing c) ++ s.ahead).Perm
      (chainTxs (kept s.toFollowing c) ++ s.ahead ++ chainTxs (dropped s.toFollowing c)) := by
    rw [List.append_assoc, List.append_assoc]
    exact List.perm_append_comm.append_left _
  exact (List.perm_append_right_iff _).mp (hperm.trans hswap)

theorem Resumes.before_apart (h : Resumes env t base s)
    (hapart : ∀ tx ∈ s.ahead, tx.acceptingBlock ∉ hashes (dropped s.toFollowing c))
    {before : List Tx} (hlast : s.applied = before ++ chainTxs (dropped s.toFollowing c)) :
    ∀ tx ∈ before, tx.acceptingBlock ∉ hashes (dropped s.toFollowing c) := by
  intro tx htx
  rcases List.mem_append.mp ((h.before hlast).mem_iff.mp htx) with htx | htx
  · exact h.valid.apart.2 tx htx
  · exact hapart tx htx

/-- The transactions of the removed blocks are those whose accepting block is removed. -/
theorem Resumes.filter_applied (h : Resumes env t base s)
    (hapart : ∀ tx ∈ s.ahead, tx.acceptingBlock ∉ hashes (dropped s.toFollowing c))
    {before : List Tx} (hlast : s.applied = before ++ chainTxs (dropped s.toFollowing c)) :
    s.applied.filter (fun tx => tx.acceptingBlock ∉ hashes (dropped s.toFollowing c)) = before := by
  have hbefore := h.before_apart hapart hlast
  rw [hlast, List.filter_append, List.filter_eq_self.mpr (by simpa using hbefore),
    List.filter_eq_nil_iff.mpr fun tx htx => by simpa using mem_chainTxs_block htx, List.append_nil]

/-- What a batch carries of the walk's transactions, it takes from those ahead. -/
theorem Resumes.perm_carried (h : Resumes env t base s)
    (hids : ((chainTxs c.blocks).map Tx.id).Nodup)
    (hcarried : ∀ tx ∈ chainTxs c.blocks, tx.id ∈ s.loop.bootstrappedTxids → tx ∈ s.ahead) :
    (s.ahead ++ (chainTxs c.blocks).filter fun tx => tx.id ∉ s.loop.bootstrappedTxids).Perm
      (chainTxs c.blocks ++ s.ahead.filter fun tx => tx.id ∉ (chainTxs c.blocks).map Tx.id) := by
  have hahead : (s.ahead.map Tx.id).Nodup := by
    have hids := h.ids
    rw [List.map_append, List.nodup_append] at hids
    exact hids.2.1
  have hsame : (s.ahead.filter fun tx => tx.id ∈ (chainTxs c.blocks).map Tx.id).Perm
      ((chainTxs c.blocks).filter fun tx => tx.id ∈ s.loop.bootstrappedTxids) := by
    rw [List.perm_ext_iff_of_nodup (hahead.of_map.filter _) (hids.of_map.filter _)]
    intro tx
    simp only [List.mem_filter, decide_eq_true_eq, List.mem_map]
    constructor
    · rintro ⟨htx, tx', htx', hid⟩
      have hwalked := h.walked tx htx
      have htx'' := hcarried tx' htx' (hid ▸ hwalked)
      obtain rfl := List.inj_on_of_nodup_map hahead htx'' htx hid
      exact ⟨htx', hwalked⟩
    · rintro ⟨htx, hid⟩
      exact ⟨hcarried tx htx hid, tx, htx, rfl⟩
  set skipped := (chainTxs c.blocks).filter fun tx => tx.id ∈ s.loop.bootstrappedTxids
  set fresh := (chainTxs c.blocks).filter fun tx => tx.id ∉ s.loop.bootstrappedTxids
  set carried := s.ahead.filter fun tx => tx.id ∈ (chainTxs c.blocks).map Tx.id
  set left := s.ahead.filter fun tx => tx.id ∉ (chainTxs c.blocks).map Tx.id
  have hsplit (txs : List Tx) (p : Tx → Prop) [DecidablePred p] :
      (txs.filter (fun tx => p tx) ++ txs.filter fun tx => ¬ p tx).Perm txs := by
    simpa using List.filter_append_perm (fun tx => decide (p tx)) txs
  have hwaiting : (carried ++ left).Perm s.ahead := hsplit _ _
  have hblocks : (skipped ++ fresh).Perm (chainTxs c.blocks) := hsplit _ _
  calc (s.ahead ++ fresh).Perm (carried ++ left ++ fresh) := hwaiting.symm.append_right fresh
    _ = carried ++ (left ++ fresh) := List.append_assoc ..
    List.Perm _ (carried ++ (fresh ++ left)) := List.perm_append_comm.append_left carried
    List.Perm _ (skipped ++ (fresh ++ left)) := hsame.append_right _
    _ = skipped ++ fresh ++ left := (List.append_assoc ..).symm
    List.Perm _ (chainTxs c.blocks ++ left) := hblocks.append_right left

theorem resume_letThrough {m : Manifest} (hpass : LetThrough s.toFollowing c) :
    (resume env t m s c).applied =
      s.applied.filter (fun tx => tx.acceptingBlock ∉ hashes (dropped s.toFollowing c)) ++
        (chainTxs c.blocks).filter (fun tx => tx.id ∉ s.loop.bootstrappedTxids) ∧
    (resume env t m s c).ahead = s.ahead.filter (fun tx => tx.id ∉ (chainTxs c.blocks).map Tx.id) ∧
    (resume env t m s c).chain = kept s.toFollowing c ++ c.blocks :=
  ⟨if_pos hpass, if_pos hpass, if_pos hpass⟩

theorem Resumes.next {m : Manifest} {keep : ℕ} (h : Resumes env t (m.start keep).registry s)
    (hvalid : ValidChain (m.start keep).registry (nextChain s.toFollowing c))
    (hquiet : LetThrough s.toFollowing c → Undisturbed env t (m.start keep).registry s c) :
    Resumes env t (m.start keep).registry (resume env t m s c) := by
  by_cases hpass : LetThrough s.toFollowing c
  · obtain ⟨before, hlast, hunpruned⟩ := (hquiet hpass).last
    have hcarried := (hquiet hpass).carried
    have hapart := (hquiet hpass).apart
    have hbefore := h.before hlast
    rw [nextChain, if_pos hpass] at hvalid
    have hblocks : ((chainTxs c.blocks).map Tx.id).Nodup := by
      have hids := hvalid.ids
      rw [chainTxs_append, List.map_append, List.nodup_append] at hids
      exact hids.2.1
    have hfresh := h.fresh
    have hreplays := h.replays
    rw [hlast] at hfresh hreplays
    have hundone : Replays env t (m.start keep).registry
        (undoBlocks s.registry (batchOf s.toFollowing c).removedBlocks) before :=
      hreplays.undo hunpruned hfresh h.valid.apart.1 (h.before_apart hapart hlast)
    obtain ⟨happlied, hahead, hchain⟩ := @resume_letThrough env t s c m hpass
    obtain ⟨hfollower, hwalked⟩ := @onBatch_letThrough env t m s.loop (batchOf s.toFollowing c) hpass
    rw [h.filter_applied hapart hlast] at happlied
    have hperm : (resume env t m s c).applied.Perm
        (chainTxs (resume env t m s c).chain ++ (resume env t m s c).ahead) := by
      rw [happlied, hahead, hchain, chainTxs_append, List.append_assoc]
      have hcarry := (h.perm_carried hblocks hcarried).append_left (chainTxs (kept s.toFollowing c))
      rw [← List.append_assoc] at hcarry
      exact (hbefore.append_right _).trans hcarry
    exact
      { valid := by rwa [hchain]
        replays := by
          rw [happlied]
          change Replays env t _ (s.loop.onBatch env t m _).follower.registry _
          rw [hfollower]
          exact step_replays (f := s.loop.follower) hundone
        perm := hperm
        ids := by
          rw [hchain, hahead, List.map_append, List.nodup_append]
          have hids := h.ids
          rw [List.map_append, List.nodup_append] at hids
          refine ⟨hvalid.ids, hids.2.1.sublist (List.filter_sublist.map _), ?_⟩
          intro id hid id' hid' heq
          obtain ⟨tx, htx, rfl⟩ := List.mem_map.mp hid'
          obtain ⟨htx, hnew⟩ := List.mem_filter.mp htx
          rw [chainTxs_append, List.map_append, List.mem_append] at hid
          rcases hid with hid | hid
          · refine hids.2.2 id ?_ tx.id (List.mem_map_of_mem htx) heq
            rw [← kept_append_dropped s.toFollowing c, chainTxs_append, List.map_append]
            exact List.mem_append_left _ hid
          · exact of_decide_eq_true hnew (heq ▸ hid)
        new := fun op hop hmem => by
          rw [hahead] at hmem
          exact h.new op hop ((List.filter_sublist.map _).subset hmem)
        walked := fun tx htx => by
          rw [hahead] at htx
          change tx.id ∈ (s.loop.onBatch env t m _).bootstrappedTxids
          rw [hwalked]
          exact h.walked tx (List.mem_of_mem_filter htx) }
  · have hrewind : s.loop.onBatch env t m (batchOf s.toFollowing c) = rewind m s.loop :=
      onBatch_rewind hpass
    have hstart := @follows_start env t m keep (rewind m s.loop) rfl rfl
    have hafter : resume env t m s c = ⟨⟨rewind m s.loop, []⟩, [], []⟩ := by
      simp only [resume, follow, hrewind, nextChain, if_neg hpass]
    rw [hafter]
    exact ⟨hstart.valid, hstart.replays, .nil, List.nodup_nil, fun _ _ => List.not_mem_nil,
      fun _ h => absurd h List.not_mem_nil⟩

/-- The transactions were applied in chain order, and none is ahead of the chain. -/
def InChainOrder (s : Resumed) : Prop := s.applied = chainTxs s.chain ∧ s.ahead = []

theorem InChainOrder.next {m : Manifest} (hs : InChainOrder s)
    (hquiet : LetThrough s.toFollowing c → Undisturbed env t base s c)
    (hafter : Resumes env t base s) : InChainOrder (resume env t m s c) := by
  obtain ⟨happlied, hnone⟩ := hs
  by_cases hpass : LetThrough s.toFollowing c
  · obtain ⟨before, hlast, -⟩ := (hquiet hpass).last
    have hkept : before = chainTxs (kept s.toFollowing c) := by
      have hsplit := hlast
      rw [happlied, ← kept_append_dropped s.toFollowing c, chainTxs_append] at hsplit
      exact (List.append_cancel_right hsplit).symm
    have hfresh : (chainTxs c.blocks).filter (fun tx => tx.id ∉ s.loop.bootstrappedTxids) =
        chainTxs c.blocks := by
      rw [List.filter_eq_self]
      intro tx htx
      rw [decide_eq_true_eq]
      intro hid
      have hahead := (hquiet hpass).carried tx htx hid
      rw [hnone] at hahead
      cases hahead
    obtain ⟨happlied', hahead', hchain'⟩ := @resume_letThrough env t s c m hpass
    rw [hafter.filter_applied (hquiet hpass).apart hlast, hfresh, hkept, ← chainTxs_append] at happlied'
    exact ⟨by rw [happlied', hchain'], by rw [hahead', hnone]; rfl⟩
  · refine ⟨?_, if_neg hpass⟩
    change (resume env t m s c).applied = chainTxs (nextChain s.toFollowing c)
    rw [nextChain, if_neg hpass]
    exact if_neg hpass

/-- In a run whose batches are undisturbed, after every batch the live set replays exactly the
transactions accepted on the processed chain and those of the walk still ahead of it: in chain
order if the walk ended so, and in any ready order the same but for offers. -/
theorem bootstrapped_run_replays (m : Manifest) (keep : ℕ) (s : Resumed) (changes : List Change)
    (hstart : Resumes env t (m.start keep).registry s)
    (hvalid : Along (resume env t m)
      (fun s c => ValidChain (m.start keep).registry (nextChain s.toFollowing c)) s changes)
    (hquiet : Along (resume env t m)
      (fun s c => LetThrough s.toFollowing c → Undisturbed env t (m.start keep).registry s c)
      s changes) :
    ∃ after : Resumed, after.toFollowing = changes.foldl (follow env t m) s.toFollowing ∧
      after.applied.Perm (chainTxs after.chain ++ after.ahead) ∧ (after.applied.map Tx.id).Nodup ∧
      after.ahead.Sublist s.ahead ∧
      after.registry.utxos = (applyAll env t (m.start keep).registry after.applied).utxos ∧
      (InChainOrder s → after.registry.utxos =
        (applyBlocks env t (m.start keep).registry after.chain).utxos) ∧
      ∀ cov order accepted, WalkSet env t cov (m.start keep).registry accepted →
        accepted.map RestTx.tx = chainTxs after.chain ++ after.ahead →
        order.Perm accepted → order.map RestTx.tx = after.applied →
        ReadyOrder env t (m.start keep).registry order →
        ReadyOrder env t (m.start keep).registry accepted →
        SameButOffers env t accepted after.registry.utxos
          (applyAll env t (m.start keep).registry (chainTxs after.chain ++ after.ahead)).utxos := by
  induction changes generalizing s with
  | nil =>
    have hids := (hstart.perm.map Tx.id).nodup_iff.mpr hstart.ids
    refine ⟨s, rfl, hstart.perm, hids, List.Sublist.refl _, hstart.replays.utxos, fun horder => ?_, ?_⟩
    · rw [hstart.replays.utxos, horder.1]
      rfl
    · intro cov order accepted hset haccepted hperm horder hready hready'
      rw [hstart.replays.utxos, ← horder, ← haccepted]
      exact hset.orders_agree hperm (List.Perm.refl accepted) hready hready'
  | cons c changes ih =>
    have hnext := hstart.next hvalid.1 hquiet.1
    obtain ⟨after, hloop, hperm, hids, hahead, hutxos, horder, hready⟩ :=
      ih (resume env t m s c) hnext hvalid.2 hquiet.2
    refine ⟨after, hloop, hperm, hids, hahead.trans ?_, hutxos,
      fun h => horder (h.next hquiet.1 hstart), hready⟩
    change (if _ then _ else _ : List Tx).Sublist s.ahead
    split
    · exact List.filter_sublist
    · exact List.nil_sublist _

end

section
open NamesSample

/-- The main loop after a walk that applied the registration of `alice`. -/
def aliceWalked : Resumed where
  loop := ⟨{ sampleManifest.start 10 with
      registry := applyBlocks env templates (sampleManifest.start 10).registry
        [soleBlock registerAlice] }, [], [registerAlice.id]⟩
  chain := [soleBlock registerAlice]
  applied := chainTxs [soleBlock registerAlice]
  ahead := []

theorem aliceWalked_registry : aliceWalked.registry =
    applyAll env templates (sampleManifest.start 10).registry aliceWalked.applied := rfl

theorem aliceWalked_resumes :
    Resumes env templates (sampleManifest.start 10).registry aliceWalked where
  valid := by decide +kernel
  replays := ⟨congrArg Registry.utxos aliceWalked_registry, by decide +kernel⟩
  perm := by simp [aliceWalked]
  ids := by decide +kernel
  new := by simp [aliceWalked]
  walked := by simp [aliceWalked]

/-- The block of `alice` goes, one with an offer comes. -/
theorem alice_resumed :
    ([⟨1, [soleBlock makeOffer]⟩].foldl (follow env templates sampleManifest)
        aliceWalked.toFollowing).registry.utxos =
      (applyBlocks env templates (sampleManifest.start 10).registry [soleBlock makeOffer]).utxos := by
  have hpass : LetThrough aliceWalked.toFollowing ⟨1, [soleBlock makeOffer]⟩ := by decide +kernel
  have hnew : ∀ tx ∈ chainTxs [soleBlock makeOffer],
      tx.id ∉ aliceWalked.loop.bootstrappedTxids := by decide +kernel
  have hkept : Unpruned env templates (sampleManifest.start 10).registry aliceWalked.registry []
      (chainTxs [soleBlock registerAlice]) := by unfold Unpruned; decide +kernel
  obtain ⟨after, hloop, -, -, -, -, horder, -⟩ :=
    @bootstrapped_run_replays env templates sampleManifest 10 aliceWalked
      [⟨1, [soleBlock makeOffer]⟩] aliceWalked_resumes ⟨by decide +kernel, trivial⟩
      ⟨fun _ => ⟨fun tx htx hid => absurd hid (hnew tx htx), ⟨[], rfl, hkept⟩, by simp [aliceWalked]⟩,
        trivial⟩
  have hchain : after.chain = [soleBlock makeOffer] := by
    rw [hloop, List.foldl_cons, List.foldl_nil, follow, nextChain, if_pos hpass]
    rfl
  have hutxos := horder ⟨rfl, rfl⟩
  rwa [hchain, hloop] at hutxos

/-- `alice` again, accepted by another block. -/
def aliceElsewhere : ChainBlock where
  hash := fill 0xbd
  txs := [{ registerAlice with acceptingBlock := fill 0xbd }]
  accepts := by decide

/-- A reorg takes the registration of `alice` back; the block that accepts it again is filtered. -/
theorem reaccepted_alice_lost :
    ¬ ∀ (env : Env) (t : Templates) (m : Manifest) (keep : ℕ) (s : Following) (changes : List Change),
      ValidChain (m.start keep).registry s.chain →
      s.registry = applyBlocks env t (m.start keep).registry s.chain →
      s.loop.bootstrappedTxids = (chainTxs s.chain).map Tx.id →
      Along (follow env t m) (fun s c => ValidChain (m.start keep).registry (nextChain s c))
        s changes →
      (changes.foldl (follow env t m) s).registry.utxos =
        (applyBlocks env t (m.start keep).registry (changes.foldl (follow env t m) s).chain).utxos := by
  intro h
  have hsame := h env templates sampleManifest 10 aliceWalked.toFollowing [⟨1, [aliceElsewhere]⟩]
    (by decide +kernel) rfl rfl ⟨by decide +kernel, trivial⟩
  have hlookup := congrArg (Finmap.lookup aliceOutpoint) hsame
  revert hlookup
  decide +kernel

end

end KaChatIndexer.FollowerResume
